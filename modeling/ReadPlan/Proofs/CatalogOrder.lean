import ReadPlan.Catalog.Document
import ReadPlan.Proofs.CatalogAnswers
import ReadPlan.Proofs.UpToOrder

/-!
The order of the entity tables in a catalog document. An association may refer to an entity that is
declared later, and its keys may be that entity's, so the tables say the same in every order: they
are all accepted or all refused, and the catalogs give the same answers.
-/

namespace ReadPlan

section

variable {α : Type} {key : α → String} {xs ys : List α}

theorem find?_reordered (h : xs.Perm ys) (distinct : (xs.map key).Nodup) (k : String) :
    xs.find? (key · == k) = ys.find? (key · == k) := by
  have distinct' : (ys.map key).Nodup := (h.map key).nodup_iff.mp distinct
  ext x
  rw [find?_eq_some_of_nodup distinct, find?_eq_some_of_nodup distinct', h.mem_iff]

theorem filter_reordered (h : xs.Perm ys) (distinct : (xs.map key).Nodup) (k : String) :
    xs.filter (key · == k) = ys.filter (key · == k) := by
  have moved := h.filter (key · == k)
  have few : (xs.filter (key · == k)).length ≤ 1 := by
    have once := List.nodup_iff_count_le_one.mp distinct k
    rwa [List.count, List.countP_map, List.countP_eq_length_filter] at once
  match same : xs.filter (key · == k), few with
  | [], _ => exact (List.nil_perm.mp (same ▸ moved)).symm
  | [x], _ => exact List.singleton_perm.mp (same ▸ moved)

end

namespace Catalog

/-- Every lookup has the same result in both catalogs. -/
structure SameAnswers (c c' : Catalog) : Prop where
  entity : ∀ name, c.entity? name = c'.entity? name
  associations : ∀ owner, c.associationsOf owner = c'.associationsOf owner
  association : ∀ owner name, c.association? owner name = c'.association? owner name
  withField : ∀ owner field,
    c.associationWithField? owner field = c'.associationWithField? owner field

variable {c c' : Catalog}

theorem sameAnswers_of (entity : ∀ name, c.entity? name = c'.entity? name)
    (associations : ∀ owner, c.associationsOf owner = c'.associationsOf owner) :
    SameAnswers c c' := by
  constructor
  case entity => exact entity
  case associations => exact associations
  case association =>
    intro owner name
    rw [association?, associations, association?]
  case withField =>
    intro owner field
    have leads (a : Association) : c.targetHasField a field = c'.targetHasField a field := by
      rw [targetHasField, entity, targetHasField]
    simp only [associationWithField?, associations, leads]

theorem Valid.reordered (valid : c.Valid) (entities : c.entities.Perm c'.entities)
    (associations : c.associations.Perm c'.associations) : c'.Valid := by
  have found (name : String) : c.entity? name = c'.entity? name :=
    find?_reordered entities valid.entityNames name
  constructor
  case entities =>
    exact (entities.pairwise_iff fun h => Ne.symm h).mp valid.entities
  case fields => exact fun e he => valid.fields e (entities.mem_iff.mpr he)
  case associations =>
    exact (associations.pairwise_iff fun h same => (h same.symm).symm).mp valid.associations
  case fits =>
    intro a ha
    obtain ⟨source, target, junction⟩ := valid.fits a (associations.mem_iff.mpr ha)
    rw [found] at source target
    exact ⟨source, target, junction⟩

end Catalog

/-! The declarations that the tables of a document make. -/

/-- A table declares its associations, as far as their kinds and targets are known. -/
def EntityEntry.declarations (entities : List Entity) (entry : EntityEntry) : List Declaration :=
  entry.associations.flatMap fun a =>
    (Catalog.resolveEntry entities entry.entity a).toOption.toList

namespace Catalog

def entryPairs (entries : List EntityEntry) : List (Entity × AssociationEntry) :=
  entries.flatMap fun e => e.associations.map (e.entity, ·)

def resolveAll (entities : List Entity) (entries : List EntityEntry) :
    Except CatalogError (List Declaration) :=
  (entryPairs entries).mapM fun x => resolveEntry entities x.1 x.2

theorem ofEntries_eq (entries : List EntityEntry) : ofEntries entries = (do
    let ds ← resolveAll (entries.map (·.entity)) entries
    build ((entries.map (·.entity)).map .entity ++ ds)) :=
  rfl

section

variable {entities : List Entity} {entries : List EntityEntry} {ds : List Declaration}

theorem resolveEntry_eq_ok {owner : Entity} {entry : AssociationEntry} {d : Declaration}
    (h : resolveEntry entities owner entry = .ok d) :
    ∃ a, d = .association owner.name a := by
  unfold resolveEntry at h
  split at h
  · cases h
  · split at h
    · cases h
    · cases h
      exact ⟨_, rfl⟩

theorem resolveAll_eq_ok (h : resolveAll entities entries = .ok ds) :
    ds = entries.flatMap (EntityEntry.declarations entities) := by
  have each : ds.flatMap (fun d => [d]) = (entryPairs entries).flatMap fun x =>
      (resolveEntry entities x.1 x.2).toOption.toList := by
    refine flatMap_of_mapM (fun {x d} made => ?_) h
    rw [made]
    rfl
  rw [List.flatMap_singleton'] at each
  rw [each, entryPairs, List.flatMap_assoc]
  simp only [List.flatMap_map]
  rfl

theorem declaredEntities_associations (each : ∀ d ∈ ds, ∃ owner a, d = .association owner a) :
    declaredEntities ds = [] := by
  rw [declaredEntities, List.filterMap_eq_nil_iff]
  intro d hd
  obtain ⟨owner, a, rfl⟩ := each d hd
  rfl

theorem ofEntries_eq_ok_iff {c : Catalog} : ofEntries entries = .ok c ↔
    ∃ ds, resolveAll (entries.map (·.entity)) entries = .ok ds ∧
      c = ⟨entries.map (·.entity), declaredAssociations ds⟩ ∧ c.Valid := by
  have declared {ds : List Declaration}
      (made : resolveAll (entries.map (·.entity)) entries = .ok ds) :
      (⟨declaredEntities ((entries.map (·.entity)).map .entity ++ ds),
        declaredAssociations ((entries.map (·.entity)).map .entity ++ ds)⟩ : Catalog) =
        ⟨entries.map (·.entity), declaredAssociations ds⟩ := by
    have associations : declaredEntities ds = [] := by
      refine declaredEntities_associations fun d hd => ?_
      obtain ⟨x, -, made⟩ := source_of_mapM made d hd
      obtain ⟨a, rfl⟩ := resolveEntry_eq_ok made
      exact ⟨_, a, rfl⟩
    have all : declaredEntities ((entries.map (·.entity)).map .entity) =
        entries.map (·.entity) := by
      rw [declaredEntities, List.filterMap_map]
      exact List.filterMap_some
    have none : declaredAssociations ((entries.map (·.entity)).map .entity) = [] := by
      simp [declaredAssociations]
    rw [declaredEntities, List.filterMap_append, ← declaredEntities, ← declaredEntities, all,
      associations, declaredAssociations, List.filterMap_append, ← declaredAssociations,
      ← declaredAssociations, none]
    simp
  simp only [ofEntries_eq, bind_eq_ok, build_eq_ok_iff]
  refine exists_congr fun ds => and_congr_right fun made => ?_
  rw [declared made]

theorem ownedBy_declarations (owner : String) :
    ownedBy owner (entries.flatMap (EntityEntry.declarations entities)) =
      (entries.filter (·.entity.name == owner)).flatMap fun e =>
        ownedBy owner (e.declarations entities) := by
  induction entries with
  | nil => rfl
  | cons e rest ih =>
    rw [List.flatMap_cons, ownedBy, List.filterMap_append, ← ownedBy, ← ownedBy, ih,
      List.filter_cons]
    split
    · rfl
    · rename_i other
      have others : ownedBy owner (e.declarations entities) = [] := by
        rw [ownedBy, List.filterMap_eq_nil_iff]
        intro d hd
        obtain ⟨entry, -, hd⟩ := List.mem_flatMap.mp hd
        cases made : resolveEntry entities e.entity entry with
        | error fault =>
          rw [made] at hd
          cases hd
        | ok resolved =>
          rw [made] at hd
          cases List.mem_singleton.mp hd
          obtain ⟨a, rfl⟩ := resolveEntry_eq_ok made
          simpa using other
      rw [others, List.nil_append]

end

theorem primaryKey?_reordered {entities entities' : List Entity} (h : entities.Perm entities')
    (distinct : (entities.map (·.name)).Nodup) : primaryKey? entities = primaryKey? entities' := by
  funext name
  have reversed : entities.reverse.Perm entities'.reverse :=
    (List.reverse_perm _).trans (h.trans (List.reverse_perm _).symm)
  have names : (entities.reverse.map (·.name)).Nodup := by
    rwa [List.map_reverse, List.nodup_reverse]
  rw [primaryKey?, find?_reordered reversed names, primaryKey?]

theorem ofEntries_of_reordered {entries entries' : List EntityEntry} (h : entries.Perm entries')
    {c : Catalog} (made : ofEntries entries = .ok c) :
    ∃ c', ofEntries entries' = .ok c' ∧ SameAnswers c c' := by
  obtain ⟨ds, resolved, rfl, valid⟩ := ofEntries_eq_ok_iff.mp made
  have entities : (entries.map (·.entity)).Perm (entries'.map (·.entity)) := h.map _
  have keys : resolveAll (entries.map (·.entity)) = resolveAll (entries'.map (·.entity)) := by
    funext entries
    simp only [resolveAll, resolveEntry, primaryKey?_reordered entities valid.entityNames]
  have moved : (entryPairs entries).Perm (entryPairs entries') := h.flatMap_right _
  have outcomes : Accord List.Perm (resolveAll (entries.map (·.entity)) entries)
      (resolveAll (entries.map (·.entity)) entries') :=
    Accord.mapM_perm _ moved
  rw [resolved] at outcomes
  cases resolved' : resolveAll (entries.map (·.entity)) entries' with
  | error e =>
    rw [resolved'] at outcomes
    cases outcomes
  | ok ds' =>
    rw [resolved'] at outcomes
    have associations : ds.Perm ds' := by
      cases outcomes with
      | ok related => exact related
    refine ⟨_, ofEntries_eq_ok_iff.mpr ⟨ds', keys ▸ resolved', rfl,
      valid.reordered entities (associations.filterMap _)⟩, sameAnswers_of ?_ ?_⟩
    · exact find?_reordered entities valid.entityNames
    · intro owner
      have owned : entries.filter (·.entity.name == owner) =
          entries'.filter (·.entity.name == owner) :=
        filter_reordered h (by simpa [Function.comp_def] using valid.entityNames) owner
      calc
        _ = ownedBy owner ds := associationsOf_declared owner
        _ = ownedBy owner ds' := by
          rw [resolveAll_eq_ok resolved, resolveAll_eq_ok resolved', ownedBy_declarations,
            ownedBy_declarations, owned]
        _ = _ := (associationsOf_declared owner).symm

/-- The tables of a document are accepted in every order or in none, with the same answers. -/
theorem ofEntries_reordered {entries entries' : List EntityEntry} (h : entries.Perm entries') :
    Accord SameAnswers (ofEntries entries) (ofEntries entries') := by
  cases made : ofEntries entries with
  | ok c =>
    obtain ⟨c', made', same⟩ := ofEntries_of_reordered h made
    rw [made']
    exact .ok same
  | error e =>
    cases made' : ofEntries entries' with
    | error e' => exact .error
    | ok c' =>
      obtain ⟨c, back, -⟩ := ofEntries_of_reordered h.symm made'
      rw [made] at back
      cases back

end Catalog

end ReadPlan
