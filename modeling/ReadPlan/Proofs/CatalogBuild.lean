import ReadPlan.Catalog.Build
import ReadPlan.Proofs.Outcome

namespace ReadPlan

/-- Both ends of an association are entities of the catalog and have the keys that it joins; a
many-to-many association has a junction table. -/
structure Association.Fits (c : Catalog) (a : Association) : Prop where
  source : ∃ e, c.entity? a.source = some e ∧ e.hasField a.sourceKey = true
  target : ∃ e, c.entity? a.target = some e ∧ e.hasField a.targetKey = true
  junction : a.kind = .belongsToMany → a.through.isSome = true

def Entity.Distinct (a b : Entity) : Prop :=
  a.name ≠ b.name

def Association.Distinct (a b : Association) : Prop :=
  a.source = b.source → a.name ≠ b.name

structure Catalog.Valid (c : Catalog) : Prop where
  entities : c.entities.Pairwise Entity.Distinct
  fields : ∀ e ∈ c.entities, e.fieldNames.Nodup
  associations : c.associations.Pairwise Association.Distinct
  fits : ∀ a ∈ c.associations, a.Fits c

/-- A fold that appends what passes a check and differs from all that came before. -/
theorem foldlM_append_eq_ok {α σ ε : Type} {f : σ → α → Except ε σ} (state : List α → σ)
    {R : α → α → Prop} {P : α → Prop}
    (step : ∀ done x r, f (state done) x = .ok r ↔
      r = state (done ++ [x]) ∧ (∀ y ∈ done, R y x) ∧ P x)
    (done xs : List α) (before : done.Pairwise R) (r : σ) :
    xs.foldlM f (state done) = .ok r ↔
      r = state (done ++ xs) ∧ (done ++ xs).Pairwise R ∧ ∀ x ∈ xs, P x := by
  induction xs generalizing done with
  | nil =>
    simp only [List.foldlM_nil, pure_eq_ok, List.append_nil]
    exact ⟨fun h => ⟨h.symm, before, by simp⟩, fun h => h.1.symm⟩
  | cons x rest ih =>
    have assoc : done ++ x :: rest = (done ++ [x]) ++ rest := by simp
    have grown : (∀ y ∈ done, R y x) → (done ++ [x]).Pairwise R := by
      intro fresh
      rw [List.pairwise_append]
      exact ⟨before, List.pairwise_singleton R x, by simpa using fresh⟩
    simp only [List.foldlM_cons, bind_eq_ok, step]
    constructor
    · rintro ⟨_, ⟨rfl, fresh, here⟩, hr⟩
      obtain ⟨hr, pairs, others⟩ := (ih (done ++ [x]) (grown fresh)).mp hr
      exact ⟨assoc ▸ hr, assoc ▸ pairs, List.forall_mem_cons.mpr ⟨here, others⟩⟩
    · rintro ⟨hr, pairs, checks⟩
      obtain ⟨here, others⟩ := List.forall_mem_cons.mp checks
      rw [assoc] at hr pairs
      have fresh : ∀ y ∈ done, R y x := by
        intro y hy
        exact (List.pairwise_append.mp (List.pairwise_append.mp pairs).1).2.2 y hy x (by simp)
      exact ⟨_, ⟨rfl, fresh, here⟩, (ih (done ++ [x]) (grown fresh)).mpr ⟨hr, pairs, others⟩⟩

namespace Catalog

theorem firstRepeat?_eq_none (seen xs : List String) :
    firstRepeat? seen xs = none ↔ xs.Nodup ∧ ∀ x ∈ xs, x ∉ seen := by
  induction xs generalizing seen with
  | nil => simp [firstRepeat?]
  | cons x rest ih =>
    unfold firstRepeat?
    split
    · rename_i known
      simp only [List.contains_iff_mem] at known
      simp [known]
    · rename_i fresh
      simp only [List.contains_iff_mem] at fresh
      rw [ih, List.nodup_cons]
      constructor
      · rintro ⟨nodup, unseen⟩
        refine ⟨⟨fun hx => unseen x hx List.mem_cons_self, nodup⟩, ?_⟩
        intro y hy
        rcases List.mem_cons.mp hy with rfl | hy
        · exact fresh
        · exact fun hs => unseen y hy (List.mem_cons_of_mem x hs)
      · rintro ⟨⟨once, nodup⟩, unseen⟩
        refine ⟨nodup, ?_⟩
        intro y hy hs
        rcases List.mem_cons.mp hs with rfl | hs
        · exact once hy
        · exact unseen y (List.mem_cons_of_mem x hy) hs

theorem admitEntity_eq_ok (done : List Entity) (e : Entity) (r : List Entity) :
    admitEntity done e = .ok r ↔
      r = done ++ [e] ∧ (∀ y ∈ done, y.Distinct e) ∧ e.fieldNames.Nodup := by
  have known : done.any (·.name == e.name) = true ↔ ¬ ∀ y ∈ done, y.Distinct e := by
    simp [Entity.Distinct]
  have fields := firstRepeat?_eq_none [] e.fieldNames
  simp only [List.not_mem_nil, not_false_eq_true, implies_true, and_true] at fields
  unfold admitEntity
  split
  · rename_i h
    simp [known.mp h]
  · rename_i h
    have fresh := Classical.not_not.mp (mt known.mpr h)
    split
    · rename_i field hr
      have repeated : ¬ e.fieldNames.Nodup := by simp [← fields, hr]
      simp [repeated]
    · rename_i hr
      simp only [Except.ok.injEq, eq_comm (a := r), fields.mp hr, and_true]
      exact ⟨fun h => ⟨h, fresh⟩, fun h => h.1⟩

theorem checkAssociation_of_fits {c : Catalog} {a : Association} (fits : a.Fits c) :
    c.checkAssociation a = .ok () := by
  obtain ⟨source, hs, sourceKey⟩ := fits.source
  obtain ⟨target, ht, targetKey⟩ := fits.target
  have through : a.kind = .belongsToMany → a.through ≠ none := by
    intro kind
    exact Option.isSome_iff_ne_none.mp (fits.junction kind)
  simpa [checkAssociation, hs, ht, sourceKey, targetKey] using through

theorem fits_of_checkAssociation {c : Catalog} {a : Association}
    (h : c.checkAssociation a = .ok ()) : a.Fits c := by
  unfold checkAssociation at h
  split at h
  · cases h
  · cases h
  · rename_i source target hs ht
    split at h
    · cases h
    · rename_i sourceKey
      split at h
      · cases h
      · rename_i targetKey
        split at h
        · cases h
        · rename_i through
          refine ⟨⟨source, hs, by simpa using sourceKey⟩,
            ⟨target, ht, by simpa using targetKey⟩, ?_⟩
          intro kind
          have given := fun bare => through ⟨kind, bare⟩
          simpa [Option.isSome_iff_ne_none] using given

theorem admitAssociation_eq_ok (entities : List Entity) (done : List Association)
    (a : Association) (r : Catalog) :
    admitAssociation ⟨entities, done⟩ a = .ok r ↔
      r = ⟨entities, done ++ [a]⟩ ∧ (∀ b ∈ done, b.Distinct a) ∧ a.Fits ⟨entities, []⟩ := by
  have known : (associationsOf ⟨entities, done⟩ a.source).any (·.name == a.name) = true ↔
      ¬ ∀ b ∈ done, b.Distinct a := by
    simp [associationsOf, Association.Distinct]
  -- Whether an association fits does not depend on the associations before it.
  have same : a.Fits ⟨entities, done⟩ ↔ a.Fits ⟨entities, []⟩ :=
    ⟨fun h => ⟨h.source, h.target, h.junction⟩, fun h => ⟨h.source, h.target, h.junction⟩⟩
  unfold admitAssociation
  split
  · rename_i e he
    have misfit : ¬ a.Fits ⟨entities, []⟩ := by
      intro fits
      rw [checkAssociation_of_fits (same.mpr fits)] at he
      cases he
    simp [misfit]
  · rename_i he
    have fits := same.mp (fits_of_checkAssociation he)
    split
    · rename_i h
      simp [known.mp h]
    · rename_i h
      have fresh := Classical.not_not.mp (mt known.mpr h)
      simp only [Except.ok.injEq, eq_comm (a := r), fits, and_true]
      exact ⟨fun h => ⟨h, fresh⟩, fun h => h.1⟩

/-- A build gives the catalog of all declarations, in their order, if and only if it is valid. -/
theorem build_eq_ok_iff (ds : List Declaration) (c : Catalog) :
    build ds = .ok c ↔ c = ⟨declaredEntities ds, declaredAssociations ds⟩ ∧ c.Valid := by
  have entities := foldlM_append_eq_ok id admitEntity_eq_ok [] (declaredEntities ds)
    List.Pairwise.nil
  have associations := foldlM_append_eq_ok (Catalog.mk (declaredEntities ds))
    (admitAssociation_eq_ok (declaredEntities ds)) [] (declaredAssociations ds) List.Pairwise.nil
  simp only [id_eq, List.nil_append] at entities associations
  simp only [build, bind_eq_ok, entities]
  constructor
  · rintro ⟨_, ⟨rfl, distinct, fields⟩, h⟩
    obtain ⟨rfl, names, fits⟩ := (associations c).mp h
    exact ⟨rfl, distinct, fields, names, fun a ha =>
      ⟨(fits a ha).source, (fits a ha).target, (fits a ha).junction⟩⟩
  · rintro ⟨rfl, valid⟩
    refine ⟨_, ⟨rfl, valid.entities, valid.fields⟩,
      (associations _).mpr ⟨rfl, valid.associations, ?_⟩⟩
    intro a ha
    exact ⟨(valid.fits a ha).source, (valid.fits a ha).target, (valid.fits a ha).junction⟩

theorem valid_of_build {ds : List Declaration} {c : Catalog} (h : build ds = .ok c) : c.Valid :=
  ((build_eq_ok_iff ds c).mp h).2

theorem mem_of_association? {c : Catalog} {entity name : String} {a : Association}
    (h : c.association? entity name = some a) : a ∈ c.associations ∧ a.source = entity := by
  have hm := List.mem_of_find?_eq_some h
  simpa [associationsOf] using hm

end Catalog

/-! A small catalog for closed instances: films in a language, with actors through a junction
table. -/

def filmEntity : Entity :=
  ⟨"film", "film", none, "film_id",
    [.plain "film_id", .plain "title", .plain "length", .plain "language_id"]⟩

def languageEntity : Entity :=
  ⟨"language", "language", none, "language_id", [.plain "language_id", .plain "name"]⟩

def actorEntity : Entity :=
  ⟨"actor", "actor", none, "actor_id", [.plain "actor_id", ⟨"last", "last_name", false⟩]⟩

def filmLanguage : Association :=
  ⟨"language", "film", "language", .belongsTo, "language_id", "language_id", none⟩

def filmActors : Association :=
  ⟨"actors", "film", "actor", .belongsToMany, "film_id", "actor_id",
    some ⟨"film_actor", none, "film_id", "actor_id"⟩⟩

def filmDeclarations : List Declaration :=
  [.entity filmEntity, .association "film" filmLanguage, .association "film" filmActors,
    .entity languageEntity, .entity actorEntity]

def filmCatalog : Catalog :=
  ⟨[filmEntity, languageEntity, actorEntity], [filmLanguage, filmActors]⟩

theorem film_build : Catalog.build filmDeclarations = .ok filmCatalog := by
  rfl

end ReadPlan
