import ReadPlan.Proofs.CatalogBuild
import ReadPlan.Proofs.JoinChains

namespace ReadPlan

theorem Entity.hasField_iff {e : Entity} {field : String} :
    e.hasField field = true ↔ field ∈ e.fieldNames := by
  simp [hasField, field?, fieldNames, List.find?_isSome]

theorem pairwise_keyed_iff {α : Type} {key name : α → String} {xs : List α} :
    xs.Pairwise (fun x y => key x = key y → name x ≠ name y) ↔
      ∀ k, ((xs.filter (key · == k)).map name).Nodup := by
  induction xs with
  | nil => simp
  | cons x rest ih =>
    rw [List.pairwise_cons, ih]
    constructor
    · rintro ⟨apart, others⟩ k
      by_cases here : key x = k
      · subst here
        rw [List.filter_cons_of_pos (by simp), List.map_cons, List.nodup_cons]
        refine ⟨?_, others (key x)⟩
        intro known
        obtain ⟨y, hy, same⟩ := List.mem_map.mp known
        obtain ⟨member, key_eq⟩ := List.mem_filter.mp hy
        have key_eq : key y = key x := by simpa using key_eq
        exact apart y member key_eq.symm same.symm
      · rw [List.filter_cons_of_neg (by simpa using here)]
        exact others k
    · intro distinct
      have others : ∀ k, ((rest.filter (key · == k)).map name).Nodup := by
        intro k
        have whole := distinct k
        rw [List.filter_cons] at whole
        split at whole
        · exact (List.nodup_cons.mp whole).2
        · exact whole
      refine ⟨?_, others⟩
      intro y hy key_eq same
      have here := distinct (key x)
      rw [List.filter_cons_of_pos (by simp), List.map_cons, List.nodup_cons] at here
      apply here.1
      exact List.mem_map.mpr ⟨y, List.mem_filter.mpr ⟨hy, by simp [key_eq]⟩, same.symm⟩

namespace Catalog

/-! Lookups in a valid catalog. -/

section

variable {c : Catalog}

theorem Valid.entityNames (valid : c.Valid) : (c.entities.map (·.name)).Nodup :=
  List.pairwise_map.mpr valid.entities

theorem Valid.associationNames (valid : c.Valid) (owner : String) :
    ((c.associationsOf owner).map (·.name)).Nodup :=
  pairwise_keyed_iff.mp valid.associations owner

theorem Valid.entity?_eq_some (valid : c.Valid) {name : String} {e : Entity} :
    c.entity? name = some e ↔ e ∈ c.entities ∧ e.name = name :=
  find?_eq_some_of_nodup valid.entityNames

theorem Valid.association?_eq_some (valid : c.Valid) {owner name : String} {a : Association} :
    c.association? owner name = some a ↔ a ∈ c.associationsOf owner ∧ a.name = name :=
  find?_eq_some_of_nodup (valid.associationNames owner)

theorem mem_associationsOf {owner : String} {a : Association} :
    a ∈ c.associationsOf owner ↔ a ∈ c.associations ∧ a.source = owner := by
  simp [associationsOf]

theorem Valid.associationsOf_eq_nil (valid : c.Valid) {owner : String}
    (unknown : c.entity? owner = none) : c.associationsOf owner = [] := by
  rw [List.eq_nil_iff_forall_not_mem]
  intro a ha
  obtain ⟨member, rfl⟩ := mem_associationsOf.mp ha
  obtain ⟨e, known, -⟩ := (valid.fits a member).source
  rw [unknown] at known
  cases known

end

/-! What some declarations say. -/

def ownedBy (owner : String) (ds : List Declaration) : List Association :=
  ds.filterMap fun
    | .entity _ => none
    | .association o a => if o = owner then some { a with source := owner } else none

def DeclaresField (ds : List Declaration) (entity field : String) : Prop :=
  ∃ e, .entity e ∈ ds ∧ e.name = entity ∧ field ∈ e.fieldNames

structure ValidDeclarations (ds : List Declaration) : Prop where
  entities : ((declaredEntities ds).map (·.name)).Nodup
  fields : ∀ e, .entity e ∈ ds → e.fieldNames.Nodup
  source : ∀ owner a, .association owner a ∈ ds → DeclaresField ds owner a.sourceKey
  target : ∀ owner a, .association owner a ∈ ds → DeclaresField ds a.target a.targetKey
  junction : ∀ owner a, .association owner a ∈ ds → a.kind = .belongsToMany → a.through ≠ none
  names : ∀ owner, ((ownedBy owner ds).map (·.name)).Nodup

/-- The catalog of some declarations, valid or not. -/
def declared (ds : List Declaration) : Catalog :=
  ⟨declaredEntities ds, declaredAssociations ds⟩

section

variable {ds : List Declaration}

theorem mem_declaredEntities {e : Entity} : e ∈ declaredEntities ds ↔ .entity e ∈ ds := by
  simp only [declaredEntities, List.mem_filterMap]
  constructor
  · rintro ⟨d, hd, kept⟩
    cases d <;> cases kept
    exact hd
  · intro member
    exact ⟨.entity e, member, rfl⟩

theorem forall_declaredAssociations {P : Association → Prop} :
    (∀ a ∈ declaredAssociations ds, P a) ↔
      ∀ owner a, .association owner a ∈ ds → P { a with source := owner } := by
  simp only [declaredAssociations, List.mem_filterMap]
  constructor
  · intro each owner a member
    exact each _ ⟨.association owner a, member, rfl⟩
  · rintro each a ⟨d, hd, kept⟩
    cases d <;> cases kept
    exact each _ _ hd

theorem associationsOf_declared (owner : String) :
    (declared ds).associationsOf owner = ownedBy owner ds := by
  simp only [associationsOf, declared, declaredAssociations, List.filter_filterMap, ownedBy]
  apply List.filterMap_congr
  intro d _
  cases d with
  | entity e => rfl
  | association o a =>
    by_cases same : o = owner
    · subst same
      simp
    · simp [same]

theorem declaresField_iff (distinct : ((declaredEntities ds).map (·.name)).Nodup)
    {entity field : String} :
    (∃ e, (declared ds).entity? entity = some e ∧ e.hasField field = true) ↔
      DeclaresField ds entity field := by
  have found (e : Entity) :
      (declared ds).entity? entity = some e ↔ e ∈ declaredEntities ds ∧ e.name = entity :=
    find?_eq_some_of_nodup distinct
  simp only [found, mem_declaredEntities, Entity.hasField_iff, DeclaresField, and_assoc]

theorem declared_valid_iff : (declared ds).Valid ↔ ValidDeclarations ds := by
  constructor
  · intro valid
    have names : ((declaredEntities ds).map (·.name)).Nodup := valid.entityNames
    have fits := forall_declaredAssociations.mp valid.fits
    constructor
    case entities => exact names
    case fields => exact fun e he => valid.fields e (mem_declaredEntities.mpr he)
    case source => exact fun owner a ha => (declaresField_iff names).mp (fits owner a ha).source
    case target => exact fun owner a ha => (declaresField_iff names).mp (fits owner a ha).target
    case junction =>
      intro owner a ha kind
      exact Option.isSome_iff_ne_none.mp ((fits owner a ha).junction kind)
    case names =>
      intro owner
      rw [← associationsOf_declared]
      exact valid.associationNames owner
  · intro valid
    constructor
    case entities =>
      have names := valid.entities
      rwa [List.Nodup, List.pairwise_map] at names
    case fields => exact fun e he => valid.fields e (mem_declaredEntities.mp he)
    case associations =>
      apply pairwise_keyed_iff.mpr
      intro owner
      have names := valid.names owner
      rwa [← associationsOf_declared] at names
    case fits =>
      refine forall_declaredAssociations.mpr ?_
      intro owner a ha
      constructor
      case source => exact (declaresField_iff valid.entities).mpr (valid.source owner a ha)
      case target => exact (declaresField_iff valid.entities).mpr (valid.target owner a ha)
      case junction =>
        intro kind
        exact Option.isSome_iff_ne_none.mpr (valid.junction owner a ha kind)

end

/-- Every question that a catalog can be asked has the answer of the declarations. -/
structure Answers (ds : List Declaration) (c : Catalog) : Prop where
  entities : c.entities = declaredEntities ds
  entity : ∀ name e, c.entity? name = some e ↔ .entity e ∈ ds ∧ e.name = name
  associations : ∀ owner, c.associationsOf owner = ownedBy owner ds
  association : ∀ owner name a,
    c.association? owner name = some a ↔ a ∈ ownedBy owner ds ∧ a.name = name
  withField : ∀ owner field a, c.associationWithField? owner field = some a ↔
    DeclaresField ds a.target field ∧ ∃ before after, ownedBy owner ds = before ++ a :: after ∧
      ∀ b ∈ before, ¬ DeclaresField ds b.target field
  unknown : ∀ name, (∀ e, .entity e ∈ ds → e.name ≠ name) → c.entity? name = none ∧
    c.associationsOf name = [] ∧ (∀ other, c.association? name other = none) ∧
      ∀ field, c.associationWithField? name field = none

section

variable {ds : List Declaration}

theorem targetHasField_declared (distinct : ((declaredEntities ds).map (·.name)).Nodup)
    {a : Association} {field : String} :
    (declared ds).targetHasField a field = true ↔ DeclaresField ds a.target field := by
  rw [← declaresField_iff distinct, targetHasField]
  cases (declared ds).entity? a.target <;> simp

theorem declared_answers (valid : (declared ds).Valid) : Answers ds (declared ds) := by
  have names : ((declaredEntities ds).map (·.name)).Nodup := valid.entityNames
  have entity (name : String) (e : Entity) :
      (declared ds).entity? name = some e ↔ .entity e ∈ ds ∧ e.name = name := by
    rw [valid.entity?_eq_some]
    exact and_congr_left' mem_declaredEntities
  constructor
  case entities => rfl
  case entity => exact entity
  case associations => exact associationsOf_declared
  case association =>
    intro owner name a
    rw [valid.association?_eq_some, associationsOf_declared]
  case withField =>
    intro owner field a
    rw [associationWithField?, associationsOf_declared, List.find?_eq_some_iff_append]
    simp only [targetHasField_declared names, Bool.not_eq_true', ← Bool.not_eq_true]
  case unknown =>
    intro name undeclared
    have absent : (declared ds).entity? name = none := by
      rw [Option.eq_none_iff_forall_ne_some]
      intro e found
      obtain ⟨member, named⟩ := (entity name e).mp found
      exact undeclared e member named
    have none := valid.associationsOf_eq_nil absent
    simp [absent, none, association?, associationWithField?]

/-- Declarations make a catalog if and only if they are valid, and the catalog answers for them. -/
theorem valid_declarations_answered (ds : List Declaration) :
    ((∃ c, build ds = .ok c) ↔ ValidDeclarations ds) ∧
      ∀ c, build ds = .ok c → Answers ds c := by
  constructor
  · rw [← declared_valid_iff]
    constructor
    · rintro ⟨c, built⟩
      obtain ⟨rfl, valid⟩ := (build_eq_ok_iff ds c).mp built
      exact valid
    · intro valid
      exact ⟨declared ds, (build_eq_ok_iff ds _).mpr ⟨rfl, valid⟩⟩
  · intro c built
    obtain ⟨rfl, valid⟩ := (build_eq_ok_iff ds c).mp built
    exact declared_answers valid

end

theorem film_declarations_answered :
    ValidDeclarations filmDeclarations ∧ build filmDeclarations = .ok filmCatalog ∧
      Answers filmDeclarations filmCatalog := by
  obtain ⟨accepted, answered⟩ := valid_declarations_answered filmDeclarations
  exact ⟨accepted.mp ⟨filmCatalog, film_build⟩, film_build, answered filmCatalog film_build⟩

end Catalog

end ReadPlan
