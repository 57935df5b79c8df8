import ReadPlan.Proofs.CatalogAnswers
import ReadPlan.Proofs.DottedNames
import ReadPlan.Proofs.PlanJoins
import ReadPlan.Schema.FieldPaths

namespace ReadPlan

namespace Catalog

def fieldsOf (c : Catalog) (entity : String) : List String :=
  match c.entity? entity with
  | none => []
  | some e => e.fieldNames

/-- The listed fields as lists of names: those of the associations on the way, then the field. -/
def fieldChains (c : Catalog) (trail : List String) (entity : String) :
    (hops : Nat) → List (List String)
  | 0 => (c.fieldsOf entity).map ([·])
  | hops + 1 =>
    (c.fieldsOf entity).map ([·]) ++ (c.associationsOf entity).flatMap fun a =>
      if (trail ++ [entity]).contains a.target then []
      else (fieldChains c (trail ++ [entity]) a.target hops).map (a.name :: ·)

/-- The associations lead on from an entity, in `hops` steps at most, to one that has the field, and
they meet no entity twice, nor one of the trail. -/
structure Leads (c : Catalog) (trail : List String) (entity : String) (hops : Nat)
    (names : List String) (field : String) (steps : List Association) : Prop where
  followed : c.follow entity names = .ok steps
  short : names.length ≤ hops
  declared : field ∈ c.fieldsOf (endOf entity steps)
  apart : (trail ++ entity :: steps.map (·.target)).Nodup

structure Undotted (c : Catalog) : Prop where
  fields : ∀ e ∈ c.entities, ∀ field ∈ e.fieldNames, isDotted field = false
  associations : ∀ a ∈ c.associations, isDotted a.name = false

section

variable {c : Catalog} {trail : List String} {entity : String} {hops : Nat}

theorem mem_fieldsOf {field : String} :
    field ∈ c.fieldsOf entity ↔ ∃ e, c.entity? entity = some e ∧ field ∈ e.fieldNames := by
  unfold fieldsOf
  cases c.entity? entity <;> simp

theorem Valid.fieldsOf_nodup (valid : c.Valid) (entity : String) : (c.fieldsOf entity).Nodup := by
  unfold fieldsOf
  cases known : c.entity? entity with
  | none => exact List.nodup_nil
  | some e => exact valid.fields e (valid.entity?_eq_some.mp known).1

theorem mem_onward {met : List String} {a : Association} {chains : List (List String)}
    {chain : List String} :
    chain ∈ (if met.contains a.target then [] else chains.map (a.name :: ·)) ↔
      a.target ∉ met ∧ ∃ more ∈ chains, chain = a.name :: more := by
  by_cases known : a.target ∈ met <;> simp [known, eq_comm]

theorem fieldChains_ne_nil {chain : List String} (h : chain ∈ c.fieldChains trail entity hops) :
    chain ≠ [] := by
  rintro rfl
  cases hops with
  | zero => simp [fieldChains] at h
  | succ hops => simp [fieldChains] at h

theorem dottedPath_cons (before name : String) {chain : List String} (more : chain ≠ []) :
    before ++ dottedPath (name :: chain) = before ++ name ++ "." ++ dottedPath chain := by
  rw [dottedPath, chain_cons more]
  simp only [dottedPath, String.append_assoc]

theorem Valid.fieldsFrom_eq (valid : c.Valid) (before : String) :
    c.fieldsFrom trail entity before hops =
      (c.fieldChains trail entity hops).map (before ++ dottedPath ·) := by
  induction hops generalizing trail entity before with
  | zero =>
    rw [fieldsFrom, fieldChains, List.map_map, fieldsOf]
    cases c.entity? entity <;> rfl
  | succ hops ih =>
    rw [fieldsFrom, fieldChains, List.map_append, List.map_map, List.map_flatMap, fieldsOf]
    cases known : c.entity? entity with
    | none =>
      rw [valid.associationsOf_eq_nil known]
      rfl
    | some e =>
      have further (a : Association) :
          (if (trail ++ [entity]).contains a.target then []
            else c.fieldsFrom (trail ++ [entity]) a.target (before ++ a.name ++ ".") hops) =
          List.map (before ++ dottedPath ·)
            (if (trail ++ [entity]).contains a.target then []
              else (c.fieldChains (trail ++ [entity]) a.target hops).map (a.name :: ·)) := by
        split
        · rfl
        · rw [ih, List.map_map]
          apply List.map_congr_left
          intro chain hc
          exact (dottedPath_cons before a.name (fieldChains_ne_nil hc)).symm
      simp only [further]
      rfl

theorem leads_nil {field : String} {steps : List Association} :
    c.Leads trail entity hops [] field steps ↔
      steps = [] ∧ (trail ++ [entity]).Nodup ∧ field ∈ c.fieldsOf entity := by
  constructor
  · rintro ⟨followed, -, declared, apart⟩
    cases followed
    exact ⟨rfl, apart, declared⟩
  · rintro ⟨rfl, apart, declared⟩
    exact ⟨rfl, Nat.zero_le hops, declared, apart⟩

theorem leads_cons {name field : String} {rest : List String} {steps : List Association} :
    c.Leads trail entity (hops + 1) (name :: rest) field steps ↔ ∃ a more, steps = a :: more ∧
      c.association? entity name = some a ∧
        c.Leads (trail ++ [entity]) a.target hops rest field more := by
  constructor
  · rintro ⟨followed, short, declared, apart⟩
    obtain ⟨a, more, found, further, rfl⟩ := follow_cons_eq_ok.mp followed
    rw [endOf_cons] at declared
    rw [List.map_cons, List.append_cons] at apart
    exact ⟨a, more, rfl, found, further, Nat.le_of_succ_le_succ short, declared, apart⟩
  · rintro ⟨a, more, rfl, found, leads⟩
    constructor
    case followed => exact follow_cons_eq_ok.mpr ⟨a, more, found, leads.followed, rfl⟩
    case short => exact Nat.succ_le_succ leads.short
    case declared => exact endOf_cons entity a more ▸ leads.declared
    case apart =>
      rw [List.map_cons, List.append_cons]
      exact leads.apart

theorem mem_ownChains (fresh : (trail ++ [entity]).Nodup) (hops : Nat) {chain : List String} :
    chain ∈ (c.fieldsOf entity).map ([·]) ↔
      ∃ field steps, chain = [field] ∧ c.Leads trail entity hops [] field steps := by
  simp [leads_nil, fresh, eq_comm, and_comm]

/-- The listing makes every walk over fresh entities, and no other one. -/
theorem Valid.mem_fieldChains (valid : c.Valid) (fresh : (trail ++ [entity]).Nodup)
    {chain : List String} :
    chain ∈ c.fieldChains trail entity hops ↔ ∃ names field steps,
      chain = names ++ [field] ∧ c.Leads trail entity hops names field steps := by
  induction hops generalizing trail entity chain with
  | zero =>
    rw [fieldChains, mem_ownChains fresh 0]
    constructor
    · rintro ⟨field, steps, rfl, leads⟩
      exact ⟨[], field, steps, rfl, leads⟩
    · rintro ⟨names, field, steps, rfl, leads⟩
      cases List.length_eq_zero_iff.mp (Nat.le_zero.mp leads.short)
      exact ⟨field, steps, rfl, leads⟩
  | succ hops ih =>
    have longer {target : String} (unmet : target ∉ trail ++ [entity]) :
        (trail ++ [entity] ++ [target]).Nodup := by
      rw [List.nodup_append_comm, List.singleton_append, List.nodup_cons]
      exact ⟨unmet, fresh⟩
    rw [fieldChains, List.mem_append, mem_ownChains fresh (hops + 1), List.mem_flatMap]
    simp only [mem_onward]
    constructor
    · rintro (⟨field, steps, rfl, leads⟩ | ⟨a, member, unmet, more, further, rfl⟩)
      · exact ⟨[], field, steps, rfl, leads⟩
      · obtain ⟨names, field, steps, rfl, leads⟩ := (ih (longer unmet)).mp further
        have found := valid.association?_eq_some.mpr ⟨member, rfl⟩
        have onward := leads_cons.mpr ⟨a, steps, rfl, found, leads⟩
        exact ⟨a.name :: names, field, a :: steps, rfl, onward⟩
    · rintro ⟨names, field, steps, rfl, leads⟩
      cases names with
      | nil => exact .inl ⟨field, steps, rfl, leads⟩
      | cons name names =>
        obtain ⟨a, more, rfl, found, onward⟩ := leads_cons.mp leads
        obtain ⟨member, rfl⟩ := valid.association?_eq_some.mp found
        have unmet : a.target ∉ trail ++ [entity] := by
          intro met
          exact List.disjoint_of_nodup_append onward.apart met List.mem_cons_self
        have further := (ih (longer unmet)).mpr ⟨names, field, more, rfl, onward⟩
        exact .inr ⟨a, member, unmet, names ++ [field], further, rfl⟩

/-- Different associations of an entity differ in name, and their chains by what they begin with. -/
theorem Valid.fieldChains_nodup (valid : c.Valid) : (c.fieldChains trail entity hops).Nodup := by
  have own (entity : String) : ((c.fieldsOf entity).map ([·])).Nodup :=
    (valid.fieldsOf_nodup entity).map List.singleton_injective
  induction hops generalizing trail entity with
  | zero => exact own entity
  | succ hops ih =>
    rw [fieldChains, List.nodup_append', List.nodup_flatMap]
    have apart := List.pairwise_map.mp (valid.associationNames entity)
    refine ⟨own entity, ⟨?_, apart.imp ?_⟩, ?_⟩
    · intro a _
      split
      · exact List.nodup_nil
      · exact ih.map List.cons_injective
    · intro a b differ chain ha hb
      obtain ⟨-, _, -, rfl⟩ := mem_onward.mp ha
      obtain ⟨-, _, -, same⟩ := mem_onward.mp hb
      exact differ (List.cons.inj same).1
    · intro chain here onward
      obtain ⟨a, -, onward⟩ := List.mem_flatMap.mp onward
      obtain ⟨-, more, further, rfl⟩ := mem_onward.mp onward
      obtain ⟨field, -, single⟩ := List.mem_map.mp here
      exact fieldChains_ne_nil further (List.cons.inj single).2.symm

theorem Undotted.of_leads (undotted : c.Undotted) {names : List String} {field : String}
    {steps : List Association} (leads : c.Leads trail entity hops names field steps) :
    ∀ name ∈ names ++ [field], isDotted name = false := by
  rw [List.forall_mem_append]
  constructor
  · rw [← names_of_follow leads.followed, List.forall_mem_map]
    intro a ha
    exact undotted.associations a (mem_of_follow leads.followed a ha)
  · obtain ⟨e, known, declared⟩ := mem_fieldsOf.mp leads.declared
    rw [List.forall_mem_singleton]
    exact undotted.fields e (List.mem_of_find?_eq_some known) field declared

end

end Catalog

theorem Frame.Rooted.bind_iff {f : Frame} (rooted : f.Rooted) (reference : String) :
    (∃ bound, f.bind reference = .ok bound) ↔ ∃ steps,
      f.catalog.follow f.root.name (Reference.ofString reference).path = .ok steps ∧
        (Reference.ofString reference).field ∈
          f.catalog.fieldsOf (Catalog.endOf f.root.name steps) := by
  simp only [Frame.bind, bindField_eq_ok, rooted.reach_eq_ok, Catalog.mem_fieldsOf,
    ← Entity.hasField_iff, Entity.hasField, Option.isSome_iff_exists]
  constructor
  · rintro ⟨_, e, x, ⟨steps, followed, known⟩, declared, rfl⟩
    exact ⟨steps, followed, e, known, x, declared⟩
  · rintro ⟨steps, followed, e, known, x, declared⟩
    exact ⟨_, e, x, ⟨steps, followed, known⟩, declared, rfl⟩

namespace Catalog

variable {c : Catalog}

/-- Without dots in names, the listed references are those that are bound to a column at the end of
a walk that meets no entity twice. -/
theorem fieldPaths_are_usable {declarations : List Declaration}
    (built : build declarations = .ok c) (undotted : c.Undotted) {entity : String} {root : Entity}
    (known : c.entity? entity = some root) (policy : FragmentPolicy) (depth : Nat) :
    ∃ paths, c.fieldPaths entity depth = .ok paths ∧ paths.Nodup ∧ ∀ reference,
      reference ∈ paths ↔ ∃ names field steps, reference = dottedPath (names ++ [field]) ∧
        Reference.ofString reference = ⟨names, field⟩ ∧ names.length ≤ depth ∧
          (∃ bound, Frame.bind ⟨c, root, policy⟩ reference = .ok bound) ∧
            c.follow entity names = .ok steps ∧ (entity :: steps.map (·.target)).Nodup := by
  have valid := valid_of_build built
  have rooted := rooted_of_entity? known policy
  have single : ([] ++ [entity]).Nodup := List.nodup_singleton entity
  refine ⟨(c.fieldChains [] entity depth).map dottedPath, ?_, ?_, ?_⟩
  · rw [fieldPaths, contains, known, valid.fieldsFrom_eq]
    simp
  · refine valid.fieldChains_nodup.map_on ?_
    intro xs hx ys hy same
    obtain ⟨names, field, _, rfl, leads⟩ := (valid.mem_fieldChains single).mp hx
    obtain ⟨others, last, _, rfl, also⟩ := (valid.mem_fieldChains single).mp hy
    exact dottedPath_inj (undotted.of_leads leads) (undotted.of_leads also) (by simp) (by simp) same
  · intro reference
    simp only [List.mem_map, valid.mem_fieldChains single, rooted.bind_iff]
    constructor
    · rintro ⟨_, ⟨names, field, steps, rfl, leads⟩, rfl⟩
      have read := Reference.ofString_dottedPath (undotted.of_leads leads)
      rw [read, name_of_entity? known]
      exact ⟨names, field, steps, rfl, rfl, leads.short,
        ⟨steps, leads.followed, leads.declared⟩, leads.followed, leads.apart⟩
    · rintro ⟨names, field, steps, rfl, read, short, ⟨_, followed, declared⟩, again, apart⟩
      rw [read, name_of_entity? known] at followed declared
      cases again.symm.trans followed
      exact ⟨_, ⟨names, field, steps, rfl, followed, short, declared, apart⟩, rfl⟩

def languageFilms : Association :=
  ⟨"films", "language", "film", .hasMany, "language_id", "language_id", none⟩

def circularDeclarations : List Declaration :=
  filmDeclarations ++ [.association "language" languageFilms]

/-- The film that is met again has a title, but its reference is not listed. -/
theorem circular_film_paths : ∃ c paths, build circularDeclarations = .ok c ∧
    c.fieldPaths "film" 3 = .ok paths ∧ paths.Nodup ∧ "language.name" ∈ paths ∧
      (∃ bound, Frame.bind ⟨c, filmEntity, .reject⟩ "language.films.title" = .ok bound) ∧
        "language.films.title" ∉ paths := by
  have built : build circularDeclarations = .ok (declared circularDeclarations) := rfl
  have undotted : (declared circularDeclarations).Undotted := ⟨by decide, by decide⟩
  have known : (declared circularDeclarations).entity? "film" = some filmEntity := rfl
  obtain ⟨paths, listed, distinct, usable⟩ := fieldPaths_are_usable built undotted known .reject 3
  refine ⟨_, paths, rfl, listed, distinct, (usable _).mpr ?_, ⟨_, rfl⟩, ?_⟩
  · exact ⟨["language"], "name", [filmLanguage], rfl, by decide, by decide, ⟨_, rfl⟩, rfl,
      by decide⟩
  · intro member
    obtain ⟨names, field, steps, -, read, -, -, followed, apart⟩ := (usable _).mp member
    have split : Reference.ofString "language.films.title" = ⟨["language", "films"], "title"⟩ := by
      decide
    cases split.symm.trans read
    cases followed
    exact absurd apart (by decide)

end Catalog

end ReadPlan
