import ReadPlan.Binding
import ReadPlan.Proofs.JoinForest
import ReadPlan.Proofs.Outcome
import Mathlib.Data.List.Induction
import Mathlib.Data.List.Nodup

/-!
The forest of some demands is the tree of their paths. Siblings are the names that follow one path
in the demands, each at its first demand, and a join returns the fields that are named by the
demands that end at it.
-/

namespace ReadPlan

theorem addField_of_mem {fields : List String} {field : String} (h : field ∈ fields) :
    addField fields field = fields := by
  simp [addField, h]

theorem addField_of_not_mem {fields : List String} {field : String} (h : field ∉ fields) :
    addField fields field = fields ++ [field] := by
  simp [addField, h]

section

variable {α : Type} [BEq α] [LawfulBEq α]

theorem eraseDups_concat (xs : List α) (x : α) :
    (xs ++ [x]).eraseDups =
      if xs.eraseDups.contains x then xs.eraseDups else xs.eraseDups ++ [x] := by
  rw [List.eraseDups_append]
  by_cases known : x ∈ xs
  · simp [List.removeAll, known]
  · simp [List.removeAll, known, List.eraseDups_cons]

theorem eraseDups_append (xs ys : List α) :
    (xs ++ ys).eraseDups =
      ys.foldl (fun done y => if done.contains y then done else done ++ [y]) xs.eraseDups := by
  induction ys generalizing xs with
  | nil => simp
  | cons y rest ih => rw [List.append_cons, ih, eraseDups_concat, List.foldl_cons]

theorem eraseDups_nodup (xs : List α) : xs.eraseDups.Nodup := by
  induction xs using List.reverseRecOn with
  | nil => exact .nil
  | append_singleton xs x ih =>
    rw [eraseDups_concat]
    split
    · exact ih
    · rename_i fresh
      simpa using ih.concat (by simpa using fresh)

end

namespace Catalog

theorem name_of_association? {c : Catalog} {owner name : String} {a : Association}
    (h : c.association? owner name = some a) : a.name = name := by
  simpa using List.find?_some h

theorem follow_cons_eq_ok {c : Catalog} {owner name : String} {rest : List String}
    {steps : List Association} :
    c.follow owner (name :: rest) = .ok steps ↔ ∃ a more, c.association? owner name = some a ∧
      c.follow a.target rest = .ok more ∧ steps = a :: more := by
  rw [follow]
  cases c.association? owner name with
  | none => simp
  | some a => cases h : c.follow a.target rest <;> simp [h, eq_comm]

theorem names_of_follow {c : Catalog} {owner : String} {names : List String}
    {steps : List Association} (h : c.follow owner names = .ok steps) :
    steps.map (·.name) = names := by
  induction names generalizing owner steps with
  | nil =>
    cases h
    rfl
  | cons name rest ih =>
    obtain ⟨a, more, found, followed, rfl⟩ := follow_cons_eq_ok.mp h
    rw [List.map_cons, name_of_association? found, ih followed]

end Catalog

theorem Frame.steps_eq_ok {f : Frame} {segments : List String} {steps : List Association} :
    f.steps segments = .ok steps ↔
      segments ≠ [] ∧ f.catalog.follow f.root.name segments = .ok steps := by
  unfold Frame.steps
  cases segments <;> simp

theorem Frame.mem_demandPath {f : Frame} {segments fields : List String} {d : Demand} :
    d ∈ f.demandPath segments fields ↔ segments ≠ [] ∧
      f.catalog.follow f.root.name segments = .ok d.steps ∧ d.fields = fields := by
  rw [← and_assoc, ← Frame.steps_eq_ok]
  unfold Frame.demandPath
  cases h : f.steps segments with
  | error e => simp
  | ok steps =>
    cases d
    simp [eq_comm]

/-- A path from where one stands, and the fields that the join at its end returns. -/
structure Registration where
  names : List String
  fields : List String

def Demand.registration (d : Demand) : Registration :=
  ⟨d.steps.map (·.name), d.fields⟩

namespace Registration

/-- What some registrations say below the join of the given name. -/
def after (name : String) (rs : List Registration) : List Registration :=
  rs.filterMap fun r =>
    match r.names with
    | [] => none
    | first :: rest => if first = name then some ⟨rest, r.fields⟩ else none

def firstNames (rs : List Registration) : List String :=
  (rs.filterMap (·.names.head?)).eraseDups

def returned (rs : List Registration) : List String :=
  ((rs.filter (·.names.isEmpty)).flatMap (·.fields)).eraseDups

theorem after_append (name : String) (rs ss : List Registration) :
    after name (rs ++ ss) = after name rs ++ after name ss :=
  List.filterMap_append

@[simp] theorem after_ended (name : String) (fields : List String) :
    after name [⟨[], fields⟩] = [] := rfl

theorem after_concat (rs : List Registration) (name : String) (rest fields : List String) :
    after name (rs ++ [⟨name :: rest, fields⟩]) = after name rs ++ [⟨rest, fields⟩] := by
  simp [after]

theorem after_concat_other {name other : String} (apart : other ≠ name) (rs : List Registration)
    (rest fields : List String) :
    after other (rs ++ [⟨name :: rest, fields⟩]) = after other rs := by
  simp [after, Ne.symm apart]

@[simp] theorem firstNames_ended (rs : List Registration) (fields : List String) :
    firstNames (rs ++ [⟨[], fields⟩]) = firstNames rs := by
  rw [firstNames, List.filterMap_append]
  exact congrArg List.eraseDups (List.append_nil _)

theorem firstNames_concat (rs : List Registration) (name : String) (rest fields : List String) :
    firstNames (rs ++ [⟨name :: rest, fields⟩]) = addField (firstNames rs) name := by
  rw [firstNames, List.filterMap_append]
  exact eraseDups_concat _ name

theorem firstNames_nodup (rs : List Registration) : (firstNames rs).Nodup :=
  eraseDups_nodup _

theorem mem_firstNames {rs : List Registration} {name : String} :
    name ∈ firstNames rs ↔ ∃ r ∈ rs, r.names.head? = some name := by
  simp [firstNames]

theorem mem_after {rs : List Registration} {name : String} {r : Registration} :
    r ∈ after name rs ↔ ⟨name :: r.names, r.fields⟩ ∈ rs := by
  simp only [after, List.mem_filterMap]
  constructor
  · rintro ⟨⟨names, fields⟩, member, kept⟩
    cases names with
    | nil => cases kept
    | cons first rest =>
      dsimp only at kept
      split at kept
      · rename_i same
        cases kept
        exact same ▸ member
      · cases kept
  · intro member
    exact ⟨_, member, by simp⟩

theorem after_eq_nil {rs : List Registration} {name : String} (h : name ∉ firstNames rs) :
    after name rs = [] := by
  rw [List.eq_nil_iff_forall_not_mem]
  intro r member
  exact h (mem_firstNames.mpr ⟨_, mem_after.mp member, rfl⟩)

theorem returned_ended (rs : List Registration) (fields : List String) :
    returned (rs ++ [⟨[], fields⟩]) = fields.foldl addField (returned rs) := by
  have ended : ([(⟨[], fields⟩ : Registration)].filter (·.names.isEmpty)).flatMap (·.fields) =
      fields := by simp
  rw [returned, returned, List.filter_append, List.flatMap_append, ended]
  exact eraseDups_append _ fields

@[simp] theorem returned_concat (rs : List Registration) (name : String)
    (rest fields : List String) :
    returned (rs ++ [⟨name :: rest, fields⟩]) = returned rs := by
  simp [returned]

theorem returned_fieldless (rs : List Registration) (names : List String) :
    returned (rs ++ [⟨names, []⟩]) = returned rs := by
  cases names with
  | nil => exact returned_ended rs []
  | cons => simp

theorem returned_nodup (rs : List Registration) : (returned rs).Nodup :=
  eraseDups_nodup _

end Registration

open Registration

theorem JoinStrength.isRequired_iff {s : JoinStrength} : s.isRequired = true ↔ s = .inner := by
  cases s <;> simp [isRequired]

/-- Where siblings stand: under which relation, of which entity, and at the end of which names. -/
structure Level where
  parent : String
  owner : String
  trail : List String

namespace Level

def ofRoot (root : String) : Level :=
  ⟨root, root, []⟩

def below (l : Level) (j : JoinNode) : Level :=
  ⟨j.path, j.target, l.trail ++ [j.name]⟩

end Level

structure JoinNode.Spells (c : Catalog) (options : JoinOptions) (l : Level) (j : JoinNode) :
    Prop where
  path : j.path = relationAlias (l.trail ++ [j.name])
  parent : j.parent = l.parent
  association : c.association? l.owner j.name = some j.association
  target : j.target = j.association.target
  required : j.required = true ↔
    JoinStrength.lookup options (dottedPath (l.trail ++ [j.name])) j.name = .inner

mutual

/-- A join and all joins below it are what the registrations at its level make them. -/
def JoinNode.Mirrors (c : Catalog) (options : JoinOptions) (l : Level) (rs : List Registration) :
    JoinNode → Prop
  | ⟨name, path, parent, target, association, required, projected, nested⟩ =>
    JoinNode.Spells c options l
      ⟨name, path, parent, target, association, required, projected, nested⟩ ∧
    projected = returned (after name rs) ∧
    nested.map (·.name) = firstNames (after name rs) ∧
    siblingsMirror c options ⟨path, target, l.trail ++ [name]⟩ (after name rs) nested

def siblingsMirror (c : Catalog) (options : JoinOptions) (l : Level) (rs : List Registration) :
    List JoinNode → Prop
  | [] => True
  | j :: rest => j.Mirrors c options l rs ∧ siblingsMirror c options l rs rest

end

structure JoinForest.Mirrors (c : Catalog) (options : JoinOptions) (l : Level)
    (rs : List Registration) (forest : JoinForest) : Prop where
  names : forest.map (·.name) = firstNames rs
  each : ∀ j ∈ forest, j.Mirrors c options l rs

section

variable {c : Catalog} {options : JoinOptions} {l : Level} {rs : List Registration}

theorem siblingsMirror_iff {forest : JoinForest} :
    siblingsMirror c options l rs forest ↔ ∀ j ∈ forest, j.Mirrors c options l rs := by
  induction forest with
  | nil => simp [siblingsMirror]
  | cons j rest ih => rw [siblingsMirror, ih, List.forall_mem_cons]

theorem JoinNode.mirrors_iff {j : JoinNode} :
    j.Mirrors c options l rs ↔ j.Spells c options l ∧ j.projected = returned (after j.name rs) ∧
      JoinForest.Mirrors c options (l.below j) (after j.name rs) j.nested := by
  cases j
  rw [JoinNode.Mirrors, siblingsMirror_iff]
  exact ⟨fun ⟨spells, fields, names, each⟩ => ⟨spells, fields, names, each⟩,
    fun ⟨spells, fields, below⟩ => ⟨spells, fields, below.names, below.each⟩⟩

theorem JoinNode.Mirrors.congr {rs' : List Registration} {j : JoinNode}
    (h : j.Mirrors c options l rs) (same : after j.name rs' = after j.name rs) :
    j.Mirrors c options l rs' := by
  rw [JoinNode.mirrors_iff] at h ⊢
  rwa [same]

theorem JoinNode.Mirrors.alter {rs' : List Registration} {j : JoinNode} {projected : List String}
    {nested : JoinForest} (h : j.Mirrors c options l rs)
    (fields : projected = returned (after j.name rs'))
    (below : JoinForest.Mirrors c options (l.below j) (after j.name rs') nested) :
    JoinNode.Mirrors c options l rs' { j with projected, nested } := by
  have spells := (JoinNode.mirrors_iff.mp h).1
  exact JoinNode.mirrors_iff.mpr
    ⟨⟨spells.path, spells.parent, spells.association, spells.target, spells.required⟩, fields,
      below⟩

namespace JoinForest

theorem mirrors_nil : Mirrors c options l [] [] :=
  ⟨rfl, by simp⟩

theorem Mirrors.nodup {forest : JoinForest} (h : Mirrors c options l rs forest) :
    (forest.map (·.name)).Nodup :=
  h.names ▸ firstNames_nodup rs

theorem mirrors_ended {forest : JoinForest} (fields : List String) :
    Mirrors c options l (rs ++ [⟨[], fields⟩]) forest ↔ Mirrors c options l rs forest := by
  have same (name : String) : after name (rs ++ [⟨[], fields⟩]) = after name rs := by
    simp [after_append]
  constructor
  · intro h
    exact ⟨by simpa using h.names, fun j hj => (h.each j hj).congr (same _).symm⟩
  · intro h
    exact ⟨by simpa using h.names, fun j hj => (h.each j hj).congr (same _)⟩

theorem updateSibling_eq_map (name : String) (f : JoinNode → JoinNode) {forest : JoinForest}
    (distinct : (forest.map (·.name)).Nodup) :
    updateSibling name f forest = forest.map fun j => if j.name = name then f j else j := by
  induction forest with
  | nil => rfl
  | cons j rest ih =>
    obtain ⟨fresh, others⟩ := List.nodup_cons.mp distinct
    rw [updateSibling, List.map_cons]
    by_cases here : j.name = name
    · have rest_same : rest.map (fun k => if k.name = name then f k else k) = rest := by
        rw [List.map_congr_left (g := id), List.map_id]
        intro k hk
        have apart : k.name ≠ name := by
          intro same
          exact fresh (List.mem_map.mpr ⟨k, hk, same.trans here.symm⟩)
        simp [apart]
      simp [here, rest_same]
    · simp [here, ih others]

theorem Mirrors.updateSibling {forest : JoinForest} {rs' : List Registration} {name : String}
    {f : JoinNode → JoinNode} (h : Mirrors c options l rs forest)
    (names : firstNames rs' = firstNames rs) (keeps : ∀ j, (f j).name = j.name)
    (here : ∀ j ∈ forest, j.name = name → (f j).Mirrors c options l rs')
    (others : ∀ other, other ≠ name → after other rs' = after other rs) :
    Mirrors c options l rs' (JoinForest.updateSibling name f forest) := by
  rw [updateSibling_eq_map name f h.nodup]
  constructor
  · rw [List.map_map, names, ← h.names]
    refine List.map_congr_left fun j _ => ?_
    dsimp only [Function.comp_apply]
    split
    · exact keeps j
    · rfl
  · intro k hk
    obtain ⟨j, hj, rfl⟩ := List.mem_map.mp hk
    split
    · rename_i same
      exact here j hj same
    · rename_i apart
      exact (h.each j hj).congr (others _ apart)

theorem Mirrors.concat {forest : JoinForest} {j : JoinNode} {name : String}
    {rest fields : List String} (h : Mirrors c options l rs forest) (absent : name ∉ firstNames rs)
    (made : j.Mirrors c options l [⟨name :: rest, fields⟩]) (named : j.name = name) :
    Mirrors c options l (rs ++ [⟨name :: rest, fields⟩]) (forest ++ [j]) := by
  subst named
  constructor
  · rw [List.map_append, h.names, firstNames_concat, addField_of_not_mem absent]
    rfl
  · intro k hk
    rcases List.mem_append.mp hk with hk | hk
    · have apart : k.name ≠ j.name := by
        intro same
        exact absent (same ▸ h.names ▸ List.mem_map_of_mem hk)
      exact (h.each k hk).congr (after_concat_other apart rs rest fields)
    · cases List.mem_singleton.mp hk
      refine made.congr ?_
      rw [after_append, after_eq_nil absent, List.nil_append]

theorem graft_mirrors {steps : List Association} {forest : JoinForest}
    (followed : c.follow l.owner (steps.map (·.name)) = .ok steps)
    (h : Mirrors c options l rs forest) :
    Mirrors c options l (rs ++ [⟨steps.map (·.name), []⟩])
      (graft options l.parent l.trail steps forest) := by
  induction steps generalizing l rs forest with
  | nil => exact (mirrors_ended []).mpr h
  | cons a rest ih =>
    obtain ⟨_, _, found, further, same⟩ := Catalog.follow_cons_eq_ok.mp followed
    cases same
    simp only [graft, List.map_cons]
    -- either the path goes on below a join that is there, or a join is made for its first name
    split
    case isTrue known =>
      have present : a.name ∈ firstNames rs := by
        rw [← h.names]
        simpa using known
      refine h.updateSibling ?_ (fun _ => rfl) ?_ fun other apart =>
        after_concat_other apart rs _ []
      · rw [firstNames_concat, addField_of_mem present]
      · intro j hj same
        obtain ⟨spells, fields, below⟩ := JoinNode.mirrors_iff.mp (h.each j hj)
        have target : j.target = a.target := by
          have found' := spells.association
          rw [same, found] at found'
          rw [spells.target, ← Option.some.inj found']
        have further' : c.follow (l.below j).owner (rest.map (·.name)) = .ok rest := by
          rw [Level.below, target]
          exact further
        have grown := ih further' below
        refine (h.each j hj).alter ?_ ?_
        · rw [same, after_concat, returned_fieldless, ← same]
          exact fields
        · rw [Level.below, same] at grown ⊢
          rwa [after_concat]
    case isFalse unknown =>
      have absent : a.name ∉ firstNames rs := by
        rw [← h.names]
        simpa using unknown
      have alone : after a.name [⟨a.name :: rest.map (·.name), []⟩] =
          [⟨rest.map (·.name), []⟩] := by
        simp [after]
      refine h.concat absent (JoinNode.mirrors_iff.mpr ⟨?_, ?_, ?_⟩) rfl
      · exact ⟨rfl, rfl, found, rfl, JoinStrength.isRequired_iff⟩
      · dsimp only [sprout]
        rw [alone]
        exact (returned_fieldless [] (rest.map (·.name))).symm
      · dsimp only [sprout]
        rw [alone]
        exact ih (l := ⟨_, a.target, _⟩) further mirrors_nil

theorem project_mirrors {names : List String} (fields : List String) {forest : JoinForest}
    (h : Mirrors c options l (rs ++ [⟨names, []⟩]) forest) :
    Mirrors c options l (rs ++ [⟨names, fields⟩])
      (update (JoinNode.project fields) names forest) := by
  induction names generalizing l rs forest with
  | nil => exact (mirrors_ended fields).mpr ((mirrors_ended []).mp h)
  | cons name rest ih =>
    have names : firstNames (rs ++ [⟨name :: rest, fields⟩]) =
        firstNames (rs ++ [⟨name :: rest, []⟩]) := by
      rw [firstNames_concat, firstNames_concat]
    have others (other : String) (apart : other ≠ name) :
        after other (rs ++ [⟨name :: rest, fields⟩]) =
          after other (rs ++ [⟨name :: rest, []⟩]) := by
      rw [after_concat_other apart, after_concat_other apart]
    cases rest with
    | nil =>
      refine h.updateSibling names (fun _ => rfl) (fun j hj same => ?_) others
      obtain ⟨-, here, below⟩ := JoinNode.mirrors_iff.mp (h.each j hj)
      rw [same, after_concat] at here below
      refine (h.each j hj).alter ?_ ?_
      · rw [same, after_concat, returned_ended, here, returned_ended]
        rfl
      · rw [same, after_concat]
        exact (mirrors_ended fields).mpr ((mirrors_ended []).mp below)
    | cons next rest =>
      refine h.updateSibling names (fun _ => rfl) (fun j hj same => ?_) others
      obtain ⟨-, here, below⟩ := JoinNode.mirrors_iff.mp (h.each j hj)
      rw [same, after_concat] at here below
      refine (h.each j hj).alter ?_ ?_
      · rw [same, after_concat, returned_concat, here, returned_concat]
      · rw [same, after_concat]
        exact ih below

theorem meet_mirrors {root : String} {d : Demand} {forest : JoinForest}
    (followed : c.follow root (d.steps.map (·.name)) = .ok d.steps)
    (h : Mirrors c options (.ofRoot root) rs forest) :
    Mirrors c options (.ofRoot root) (rs ++ [d.registration]) (meet options root forest d) :=
  project_mirrors d.fields (graft_mirrors followed h)

theorem ofDemands_mirrors {root : String} {demands : List Demand}
    (followed : ∀ d ∈ demands, c.follow root (d.steps.map (·.name)) = .ok d.steps) :
    Mirrors c options (.ofRoot root) (demands.map Demand.registration)
      (ofDemands options root demands) := by
  induction demands using List.reverseRecOn with
  | nil => exact mirrors_nil
  | append_singleton demands d ih =>
    obtain ⟨before, here⟩ := List.forall_mem_append.mp followed
    rw [ofDemands, List.foldl_append, List.map_append]
    exact meet_mirrors (here d (List.mem_singleton.mpr rfl)) (ih before)

end JoinForest

end

end ReadPlan
