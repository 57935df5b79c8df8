import ReadPlan.Proofs.UsableFields
import ReadPlan.Schema.Tree
import Mathlib.Data.List.Perm.Subperm

/-!
Schema trees. Read in pre-order, a tree names the fields that are listed as paths with one step
less. Its markers stand exactly where an entity is met again and where the depth ends, and a depth
of as many steps as there are entities shows everything there is to show.
-/

namespace ReadPlan

namespace SchemaTree

def name : SchemaTree → String
  | .marker name _ => name
  | .node name _ _ => name

def fields : SchemaTree → List String
  | .marker .. => []
  | .node _ fields _ => fields

mutual

/-- The parts of a tree, each before those below it, with the names of the associations that lead
to it. -/
def preorder : SchemaTree → List (List String × SchemaTree)
  | .marker name m => [([], .marker name m)]
  | .node name fields branches => ([], .node name fields branches) :: branchesPreorder branches

def branchesPreorder : List (Association × SchemaTree) → List (List String × SchemaTree)
  | [] => []
  | (a, t) :: rest => t.preorder.map (fun p => (a.name :: p.1, p.2)) ++ branchesPreorder rest

end

def fieldPaths (t : SchemaTree) : List String :=
  t.preorder.flatMap fun p => p.2.fields.map fun field => dottedPath (p.1 ++ [field])

/-- The part of a tree that some associations lead to. -/
inductive At : SchemaTree → List Association → SchemaTree → Prop
  | root (t : SchemaTree) : At t [] t
  | branch {name : String} {fields : List String} {branches : List (Association × SchemaTree)}
    {a : Association} {t u : SchemaTree} {steps : List Association} :
    (a, t) ∈ branches → At t steps u → At (.node name fields branches) (a :: steps) u

end SchemaTree

/-- The entities from a root to the parent of what some associations lead to. -/
def Catalog.passed (root : String) (steps : List Association) : List String :=
  (root :: steps.map (·.target)).dropLast

/-- What a part of a tree says: a cycle where its entity was passed before, a limit `depth` steps
below the root, and else its entity with every association. Above the root lies the `trail`. -/
structure SchemaTree.Shows (c : Catalog) (trail : List String) (root : String) (depth : Nat)
    (steps : List Association) (t : SchemaTree) : Prop where
  name : t.name = Catalog.endOf root steps
  cycle : t.marker? = some .cycle ↔ t.name ∈ trail ++ Catalog.passed root steps
  limit : t.marker? = some .depthLimit ↔
    t.name ∉ trail ++ Catalog.passed root steps ∧ steps.length = depth
  expanded : t.marker? = none → ∃ e, c.entity? t.name = some e ∧ t.fields = e.fieldNames ∧
    t.branches.map (·.1) = c.associationsOf t.name

/-! Reading a tree. -/

namespace SchemaTree

theorem branchesPreorder_eq (branches : List (Association × SchemaTree)) :
    branchesPreorder branches = branches.flatMap fun b =>
      b.2.preorder.map fun p => (b.1.name :: p.1, p.2) := by
  induction branches with
  | nil => rfl
  | cons b rest ih => rw [branchesPreorder, ih, List.flatMap_cons]

def fieldChains (t : SchemaTree) : List (List String) :=
  t.preorder.flatMap fun p => p.2.fields.map fun field => p.1 ++ [field]

theorem fieldPaths_eq (t : SchemaTree) : t.fieldPaths = t.fieldChains.map dottedPath := by
  simp only [fieldPaths, fieldChains, List.map_flatMap, List.map_map]
  rfl

theorem fieldChains_node (name : String) (fields : List String)
    (branches : List (Association × SchemaTree)) :
    fieldChains (.node name fields branches) =
      fields.map ([·]) ++ branches.flatMap fun b => b.2.fieldChains.map (b.1.name :: ·) := by
  simp only [fieldChains, preorder, branchesPreorder_eq, List.flatMap_cons, List.flatMap_assoc,
    List.flatMap_map, List.map_flatMap, List.map_map]
  rfl

end SchemaTree

namespace Catalog

section

variable {c : Catalog} {trail : List String} {entity : String} {depth : Nat}

/-- A tree shows the fields of the entities that it expands, down to the limit that is one step
further below. -/
theorem Valid.fieldChains_grow (valid : c.Valid) :
    (SchemaTree.grow c trail entity (depth + 1)).fieldChains =
      c.fieldChains trail entity depth := by
  induction depth generalizing trail entity with
  | zero =>
    rw [SchemaTree.grow, fieldChains, fieldsOf]
    cases c.entity? entity with
    | none => rfl
    | some e =>
      have cut (a : Association) : SchemaTree.fieldChains
          (if (trail ++ [entity]).contains a.target then .marker a.target .cycle
            else .grow c (trail ++ [entity]) a.target 0) = [] := by
        split <;> rfl
      rw [SchemaTree.fieldChains_node, List.flatMap_map]
      simp only [cut, List.map_nil]
      simp
  | succ depth ih =>
    rw [SchemaTree.grow, fieldChains, fieldsOf]
    cases known : c.entity? entity with
    | none =>
      rw [valid.associationsOf_eq_nil known]
      rfl
    | some e =>
      rw [SchemaTree.fieldChains_node, List.flatMap_map]
      congr 2
      funext a
      dsimp only
      split
      · rfl
      · rw [ih]

end

/-- The tree of an entity, read in pre-order, is the list of its field paths with one step less. -/
theorem fieldPaths_eq_tree {declarations : List Declaration} {c : Catalog}
    (built : build declarations = .ok c) (entity : String) (depth : Nat) :
    c.fieldPaths entity depth = (c.tree entity (depth + 1)).map SchemaTree.fieldPaths := by
  have valid := valid_of_build built
  unfold fieldPaths tree
  split
  · have listed : c.fieldsFrom [] entity "" depth =
        (c.fieldChains [] entity depth).map ("" ++ dottedPath ·) := valid.fieldsFrom_eq ""
    rw [Except.map, SchemaTree.fieldPaths_eq, valid.fieldChains_grow, listed]
    simp
  · rfl

theorem circular_film_fieldPaths : ∃ c, build circularDeclarations = .ok c ∧
    c.fieldPaths "film" 1 = (c.tree "film" 2).map SchemaTree.fieldPaths ∧
      "language.name" ∈ ((c.tree "film" 2).map SchemaTree.fieldPaths).toOption.getD [] := by
  have built : build circularDeclarations = .ok (declared circularDeclarations) := rfl
  have same := fieldPaths_eq_tree built "film" 1
  refine ⟨_, built, same, ?_⟩
  rw [← same]
  decide

/-! Markers. -/

section

variable {c : Catalog} {trail : List String} {entity : String} {depth : Nat}

/-- The entities on the way to an entity are declared and distinct, and so is the entity itself. -/
structure Fresh (c : Catalog) (trail : List String) (entity : String) : Prop where
  distinct : (trail ++ [entity]).Nodup
  declared : ∀ name ∈ trail ++ [entity], name ∈ c.entities.map (·.name)

theorem mem_entityNames_iff {name : String} :
    name ∈ c.entities.map (·.name) ↔ ∃ e, c.entity? name = some e := by
  rw [entity?, ← Option.isSome_iff_exists, List.find?_isSome]
  simp

theorem Fresh.known (fresh : c.Fresh trail entity) : ∃ e, c.entity? entity = some e :=
  mem_entityNames_iff.mp (fresh.declared entity (by simp))

theorem Fresh.unmet (fresh : c.Fresh trail entity) : entity ∉ trail := by
  intro met
  exact List.disjoint_of_nodup_append fresh.distinct met (List.mem_singleton_self entity)

theorem Fresh.next (fresh : c.Fresh trail entity) (valid : c.Valid) {a : Association}
    (owned : a ∈ c.associationsOf entity) (unmet : a.target ∉ trail ++ [entity]) :
    c.Fresh (trail ++ [entity]) a.target := by
  obtain ⟨target, known, -⟩ := (valid.fits a (mem_associationsOf.mp owned).1).target
  constructor
  · rw [List.nodup_append_comm, List.singleton_append, List.nodup_cons]
    exact ⟨unmet, fresh.distinct⟩
  · rw [List.forall_mem_append, List.forall_mem_singleton]
    exact ⟨fresh.declared, mem_entityNames_iff.mpr ⟨target, known⟩⟩

theorem Fresh.room (fresh : c.Fresh trail entity) : trail.length < c.entities.length := by
  have fits := (List.subperm_of_subset fresh.distinct fresh.declared).length_le
  rw [List.length_append, List.length_singleton, List.length_map] at fits
  omega

theorem passed_cons (root : String) (a : Association) (steps : List Association) :
    passed root (a :: steps) = root :: passed a.target steps := rfl

theorem shows_cons {a : Association} {steps : List Association} {t : SchemaTree}
    (h : t.Shows c (trail ++ [entity]) a.target depth steps) :
    t.Shows c trail entity (depth + 1) (a :: steps) := by
  have way : trail ++ passed entity (a :: steps) = trail ++ [entity] ++ passed a.target steps := by
    rw [passed_cons, List.append_cons]
  constructor
  case name => rw [h.name, endOf_cons]
  case cycle => rw [h.cycle, way]
  case limit => rw [h.limit, way, List.length_cons, Nat.add_right_cancel_iff]
  case expanded => exact h.expanded

theorem marker_at {name : String} {m : TreeMarker} {steps : List Association} {t : SchemaTree}
    (h : (SchemaTree.marker name m).At steps t) : steps = [] ∧ t = .marker name m := by
  cases h
  exact ⟨rfl, rfl⟩

/-- The steps of a walk lead down by one level each, and every branch sees the entities from the
root to its own parent. -/
theorem Valid.grow_shows (valid : c.Valid) (fresh : c.Fresh trail entity)
    {steps : List Association} {t : SchemaTree}
    (there : (SchemaTree.grow c trail entity depth).At steps t) :
    t.Shows c trail entity depth steps := by
  induction depth generalizing trail entity steps with
  | zero =>
    rw [SchemaTree.grow] at there
    obtain ⟨rfl, rfl⟩ := marker_at there
    constructor <;> simp [SchemaTree.name, SchemaTree.marker?, endOf, passed, fresh.unmet]
  | succ depth ih =>
    obtain ⟨e, known⟩ := fresh.known
    rw [SchemaTree.grow, known] at there
    cases there with
    | root =>
      have same : e.name = entity := name_of_entity? known
      constructor <;>
        simp [SchemaTree.name, SchemaTree.marker?, SchemaTree.fields, SchemaTree.branches, endOf,
          passed, fresh.unmet, same, known, Function.comp_def]
    | branch member below =>
      obtain ⟨a, owned, made⟩ := List.mem_map.mp member
      obtain ⟨rfl, rfl⟩ := Prod.mk.inj made
      apply shows_cons
      split at below
      · rename_i met
        obtain ⟨rfl, rfl⟩ := marker_at below
        have met : a.target ∈ trail ++ [entity] := by simpa using met
        constructor <;> simp [SchemaTree.name, SchemaTree.marker?, endOf, passed, met]
      · rename_i unmet
        have unmet : a.target ∉ trail ++ [entity] := by simpa using unmet
        exact ih (fresh.next valid owned unmet) below

theorem Valid.grow_saturates (valid : c.Valid) (fresh : c.Fresh trail entity)
    (deep : c.entities.length ≤ trail.length + depth) :
    SchemaTree.grow c trail entity (depth + 1) = SchemaTree.grow c trail entity depth := by
  induction depth generalizing trail entity with
  | zero =>
    have room := fresh.room
    omega
  | succ depth ih =>
    obtain ⟨e, known⟩ := fresh.known
    rw [SchemaTree.grow, SchemaTree.grow, known]
    apply congrArg (SchemaTree.node e.name e.fieldNames)
    apply List.map_congr_left
    intro a owned
    apply congrArg (Prod.mk a)
    split
    · rfl
    · rename_i unmet
      apply ih (fresh.next valid owned (by simpa using unmet))
      rw [List.length_append, List.length_singleton]
      omega

end

/-- Every part of a tree is marked, or shows its entity, by what lies between it and the root. With
a depth of the number of entities nothing is left out, and more depth shows nothing more. -/
theorem tree_markers_exact {declarations : List Declaration} {c : Catalog}
    (built : build declarations = .ok c) {entity : String} (known : c.contains entity = true)
    (depth : Nat) :
    ∃ t, c.tree entity depth = .ok t ∧
      (∀ steps u, t.At steps u → u.Shows c [] entity depth steps) ∧
      (c.entities.length ≤ depth → c.tree entity c.entities.length = .ok t ∧
        ∀ steps u, t.At steps u → u.marker? ≠ some .depthLimit) := by
  have valid := valid_of_build built
  have fresh : c.Fresh [] entity := by
    constructor
    · exact List.nodup_singleton entity
    · simpa using mem_entityNames_iff.mpr (Option.isSome_iff_exists.mp known)
  have shows (depth : Nat) (steps : List Association) (u : SchemaTree)
      (h : (SchemaTree.grow c [] entity depth).At steps u) : u.Shows c [] entity depth steps :=
    valid.grow_shows fresh h
  have same (more : Nat) (deep : c.entities.length ≤ more) :
      SchemaTree.grow c [] entity (more + 1) = SchemaTree.grow c [] entity more := by
    apply valid.grow_saturates fresh
    simpa using deep
  refine ⟨SchemaTree.grow c [] entity depth, by rw [tree, if_pos known], shows depth, ?_⟩
  intro deep
  constructor
  · rw [tree, if_pos known]
    congr 1
    obtain ⟨more, rfl⟩ := Nat.exists_eq_add_of_le deep
    induction more with
    | zero => rfl
    | succ more ih =>
      rw [ih (Nat.le_add_right _ more), ← same _ (Nat.le_add_right _ more)]
      rfl
  · intro steps u h limited
    -- With one more step the same tree would have its limit one level further down.
    have here := ((shows depth steps u h).limit.mp limited).2
    have below := ((shows (depth + 1) steps u (same depth deep ▸ h)).limit.mp limited).2
    omega

theorem circular_film_markers : ∃ c t, build circularDeclarations = .ok c ∧
    c.contains "film" = true ∧ c.tree "film" 4 = .ok t ∧ c.tree "film" c.entities.length = .ok t ∧
      (t.preorder.filter (·.2.marker? = some .cycle)).map (·.1) = [["language", "films"]] ∧
        ∀ steps u, t.At steps u → u.marker? ≠ some .depthLimit := by
  have built : build circularDeclarations = .ok (declared circularDeclarations) := rfl
  have known : (declared circularDeclarations).contains "film" = true := rfl
  obtain ⟨t, made, -, whole⟩ := tree_markers_exact built known 4
  obtain ⟨saturated, unlimited⟩ := whole (by decide)
  refine ⟨_, t, rfl, known, made, saturated, ?_, unlimited⟩
  cases made
  decide

end Catalog

end ReadPlan
