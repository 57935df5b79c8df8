import ReadPlan.Join.Demand

/-!
What is true of every join in a forest. A property that a join keeps when joins below it change, and
when it returns further fields, holds in the forest of some demands as soon as it holds of each join
that these demands add.
-/

namespace ReadPlan

theorem JoinNode.flatten_eq (j : JoinNode) : j.flatten = j :: flattenForest j.nested := by
  cases j
  rfl

namespace JoinForest

theorem updateSibling_same {f : JoinNode → JoinNode} (same : ∀ j, f j = j) (name : String)
    (forest : JoinForest) : updateSibling name f forest = forest := by
  induction forest with
  | nil => rfl
  | cons j rest ih => rw [updateSibling, same, ih, ite_self]

theorem update_same {f : JoinNode → JoinNode} (same : ∀ j, f j = j) (names : List String)
    (forest : JoinForest) : update f names forest = forest := by
  induction names generalizing forest with
  | nil => rfl
  | cons name rest ih =>
    cases rest with
    | nil => exact updateSibling_same same name forest
    | cons next rest =>
      refine updateSibling_same (fun j => ?_) name forest
      rw [ih]
      cases j
      rfl

def Each (P : JoinNode → Prop) (forest : JoinForest) : Prop :=
  ∀ j ∈ flattenForest forest, P j

/-- Neither the joins below a join nor the fields that it returns matter for the property. -/
structure Stable (P : JoinNode → Prop) : Prop where
  nested : ∀ {j} below, P j → P { j with nested := below }
  project : ∀ {j} fields, P j → P (j.project fields)

section

variable {P : JoinNode → Prop}

theorem each_nil : Each P [] := by
  simp [Each, flattenForest]

theorem each_cons {j : JoinNode} {rest : JoinForest} :
    Each P (j :: rest) ↔ (P j ∧ Each P j.nested) ∧ Each P rest := by
  simp [Each, flattenForest, JoinNode.flatten_eq, or_imp, forall_and, and_assoc]

theorem each_append {forest more : JoinForest} :
    Each P (forest ++ more) ↔ Each P forest ∧ Each P more := by
  induction forest with
  | nil => simp [each_nil]
  | cons j rest ih =>
    rw [List.cons_append, each_cons, each_cons, ih, and_assoc, and_assoc, and_assoc]

theorem updateSibling_each {f : JoinNode → JoinNode} (name : String)
    (kept : ∀ j, P j → Each P j.nested → P (f j) ∧ Each P (f j).nested) {forest : JoinForest}
    (h : Each P forest) : Each P (updateSibling name f forest) := by
  induction forest with
  | nil => exact each_nil
  | cons j rest ih =>
    obtain ⟨⟨here, below⟩, others⟩ := each_cons.mp h
    rw [updateSibling]
    split
    · exact each_cons.mpr ⟨kept j here below, others⟩
    · exact each_cons.mpr ⟨⟨here, below⟩, ih others⟩

theorem update_each {f : JoinNode → JoinNode} (stable : Stable P)
    (kept : ∀ j, P j → Each P j.nested → P (f j) ∧ Each P (f j).nested) (names : List String)
    {forest : JoinForest} (h : Each P forest) : Each P (update f names forest) := by
  induction names generalizing forest with
  | nil => exact h
  | cons name rest ih =>
    cases rest with
    | nil => exact updateSibling_each name kept h
    | cons next rest =>
      refine updateSibling_each name (fun j here below => ?_) h
      exact ⟨stable.nested _ here, ih below⟩

theorem graft_each (stable : Stable P) {options : JoinOptions} {steps : List Association}
    (sprouts : ∀ a ∈ steps, ∀ parent trail, P (sprout options parent trail a)) (parent : String)
    (trail : List String) {forest : JoinForest} (h : Each P forest) :
    Each P (graft options parent trail steps forest) := by
  induction steps generalizing parent trail forest with
  | nil => exact h
  | cons a rest ih =>
    obtain ⟨here, others⟩ := List.forall_mem_cons.mp sprouts
    have grown (j : JoinNode) (hj : P j) (below : Each P j.nested) :
        P { j with nested := graft options j.path (trail ++ [a.name]) rest j.nested } ∧
          Each P (graft options j.path (trail ++ [a.name]) rest j.nested) :=
      ⟨stable.nested _ hj, ih others _ _ below⟩
    simp only [graft]
    split
    · exact updateSibling_each a.name grown h
    · exact each_append.mpr ⟨h, each_cons.mpr ⟨grown _ (here _ _) each_nil, each_nil⟩⟩

theorem meet_each (stable : Stable P) {options : JoinOptions} (root : String) {d : Demand}
    (sprouts : ∀ a ∈ d.steps, ∀ parent trail, P (sprout options parent trail a))
    {forest : JoinForest} (h : Each P forest) : Each P (meet options root forest d) :=
  update_each stable (fun _ here below => ⟨stable.project _ here, below⟩) _
    (graft_each stable sprouts root [] h)

theorem ofDemands_each (stable : Stable P) {options : JoinOptions} (root : String)
    {demands : List Demand}
    (sprouts : ∀ d ∈ demands, ∀ a ∈ d.steps, ∀ parent trail, P (sprout options parent trail a)) :
    Each P (ofDemands options root demands) := by
  have run (forest : JoinForest) (h : Each P forest) :
      Each P (demands.foldl (meet options root) forest) := by
    induction demands generalizing forest with
    | nil => exact h
    | cons d rest ih =>
      obtain ⟨here, others⟩ := List.forall_mem_cons.mp sprouts
      exact ih others _ (meet_each stable root here h)
  exact run [] each_nil

end

end JoinForest

end ReadPlan
