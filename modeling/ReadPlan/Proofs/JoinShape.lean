import ReadPlan.Proofs.JoinForest

namespace ReadPlan

mutual

def JoinNode.bare : JoinNode → JoinNode
  | ⟨name, path, parent, target, association, required, _, nested⟩ =>
    ⟨name, path, parent, target, association, required, [], bareForest nested⟩

def bareForest : List JoinNode → List JoinNode
  | [] => []
  | j :: rest => j.bare :: bareForest rest

end

theorem JoinNode.bare_eq (j : JoinNode) :
    j.bare = { j with projected := [], nested := bareForest j.nested } := by
  cases j
  rfl

@[simp] theorem JoinNode.bare_name (j : JoinNode) : j.bare.name = j.name := by
  rw [bare_eq]

theorem JoinNode.project_bare (fields : List String) (j : JoinNode) :
    (j.project fields).bare = j.bare := by
  rw [bare_eq, bare_eq]
  rfl

namespace JoinForest

theorem bareForest_eq_map (forest : JoinForest) : bareForest forest = forest.map JoinNode.bare := by
  induction forest with
  | nil => rfl
  | cons j rest ih => rw [bareForest, ih, List.map_cons]

theorem updateSibling_bare (name : String) {f g : JoinNode → JoinNode}
    (same : ∀ j, (f j).bare = g j.bare) (forest : JoinForest) :
    bareForest (updateSibling name f forest) = updateSibling name g (bareForest forest) := by
  induction forest with
  | nil => rfl
  | cons j rest ih =>
    rw [updateSibling, bareForest, updateSibling, JoinNode.bare_name]
    split
    · rw [bareForest, same]
    · rw [bareForest, ih]

theorem update_bare {f : JoinNode → JoinNode} (same : ∀ j, (f j).bare = j.bare)
    (names : List String) (forest : JoinForest) :
    bareForest (update f names forest) = bareForest forest := by
  have sibling {g : JoinNode → JoinNode} (same : ∀ j, (g j).bare = j.bare) (name : String)
      (forest : JoinForest) : bareForest (updateSibling name g forest) = bareForest forest := by
    have kept (j : JoinNode) : id j = j := rfl
    rw [updateSibling_bare name (g := id) same, updateSibling_same kept]
  induction names generalizing forest with
  | nil => rfl
  | cons name rest ih =>
    cases rest with
    | nil => exact sibling same name forest
    | cons next rest =>
      refine sibling (fun j => ?_) name forest
      rw [JoinNode.bare_eq, JoinNode.bare_eq j, ih]

theorem graft_bare (options : JoinOptions) (parent : String) (trail : List String)
    (steps : List Association) (forest : JoinForest) :
    bareForest (graft options parent trail steps forest) =
      graft options parent trail steps (bareForest forest) := by
  induction steps generalizing parent trail forest with
  | nil => rfl
  | cons a rest ih =>
    have grown (j : JoinNode) : JoinNode.bare { j with
        nested := graft options j.path (trail ++ [a.name]) rest j.nested } =
          { j.bare with
            nested := graft options j.bare.path (trail ++ [a.name]) rest j.bare.nested } := by
      rw [JoinNode.bare_eq, JoinNode.bare_eq, ih]
    have sprouted : (sprout options parent (trail ++ [a.name]) a).bare =
        sprout options parent (trail ++ [a.name]) a := rfl
    have known : (bareForest forest).any (·.name == a.name) = forest.any (·.name == a.name) := by
      rw [bareForest_eq_map, List.any_map]
      exact congrArg forest.any (funext fun j => by simp)
    simp only [graft, known]
    split
    · exact updateSibling_bare a.name grown forest
    · rw [bareForest_eq_map, List.map_append, ← bareForest_eq_map, List.map_singleton, grown,
        sprouted]

theorem meet_bare (options : JoinOptions) (root : String) (forest : JoinForest) (d : Demand) :
    bareForest (meet options root forest d) =
      graft options root [] d.steps (bareForest forest) := by
  rw [meet, update_bare (JoinNode.project_bare d.fields), graft_bare]

theorem ofDemands_bare (options : JoinOptions) (root : String) (demands : List Demand) :
    bareForest (ofDemands options root demands) =
      (demands.map (·.steps)).foldl (fun forest steps => graft options root [] steps forest)
        [] := by
  have run (forest : JoinForest) : bareForest (demands.foldl (meet options root) forest) =
      (demands.map (·.steps)).foldl (fun forest steps => graft options root [] steps forest)
        (bareForest forest) := by
    induction demands generalizing forest with
    | nil => rfl
    | cons d rest ih => rw [List.foldl_cons, ih, meet_bare, List.map_cons, List.foldl_cons]
  exact run []

theorem graft_further (options : JoinOptions) (parent : String) (trail : List String)
    (steps more : List Association) :
    graft options parent trail (steps ++ more) (graft options parent trail steps []) =
      graft options parent trail (steps ++ more) [] := by
  induction steps generalizing parent trail with
  | nil => rfl
  | cons a rest ih =>
    simp [graft, updateSibling, sprout, ih]

theorem graft_again (options : JoinOptions) (parent : String) (trail : List String)
    (steps : List Association) :
    graft options parent trail steps (graft options parent trail steps []) =
      graft options parent trail steps [] := by
  simpa using graft_further options parent trail steps []

end JoinForest

end ReadPlan
