import ReadPlan.Proofs.JoinTree

/-!
The joins of a forest by the chain of names that leads to each. In the tree of some registrations
the chains are the nonempty beginnings of their paths, no two joins share a chain, and looking a
chain up gives the join at its end.
-/

namespace ReadPlan

namespace Catalog

def endOf (owner : String) (steps : List Association) : String :=
  (steps.getLast?.map (·.target)).getD owner

theorem endOf_cons (owner : String) (a : Association) (rest : List Association) :
    endOf owner (a :: rest) = endOf a.target rest := by
  cases rest <;> simp [endOf, List.getLast?_cons]

theorem follow_append_eq_ok {c : Catalog} {owner : String} {names more : List String}
    {steps : List Association} :
    c.follow owner (names ++ more) = .ok steps ↔ ∃ before after,
      c.follow owner names = .ok before ∧ c.follow (endOf owner before) more = .ok after ∧
        steps = before ++ after := by
  induction names generalizing owner steps with
  | nil => simp [follow, endOf]
  | cons name rest ih =>
    simp only [List.cons_append, follow_cons_eq_ok, ih]
    constructor
    · rintro ⟨a, _, found, ⟨before, after, first, second, rfl⟩, rfl⟩
      rw [← endOf_cons owner] at second
      exact ⟨a :: before, after, ⟨a, before, found, first, rfl⟩, second, rfl⟩
    · rintro ⟨_, after, ⟨a, before, found, first, rfl⟩, second, rfl⟩
      rw [endOf_cons] at second
      exact ⟨a, _, found, ⟨before, after, first, second, rfl⟩, rfl⟩

theorem follow_concat_eq_ok {c : Catalog} {owner : String} {names : List String} {name : String}
    {steps : List Association} :
    c.follow owner (names ++ [name]) = .ok steps ↔ ∃ before a, c.follow owner names = .ok before ∧
      c.association? (endOf owner before) name = some a ∧ steps = before ++ [a] := by
  simp only [follow_append_eq_ok, follow_cons_eq_ok]
  constructor
  · rintro ⟨before, _, first, ⟨a, more, found, ended, rfl⟩, rfl⟩
    cases ended
    exact ⟨before, a, first, found, rfl⟩
  · rintro ⟨before, a, first, found, rfl⟩
    exact ⟨before, [a], first, ⟨a, [], found, rfl, rfl⟩, rfl⟩

end Catalog

theorem find?_of_nodup {α : Type} {key : α → String} {xs : List α} (distinct : (xs.map key).Nodup)
    {x : α} (hx : x ∈ xs) : xs.find? (fun y => key y == key x) = some x := by
  induction xs with
  | nil => cases hx
  | cons y rest ih =>
    obtain ⟨fresh, others⟩ := List.nodup_cons.mp distinct
    rcases List.mem_cons.mp hx with rfl | hx
    · simp
    · have apart : key y ≠ key x := by
        intro same
        exact fresh (List.mem_map.mpr ⟨x, hx, same.symm⟩)
      simpa [apart] using ih others hx

theorem find?_eq_some_of_nodup {α : Type} {key : α → String} {xs : List α}
    (distinct : (xs.map key).Nodup) {k : String} {x : α} :
    xs.find? (fun y => key y == k) = some x ↔ x ∈ xs ∧ key x = k := by
  constructor
  · intro found
    exact ⟨List.mem_of_find?_eq_some found, by simpa using List.find?_some found⟩
  · rintro ⟨hx, rfl⟩
    exact find?_of_nodup distinct hx

def nextName (chain names : List String) : Option String :=
  (chain.isPrefixOf? names).bind (·.head?)

namespace Registration

/-- What some registrations say below the join at the end of a chain. -/
def afterAll : List String → List Registration → List Registration
  | [], rs => rs
  | name :: rest, rs => afterAll rest (after name rs)

theorem afterAll_concat (chain : List String) (name : String) (rs : List Registration) :
    afterAll (chain ++ [name]) rs = after name (afterAll chain rs) := by
  induction chain generalizing rs with
  | nil => rfl
  | cons first rest ih => exact ih _

theorem mem_afterAll {chain : List String} {rs : List Registration} {r : Registration} :
    r ∈ afterAll chain rs ↔ ⟨chain ++ r.names, r.fields⟩ ∈ rs := by
  induction chain generalizing rs with
  | nil => rfl
  | cons name rest ih => rw [afterAll, ih, mem_after, List.cons_append]

theorem firstNames_afterAll (chain : List String) (rs : List Registration) :
    firstNames (afterAll chain rs) = (rs.filterMap (nextName chain ·.names)).eraseDups := by
  refine congrArg List.eraseDups ?_
  induction chain generalizing rs with
  | nil => simp [afterAll, nextName, List.isPrefixOf?]
  | cons name rest ih =>
    rw [afterAll, ih, after, List.filterMap_filterMap]
    congr 1
    funext r
    obtain ⟨names, fields⟩ := r
    cases names with
    | nil => rfl
    | cons first more =>
      by_cases same : first = name
      · simp [nextName, List.isPrefixOf?, same]
      · simp [nextName, List.isPrefixOf?, same, Ne.symm same]

theorem returned_afterAll (chain : List String) (rs : List Registration) :
    returned (afterAll chain rs) =
      (rs.flatMap fun r => if r.names = chain then r.fields else []).eraseDups := by
  refine congrArg List.eraseDups ?_
  induction chain generalizing rs with
  | nil =>
    rw [afterAll]
    induction rs with
    | nil => rfl
    | cons r rest ih => cases h : r.names <;> simp [h, ih]
  | cons name rest ih =>
    rw [afterAll, ih]
    induction rs with
    | nil => rfl
    | cons r others ih =>
      obtain ⟨names, fields⟩ := r
      have further : after name (⟨names, fields⟩ :: others) =
          after name [⟨names, fields⟩] ++ after name others := after_append name [_] others
      rw [further, List.flatMap_append, ih, List.flatMap_cons]
      cases names with
      | nil => simp [after]
      | cons first more => by_cases same : first = name <;> simp [after, same]

end Registration

open Registration

namespace JoinForest

def children : List String → JoinForest → JoinForest
  | [], forest => forest
  | name :: rest, forest =>
    match List.find? (fun j : JoinNode => j.name == name) forest with
    | some j => children rest j.nested
    | none => []

theorem find?_cons {name : String} {rest : List String} (more : rest ≠ [])
    (forest : JoinForest) :
    find? (name :: rest) forest =
      (List.find? (fun j : JoinNode => j.name == name) forest).bind (find? rest ·.nested) := by
  cases rest with
  | nil => contradiction
  | cons next rest =>
    rw [find?.eq_3 _ _ _ (by simp)]
    cases List.find? (fun j : JoinNode => j.name == name) forest <;> rfl

theorem ne_nil_of_find? {chain : List String} {forest : JoinForest} {j : JoinNode}
    (found : find? chain forest = some j) : chain ≠ [] := by
  rintro rfl
  cases found

theorem find?_concat (chain : List String) (name : String) (forest : JoinForest) :
    find? (chain ++ [name]) forest =
      List.find? (fun j : JoinNode => j.name == name) (children chain forest) := by
  induction chain generalizing forest with
  | nil => rfl
  | cons first rest ih =>
    rw [List.cons_append, find?_cons (by simp), children]
    cases List.find? (fun j : JoinNode => j.name == first) forest with
    | none => rfl
    | some j => exact ih j.nested

theorem children_concat (chain : List String) (name : String) (forest : JoinForest) :
    children (chain ++ [name]) forest =
      ((find? (chain ++ [name]) forest).map (·.nested)).getD [] := by
  rw [find?_concat]
  induction chain generalizing forest with
  | nil =>
    rw [List.nil_append, children, children]
    cases List.find? (fun j : JoinNode => j.name == name) forest <;> rfl
  | cons first rest ih =>
    rw [List.cons_append, children, children]
    cases List.find? (fun j : JoinNode => j.name == first) forest with
    | none => rfl
    | some j => exact ih j.nested

theorem children_of_find? {chain : List String} {forest : JoinForest} {j : JoinNode}
    (found : find? chain forest = some j) : children chain forest = j.nested := by
  rcases List.eq_nil_or_concat' chain with rfl | ⟨before, name, rfl⟩
  · cases found
  · rw [children_concat, found]
    rfl

section Mirrors

variable {c : Catalog} {options : JoinOptions} {l : Level} {rs : List Registration}
  {forest : JoinForest}

theorem Mirrors.find?_isSome (h : Mirrors c options l rs forest) (name : String) :
    (List.find? (fun j : JoinNode => j.name == name) forest).isSome ↔ name ∈ firstNames rs := by
  rw [List.find?_isSome, ← h.names]
  simp

/-- Below a chain stands the tree of the paths that go through it. -/
theorem Mirrors.children (h : Mirrors c options l rs forest) (chain : List String) :
    ∃ l' : Level, l'.trail = l.trail ++ chain ∧ (chain = [] → l' = l) ∧
      (∀ p, find? chain forest = some p → l' = ⟨p.path, p.target, l.trail ++ chain⟩) ∧
        Mirrors c options l' (afterAll chain rs) (children chain forest) := by
  induction chain using List.reverseRecOn with
  | nil => exact ⟨l, by simp, fun _ => rfl, fun _ none => (by cases none), h⟩
  | append_singleton chain name ih =>
    obtain ⟨l', trail, -, -, here⟩ := ih
    rw [children_concat, find?_concat, afterAll_concat]
    cases found : List.find? (fun j : JoinNode => j.name == name)
      (JoinForest.children chain forest) with
    | none =>
      have unnamed : name ∉ firstNames (afterAll chain rs) := by
        rw [← here.find?_isSome, found]
        simp
      rw [after_eq_nil unnamed]
      exact ⟨⟨"", "", l.trail ++ (chain ++ [name])⟩, rfl, by simp, by simp, mirrors_nil⟩
    | some j =>
      have same : j.name = name := by simpa using List.find?_some found
      have trail' : l'.trail ++ [j.name] = l.trail ++ (chain ++ [name]) := by
        rw [trail, same, List.append_assoc]
      have mirrors := here.each j (List.mem_of_find?_eq_some found)
      obtain ⟨-, -, below⟩ := JoinNode.mirrors_iff.mp mirrors
      refine ⟨l'.below j, trail', by simp, ?_, same ▸ below⟩
      intro p found
      cases found
      rw [Level.below, trail']

theorem Mirrors.below (h : Mirrors c options l rs forest) {chain : List String} {j : JoinNode}
    (found : find? chain forest = some j) :
    Mirrors c options ⟨j.path, j.target, l.trail ++ chain⟩ (afterAll chain rs) j.nested := by
  obtain ⟨l', -, -, under, here⟩ := h.children chain
  rwa [under j found, children_of_find? found] at here

/-- The join at the end of a chain, as part of the tree right above it. -/
theorem Mirrors.at_end (h : Mirrors c options l rs forest) (chain : List String)
    {name : String} {j : JoinNode} (found : find? (chain ++ [name]) forest = some j) :
    j.name = name ∧ ∃ l' : Level, l'.trail = l.trail ++ chain ∧ (chain = [] → l' = l) ∧
      (∀ p, find? chain forest = some p → l' = ⟨p.path, p.target, l.trail ++ chain⟩) ∧
        j.Mirrors c options l' (afterAll chain rs) := by
  rw [find?_concat] at found
  obtain ⟨l', trail, first, under, here⟩ := h.children chain
  exact ⟨by simpa using List.find?_some found, l', trail, first, under,
    here.each j (List.mem_of_find?_eq_some found)⟩

theorem Mirrors.projected_eq (h : Mirrors c options l rs forest) {chain : List String}
    {j : JoinNode} (found : find? chain forest = some j) :
    j.projected = returned (afterAll chain rs) := by
  rcases List.eq_nil_or_concat' chain with rfl | ⟨before, name, rfl⟩
  · cases found
  · obtain ⟨rfl, l', -, -, -, here⟩ := h.at_end _ found
    rw [afterAll_concat]
    exact (JoinNode.mirrors_iff.mp here).2.1

/-- The chains are the nonempty beginnings of the paths. -/
theorem Mirrors.isSome_iff (h : Mirrors c options l rs forest) (chain : List String) :
    (find? chain forest).isSome ↔ chain ≠ [] ∧ ∃ r ∈ rs, chain <+: r.names := by
  rcases List.eq_nil_or_concat' chain with rfl | ⟨before, name, rfl⟩
  · simp [find?]
  · obtain ⟨l', -, -, -, here⟩ := h.children before
    rw [find?_concat, here.find?_isSome, mem_firstNames]
    simp only [mem_afterAll, ne_eq, List.append_eq_nil_iff, List.cons_ne_self,
      and_false, not_false_eq_true, true_and]
    constructor
    · rintro ⟨⟨names, fields⟩, member, head⟩
      obtain ⟨rest, rfl⟩ := List.head?_eq_some_iff.mp head
      exact ⟨_, member, rest, by simp⟩
    · rintro ⟨⟨_, fields⟩, member, rest, rfl⟩
      exact ⟨⟨name :: rest, fields⟩, by simpa using member, rfl⟩

theorem Mirrors.path_eq (h : Mirrors c options l rs forest) {chain : List String} {j : JoinNode}
    (found : find? chain forest = some j) : j.path = relationAlias (l.trail ++ chain) := by
  rcases List.eq_nil_or_concat' chain with rfl | ⟨before, name, rfl⟩
  · cases found
  · obtain ⟨rfl, l', trail, -, -, here⟩ := h.at_end _ (by simpa using found)
    rw [(JoinNode.mirrors_iff.mp here).1.path, trail]
    simp

theorem Mirrors.path_of_root {root : String} (h : Mirrors c options (.ofRoot root) rs forest)
    {chain : List String} {j : JoinNode} (found : find? chain forest = some j) :
    j.path = relationAlias chain := by
  simpa [Level.ofRoot] using h.path_eq found

theorem Mirrors.target_eq (h : Mirrors c options l rs forest) {chain : List String} {j : JoinNode}
    (found : find? chain forest = some j) {steps : List Association}
    (followed : c.follow l.owner chain = .ok steps) : j.target = Catalog.endOf l.owner steps := by
  induction chain using List.reverseRecOn generalizing j steps with
  | nil => cases found
  | append_singleton before name ih =>
    obtain ⟨before_steps, a, above, ended, rfl⟩ := Catalog.follow_concat_eq_ok.mp followed
    obtain ⟨rfl, l', -, first, under, here⟩ := h.at_end _ found
    have spells := (JoinNode.mirrors_iff.mp here).1
    have owner : l'.owner = Catalog.endOf l.owner before_steps := by
      rcases List.eq_nil_or_concat' before with rfl | ⟨_, _, rfl⟩
      · cases above
        rw [first rfl]
        rfl
      · obtain ⟨-, r, member, long⟩ := (h.isSome_iff _).mp (Option.isSome_of_eq_some found)
        have present := (h.isSome_iff _).mpr
          ⟨by simp, r, member, (List.prefix_append _ _).trans long⟩
        obtain ⟨p, hp⟩ := Option.isSome_iff_exists.mp present
        rw [under p hp, ih hp above]
    have same := spells.association
    rw [owner, ended] at same
    rw [spells.target, ← Option.some.inj same]
    simp [Catalog.endOf]

end Mirrors

end JoinForest

mutual

def JoinNode.chained : JoinNode → List (List String × JoinNode)
  | ⟨name, path, parent, target, association, required, projected, nested⟩ =>
    ([name], ⟨name, path, parent, target, association, required, projected, nested⟩) ::
      (forestChained nested).map fun p => (name :: p.1, p.2)

def forestChained : List JoinNode → List (List String × JoinNode)
  | [] => []
  | j :: rest => j.chained ++ forestChained rest

end

theorem JoinNode.chained_eq (j : JoinNode) :
    j.chained = ([j.name], j) :: (forestChained j.nested).map fun p => (j.name :: p.1, p.2) := by
  cases j
  rfl

mutual

theorem JoinNode.chained_joins : (j : JoinNode) → j.chained.map (·.2) = j.flatten
  | ⟨name, path, parent, target, association, required, projected, nested⟩ => by
    rw [JoinNode.chained, JoinNode.flatten, List.map_cons, List.map_map]
    exact congrArg _ (forestChained_joins nested)

theorem forestChained_joins :
    (forest : List JoinNode) → (forestChained forest).map (·.2) = flattenForest forest
  | [] => rfl
  | j :: rest => by
    rw [forestChained, flattenForest, List.map_append, j.chained_joins, forestChained_joins rest]

end

theorem JoinForest.find?_below {forest : JoinForest} (distinct : (forest.map (·.name)).Nodup)
    {j : JoinNode} (hj : j ∈ forest) {chain : List String} (more : chain ≠ []) :
    find? (j.name :: chain) forest = find? chain j.nested := by
  rw [find?_cons more, find?_of_nodup distinct hj]
  rfl

section

variable {c : Catalog} {options : JoinOptions} {l : Level} {rs : List Registration}

open JoinForest

mutual

theorem JoinNode.find?_chained : (j : JoinNode) → ∀ {l rs}, j.Mirrors c options l rs →
    ∀ p ∈ j.chained, p = ([j.name], j) ∨
      ∃ chain ≠ [], p.1 = j.name :: chain ∧ find? chain j.nested = some p.2
  | ⟨name, path, parent, target, association, required, projected, nested⟩, _, _, h, p, hp => by
    obtain ⟨-, -, below⟩ := JoinNode.mirrors_iff.mp h
    rcases List.mem_cons.mp hp with rfl | hp
    · exact .inl rfl
    · obtain ⟨q, hq, rfl⟩ := List.mem_map.mp hp
      have found := forestChained_find? nested below (List.Subset.refl _) q hq
      refine .inr ⟨q.1, ?_, rfl, found⟩
      rintro none
      rw [none] at found
      cases found

theorem forestChained_find? : (siblings : List JoinNode) → ∀ {l rs forest},
    JoinForest.Mirrors c options l rs forest → siblings ⊆ forest →
      ∀ p ∈ forestChained siblings, find? p.1 forest = some p.2
  | [], _, _, _, _, _, p, hp => by cases hp
  | j :: rest, _, _, forest, h, within, p, hp => by
    obtain ⟨hj, others⟩ := List.cons_subset.mp within
    rcases List.mem_append.mp hp with hp | hp
    · rcases j.find?_chained (h.each j hj) p hp with rfl | ⟨chain, more, same, found⟩
      · exact find?_of_nodup h.nodup hj
      · rw [same, find?_below h.nodup hj more, found]
    · exact forestChained_find? rest h others p hp

end

theorem forestChained_eq_flatMap (forest : JoinForest) :
    forestChained forest = forest.flatMap JoinNode.chained := by
  induction forest with
  | nil => rfl
  | cons j rest ih => rw [forestChained, ih, List.flatMap_cons]

theorem head?_of_mem_chained {j : JoinNode} {chain : List String}
    (h : chain ∈ j.chained.map (·.1)) : chain.head? = some j.name := by
  rw [JoinNode.chained_eq, List.map_cons, List.map_map, List.mem_cons] at h
  rcases h with rfl | h
  · rfl
  · obtain ⟨q, -, rfl⟩ := List.mem_map.mp h
    rfl

-- No chain is met twice: the chains of two siblings start with different names.
mutual

theorem JoinNode.chained_nodup : (j : JoinNode) → ∀ {l rs}, j.Mirrors c options l rs →
    (j.chained.map (·.1)).Nodup
  | ⟨name, path, parent, target, association, required, projected, nested⟩, _, _, h => by
    obtain ⟨-, -, below⟩ := JoinNode.mirrors_iff.mp h
    have apart := forestChained_nodup nested below.each below.nodup
    have longer : [] ∉ (forestChained nested).map (·.1) := by
      intro hm
      obtain ⟨q, hq, none⟩ := List.mem_map.mp hm
      have found := forestChained_find? nested below (List.Subset.refl _) q hq
      rw [none] at found
      cases found
    rw [JoinNode.chained, List.map_cons, List.map_map, List.nodup_cons]
    have below_chains : (forestChained nested).map ((·.1) ∘ fun p => (name :: p.1, p.2)) =
        ((forestChained nested).map (·.1)).map (name :: ·) := by
      rw [List.map_map]
      rfl
    rw [below_chains]
    refine ⟨?_, apart.map (List.cons_injective)⟩
    intro hm
    obtain ⟨chain, hc, same⟩ := List.mem_map.mp hm
    cases same
    exact longer hc

theorem forestChained_nodup : (forest : List JoinNode) → ∀ {l rs},
    (∀ j ∈ forest, j.Mirrors c options l rs) → (forest.map (·.name)).Nodup →
      ((forestChained forest).map (·.1)).Nodup
  | [], _, _, _, _ => .nil
  | j :: rest, _, _, each, distinct => by
    obtain ⟨here, more⟩ := List.forall_mem_cons.mp each
    obtain ⟨fresh, others⟩ := List.nodup_cons.mp distinct
    rw [forestChained, List.map_append]
    refine (j.chained_nodup here).append (forestChained_nodup rest more others) ?_
    intro chain first second
    rw [forestChained_eq_flatMap, List.map_flatMap, List.mem_flatMap] at second
    obtain ⟨k, hk, second⟩ := second
    have same := (head?_of_mem_chained first).symm.trans (head?_of_mem_chained second)
    exact fresh (List.mem_map.mpr ⟨k, hk, (Option.some.inj same).symm⟩)

end

namespace JoinForest

variable {forest : JoinForest}

theorem mem_chained_of_find? {chain : List String} {j : JoinNode}
    (found : find? chain forest = some j) : (chain, j) ∈ forestChained forest := by
  induction chain generalizing forest with
  | nil => cases found
  | cons name rest ih =>
    have sibling {k : JoinNode}
        (here : List.find? (fun k : JoinNode => k.name == name) forest = some k) :
        k.name = name ∧ k.chained ⊆ forestChained forest := by
      refine ⟨by simpa using List.find?_some here, fun p hp => ?_⟩
      rw [forestChained_eq_flatMap]
      exact List.mem_flatMap.mpr ⟨k, List.mem_of_find?_eq_some here, hp⟩
    by_cases last : rest = []
    · subst last
      obtain ⟨rfl, within⟩ := sibling found
      exact within (by simp [JoinNode.chained_eq])
    · rw [find?_cons last] at found
      obtain ⟨k, here, below⟩ := Option.bind_eq_some_iff.mp found
      obtain ⟨rfl, within⟩ := sibling here
      apply within
      rw [JoinNode.chained_eq]
      exact List.mem_cons_of_mem _ (List.mem_map.mpr ⟨_, ih below, rfl⟩)

theorem mem_flatten_of_find? {chain : List String} {j : JoinNode}
    (found : find? chain forest = some j) : j ∈ flattenForest forest := by
  rw [← forestChained_joins]
  exact List.mem_map_of_mem (mem_chained_of_find? found)

/-- The joins together with their chains are what looking up gives. -/
theorem Mirrors.mem_chained (h : Mirrors c options l rs forest) {chain : List String}
    {j : JoinNode} : (chain, j) ∈ forestChained forest ↔ find? chain forest = some j :=
  ⟨forestChained_find? forest h (List.Subset.refl _) (chain, j), mem_chained_of_find?⟩

theorem Mirrors.names_of_find? (h : Mirrors c options l rs forest) {chain : List String}
    {j : JoinNode} (found : find? chain forest = some j) :
    ∀ name ∈ chain, ∃ k ∈ flattenForest forest, k.name = name := by
  intro name hn
  obtain ⟨before, further, rfl⟩ := List.append_of_mem hn
  obtain ⟨-, r, member, begins⟩ := (h.isSome_iff _).mp (Option.isSome_of_eq_some found)
  have shorter : before ++ [name] <+: r.names := by
    refine List.IsPrefix.trans ⟨further, ?_⟩ begins
    simp
  obtain ⟨k, hk⟩ := Option.isSome_iff_exists.mp ((h.isSome_iff _).mpr ⟨by simp, r, member, shorter⟩)
  exact ⟨k, mem_flatten_of_find? hk, (h.at_end _ hk).1⟩

theorem Mirrors.exists_chain (h : Mirrors c options l rs forest) {j : JoinNode}
    (hj : j ∈ flattenForest forest) : ∃ chain, find? chain forest = some j := by
  rw [← forestChained_joins] at hj
  obtain ⟨⟨chain, j⟩, hp, rfl⟩ := List.mem_map.mp hj
  exact ⟨chain, h.mem_chained.mp hp⟩

end JoinForest

end

end ReadPlan
