import ReadPlan.Join.Register
import ReadPlan.Proofs.JoinChains

namespace ReadPlan

namespace JoinCall

def segments : JoinCall → List String
  | .ensure segments | .project segments _ => segments
  | .resolve reference => (Reference.ofString reference).path

def fields : JoinCall → List String
  | .project _ field => [field]
  | .ensure _ | .resolve _ => []

end JoinCall

namespace Frame

/-- Every name is an association of the entity that the names before it lead to. -/
def resolves (f : Frame) (segments : List String) : Bool :=
  (f.catalog.follow f.root.name segments).toOption.isSome

section

variable {f : Frame} {options : JoinOptions}

theorem resolves_iff {segments : List String} :
    f.resolves segments = true ↔ ∃ steps, f.catalog.follow f.root.name segments = .ok steps := by
  unfold resolves
  cases f.catalog.follow f.root.name segments <;> simp [Except.toOption]

theorem demandPath_registrations (segments fields : List String) :
    (f.demandPath segments fields).map Demand.registration =
      if segments ≠ [] ∧ f.resolves segments then [⟨segments, fields⟩] else [] := by
  unfold demandPath
  split
  · rename_i steps made
    obtain ⟨more, followed⟩ := steps_eq_ok.mp made
    rw [if_pos ⟨more, resolves_iff.mpr ⟨_, followed⟩⟩]
    simp [Demand.registration, Catalog.names_of_follow followed]
  · rename_i e failed
    rw [if_neg]
    · rfl
    · rintro ⟨more, resolved⟩
      obtain ⟨steps, followed⟩ := resolves_iff.mp resolved
      rw [steps_eq_ok.mpr ⟨more, followed⟩] at failed
      cases failed

theorem answer_eq (forest : JoinForest) (call : JoinCall) :
    f.answer options forest call =
      (f.demandPath call.segments call.fields).foldl (.meet options f.root.name) forest := by
  have ensured (segments fields : List String) :
      (f.ensure options segments fields forest).toOption.getD forest =
        (f.demandPath segments fields).foldl (.meet options f.root.name) forest := by
    unfold ensure demandPath
    cases f.steps segments <;> rfl
  cases call with
  | ensure segments => exact ensured segments []
  | project segments field => exact ensured segments [field]
  | resolve reference => rfl

theorem answerAll_eq (calls : List JoinCall) :
    f.answerAll options calls = .ofDemands options f.root.name
      (calls.flatMap fun call => f.demandPath call.segments call.fields) := by
  rw [answerAll, JoinForest.ofDemands, List.foldl_flatMap]
  congr 1
  funext forest call
  exact answer_eq forest call

end

def resolved (f : Frame) (calls : List JoinCall) : List (List String) :=
  (calls.map JoinCall.segments).filter f.resolves

/-- The joins that some calls leave. -/
structure Registered (f : Frame) (options : JoinOptions) (calls : List JoinCall)
    (forest : JoinForest) : Prop where
  distinct : (forest.map (·.name)).Nodup ∧
    ∀ j ∈ flattenForest forest, (j.nested.map (·.name)).Nodup
  reached : ∀ j ∈ flattenForest forest, ∃ chain, forest.find? chain = some j
  chains : ∀ chain, (forest.find? chain).isSome = true ↔
    chain ≠ [] ∧ ∃ path ∈ f.resolved calls, chain <+: path
  first : ∀ name j, forest.find? [name] = some j →
    j.name = name ∧ j.Spells f.catalog options (.ofRoot f.root.name)
  further : ∀ chain name above j, forest.find? chain = some above →
    forest.find? (chain ++ [name]) = some j →
      j.name = name ∧ j.Spells f.catalog options ⟨above.path, above.target, chain⟩
  order : forest.map (·.name) = ((f.resolved calls).filterMap (nextName [])).eraseDups ∧
    ∀ chain j, forest.find? chain = some j →
      j.nested.map (·.name) = ((f.resolved calls).filterMap (nextName chain)).eraseDups
  projected : ∀ j ∈ flattenForest forest, j.projected.Nodup

section

variable {f : Frame} {options : JoinOptions} {calls : List JoinCall}

def registrations (f : Frame) (calls : List JoinCall) : List Registration :=
  (calls.flatMap fun call => f.demandPath call.segments call.fields).map Demand.registration

theorem answerAll_mirrors : JoinForest.Mirrors f.catalog options (.ofRoot f.root.name)
    (f.registrations calls) (f.answerAll options calls) := by
  rw [answerAll_eq]
  refine JoinForest.ofDemands_mirrors fun d hd => ?_
  obtain ⟨call, -, demanded⟩ := List.mem_flatMap.mp hd
  obtain ⟨-, followed, -⟩ := mem_demandPath.mp demanded
  rwa [Catalog.names_of_follow followed]

theorem mem_resolved {path : List String} :
    path ∈ f.resolved calls ↔ ∃ call ∈ calls, f.resolves path = true ∧ call.segments = path := by
  simp only [resolved, List.mem_filter, List.mem_map]
  constructor
  · rintro ⟨⟨call, hc, same⟩, good⟩
    exact ⟨call, hc, good, same⟩
  · rintro ⟨call, hc, good, same⟩
    exact ⟨⟨call, hc, same⟩, good⟩

theorem begins_registration {chain : List String} (more : chain ≠ []) :
    (∃ r ∈ f.registrations calls, chain <+: r.names) ↔
      ∃ path ∈ f.resolved calls, chain <+: path := by
  simp only [registrations, List.map_flatMap, demandPath_registrations, List.mem_flatMap]
  constructor
  · rintro ⟨r, ⟨call, hc, hr⟩, begins⟩
    split at hr
    · rename_i leads
      cases List.mem_singleton.mp hr
      exact ⟨_, mem_resolved.mpr ⟨call, hc, leads.2, rfl⟩, begins⟩
    · cases hr
  · rintro ⟨_, hp, begins⟩
    obtain ⟨call, hc, good, rfl⟩ := mem_resolved.mp hp
    have leads : call.segments ≠ [] := by
      intro none
      rw [none] at begins
      exact more (List.prefix_nil.mp begins)
    exact ⟨⟨call.segments, call.fields⟩, ⟨call, hc, by simp [leads, good]⟩, begins⟩

/-- An empty path has no names, so it does not matter that it is no registration. -/
theorem nextNames_registrations (chain : List String) :
    (f.registrations calls).filterMap (nextName chain ·.names) =
      (f.resolved calls).filterMap (nextName chain) := by
  induction calls with
  | nil => rfl
  | cons call rest ih =>
    have here : ((f.demandPath call.segments call.fields).map Demand.registration).filterMap
        (nextName chain ·.names) =
          ([call.segments].filter f.resolves).filterMap (nextName chain) := by
      rw [demandPath_registrations]
      cases good : f.resolves call.segments with
      | false => simp [good]
      | true =>
        by_cases none : call.segments = []
        · cases chain <;> simp [none, nextName, List.isPrefixOf?]
        · rw [if_pos ⟨none, rfl⟩, List.filter_cons_of_pos good]
          rfl
    have split : f.resolved (call :: rest) =
        [call.segments].filter f.resolves ++ f.resolved rest := by
      rw [resolved, List.map_cons, List.filter_cons]
      cases good : f.resolves call.segments <;> simp [good, resolved]
    rw [split, List.filterMap_append, ← here, ← ih, registrations, registrations,
      List.flatMap_cons, List.map_append, List.filterMap_append]

/-- Whatever calls are made in whatever order, the joins are the tree of the paths that resolve. -/
theorem answerAll_registered (f : Frame) (options : JoinOptions) (calls : List JoinCall) :
    f.Registered options calls (f.answerAll options calls) := by
  have tree : JoinForest.Mirrors f.catalog options (.ofRoot f.root.name)
    (f.registrations calls) (f.answerAll options calls) := answerAll_mirrors
  have each {P : JoinNode → Prop}
      (h : ∀ chain j, (f.answerAll options calls).find? chain = some j → P j) :
      ∀ j ∈ flattenForest (f.answerAll options calls), P j := by
    intro j hj
    obtain ⟨chain, found⟩ := tree.exists_chain hj
    exact h chain j found
  constructor
  case distinct =>
    exact ⟨tree.nodup, each fun chain j found => (tree.below found).nodup⟩
  case reached =>
    exact fun j hj => tree.exists_chain hj
  case chains =>
    intro chain
    rw [tree.isSome_iff chain]
    exact and_congr_right begins_registration
  case first =>
    intro name j found
    obtain ⟨named, l, -, root, -, here⟩ := tree.at_end [] found
    rw [root rfl] at here
    exact ⟨named, (JoinNode.mirrors_iff.mp here).1⟩
  case further =>
    intro chain name above j high found
    obtain ⟨named, l, -, -, under, here⟩ := tree.at_end chain found
    rw [under above high] at here
    exact ⟨named, (JoinNode.mirrors_iff.mp here).1⟩
  case order =>
    constructor
    · rw [← nextNames_registrations, ← Registration.firstNames_afterAll]
      exact tree.names
    · intro chain j found
      rw [← nextNames_registrations, ← Registration.firstNames_afterAll]
      exact (tree.below found).names
  case projected =>
    refine each fun chain j found => ?_
    rw [tree.projected_eq found]
    exact Registration.returned_nodup _

end

end Frame

end ReadPlan
