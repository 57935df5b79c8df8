import ReadPlan.Proofs.FilterStage
import ReadPlan.Proofs.Grouping
import ReadPlan.Proofs.KeyOrderPredicates
import ReadPlan.Proofs.SettledFilters

namespace ReadPlan

open Registration

mutual

def JoinNode.Like : JoinNode → JoinNode → Prop
  | ⟨name, path, parent, target, association, required, projected, nested⟩, k =>
    ∃ projected' nested',
      k = ⟨name, path, parent, target, association, required, projected', nested'⟩ ∧
        projected.Perm projected' ∧ forestLike nested nested'

def forestLike : List JoinNode → List JoinNode → Prop
  | [], forest => forest = []
  | j :: rest, forest => ∃ k more, forest.Perm (k :: more) ∧ j.Like k ∧ forestLike rest more

end

theorem forestLike_iff {forest forest' : List JoinNode} :
    forestLike forest forest' ↔ Matched JoinNode.Like forest forest' := by
  induction forest generalizing forest' with
  | nil => rw [forestLike, Matched.nil_iff]
  | cons j rest ih => simp only [forestLike, Matched.cons_iff, ih]

theorem eraseDups_perm {α : Type} [BEq α] [LawfulBEq α] {xs ys : List α} (h : xs.Perm ys) :
    xs.eraseDups.Perm ys.eraseDups := by
  rw [List.perm_ext_iff_of_nodup (eraseDups_nodup xs) (eraseDups_nodup ys)]
  intro x
  rw [List.mem_eraseDups, List.mem_eraseDups, h.mem_iff]

namespace Registration

def Like (r s : Registration) : Prop :=
  r.names = s.names ∧ r.fields.Perm s.fields

variable {rs ss : List Registration}

theorem firstNames_like (h : Matched Like rs ss) : (firstNames rs).Perm (firstNames ss) := by
  have heads := h.map_perm (f := (·.names.head?)) (g := (·.names.head?)) fun r s like => by
    rw [like.1]
  apply eraseDups_perm
  simpa [List.filterMap_map] using heads.filterMap id

theorem returned_like (h : Matched Like rs ss) : (returned rs).Perm (returned ss) := by
  have fields := h.flatMap (S := Eq) (f := fun r => if r.names = [] then r.fields else [])
    (g := fun r => if r.names = [] then r.fields else []) fun r s like => by
      rw [like.1, Matched.eq_iff]
      split
      · exact like.2
      · exact .nil
  have whole (rs : List Registration) := returned_afterAll [] rs
  simp only [afterAll] at whole
  rw [whole, whole]
  exact eraseDups_perm (Matched.eq_iff.mp fields)

theorem after_like (name : String) (h : Matched Like rs ss) :
    Matched Like (after name rs) (after name ss) := by
  have each (rs : List Registration) : after name rs = rs.flatMap fun r => after name [r] := by
    induction rs with
    | nil => rfl
    | cons r rest ih => rw [List.flatMap_cons, ← ih, ← after_append, List.singleton_append]
  rw [each, each]
  refine h.flatMap fun r s like => ?_
  obtain ⟨names, fields⟩ := r
  obtain ⟨_, fields'⟩ := s
  obtain ⟨rfl, same⟩ := like
  cases names with
  | nil => exact .nil
  | cons first rest =>
    by_cases here : first = name
    · have further : Like ⟨rest, fields⟩ ⟨rest, fields'⟩ := ⟨rfl, same⟩
      simpa [after, here] using Matched.cons further .nil
    · simpa [after, here] using Matched.nil

end Registration

section

variable {c : Catalog} {options : JoinOptions}

mutual

/-- A join is determined, up to order, by the registrations at its level. -/
theorem JoinNode.like_of_mirrors : (j : JoinNode) → ∀ {l rs ss k}, j.Mirrors c options l rs →
    k.Mirrors c options l ss → Matched Registration.Like rs ss → j.name = k.name → j.Like k
  | ⟨name, path, parent, target, association, required, projected, nested⟩, l, rs, ss, k, h, h',
      like, same => by
    obtain ⟨name', path', parent', target', association', required', projected', nested'⟩ := k
    cases same
    obtain ⟨spells, returns, below⟩ := JoinNode.mirrors_iff.mp h
    obtain ⟨spells', returns', below'⟩ := JoinNode.mirrors_iff.mp h'
    have further := after_like name like
    cases spells.path.trans spells'.path.symm
    cases spells.parent.trans spells'.parent.symm
    cases Option.some.inj (spells.association.symm.trans spells'.association)
    cases spells.target.trans spells'.target.symm
    have strength : required = required' := by
      rw [Bool.eq_iff_iff]
      exact spells.required.trans spells'.required.symm
    subst strength
    refine ⟨projected', nested', rfl, ?_, ?_⟩
    · change projected = returned (after name rs) at returns
      change projected' = returned (after name ss) at returns'
      rw [returns, returns']
      exact returned_like further
    · rw [forestLike_iff]
      have names : (nested.map (·.name)).Perm (nested'.map (·.name)) := by
        rw [below.names, below'.names]
        exact firstNames_like further
      refine (Matched.of_map names).mono fun j hj k hk same => ?_
      exact siblings_like_of_mirrors nested j hj (below.each j hj) (below'.each k hk) further same
termination_by structural j => j

theorem siblings_like_of_mirrors : (siblings : List JoinNode) → ∀ j ∈ siblings,
    ∀ {l rs ss k}, j.Mirrors c options l rs → k.Mirrors c options l ss →
      Matched Registration.Like rs ss → j.name = k.name → j.Like k
  | [], _, hj, _, _, _, _, _, _, _, _ => by cases hj
  | j :: rest, k, hk, _, _, _, _, h, h', like, same => by
    rcases List.mem_cons.mp hk with here | later
    · rw [here] at h same ⊢
      exact j.like_of_mirrors h h' like same
    · exact siblings_like_of_mirrors rest k later h h' like same
termination_by structural siblings => siblings

end

theorem forest_like_of_mirrors {l : Level} {rs ss : List Registration}
    {forest forest' : JoinForest} (h : JoinForest.Mirrors c options l rs forest)
    (h' : JoinForest.Mirrors c options l ss forest') (like : Matched Registration.Like rs ss) :
    forestLike forest forest' := by
  have names : (forest.map (·.name)).Perm (forest'.map (·.name)) := by
    rw [h.names, h'.names]
    exact firstNames_like like
  rw [forestLike_iff]
  exact (Matched.of_map names).mono fun j hj k hk same =>
    j.like_of_mirrors (h.each j hj) (h'.each k hk) like same

end

section

variable (f : Frame)

theorem joinColumns_perm {forest forest' : JoinForest} (moved : forest.Perm forest') :
    (f.joinColumns forest).Perm (f.joinColumns forest') := by
  have each (forest : JoinForest) :
      f.joinColumns forest = forest.flatMap fun j => f.joinColumns [j] := by
    induction forest with
    | nil => rfl
    | cons j rest ih =>
      rw [List.flatMap_cons, ← ih]
      exact joinColumns_append f [j] rest
  rw [each, each]
  exact moved.flatMap_right _

mutual

theorem JoinNode.columns_like : (j : JoinNode) → ∀ {k}, j.Like k →
    (f.joinColumns [j]).Perm (f.joinColumns [k])
  | ⟨_, _, _, target, _, _, projected, nested⟩, k, like => by
    obtain ⟨projected', nested', rfl, returned, below⟩ := like
    simp only [Frame.joinColumns, flattenForest, JoinNode.flatten_eq, List.append_nil,
      List.flatMap_cons]
    apply List.Perm.append
    · cases f.catalog.entity? target with
      | none => exact .refl _
      | some e => exact returned.map _
    · exact forest_columns_like nested below
termination_by structural j => j

theorem forest_columns_like : (forest : List JoinNode) → ∀ {forest'}, forestLike forest forest' →
    (f.joinColumns forest).Perm (f.joinColumns forest')
  | [], _, like => by
    cases like
    exact .refl _
  | j :: rest, forest', like => by
    obtain ⟨k, more, moved, here, others⟩ := like
    have split (i : JoinNode) (siblings : JoinForest) :
        f.joinColumns (i :: siblings) = f.joinColumns [i] ++ f.joinColumns siblings :=
      joinColumns_append f [i] siblings
    apply List.Perm.trans _ (joinColumns_perm f moved).symm
    rw [split j, split k]
    exact (j.columns_like here).append (forest_columns_like rest others)
termination_by structural forest => forest

end

end

/-! Plans. -/

/-- Two plans that differ in the order of conditions, joins, returned fields and grouping only. -/
structure Plan.SameUpToOrder (p q : Plan) : Prop where
  predicate : Option.Rel Predicate.Like p.predicate q.predicate
  joins : forestLike p.joins q.joins
  groupBy : p.groupBy.Perm q.groupBy
  others : { p with predicate := q.predicate, joins := q.joins, groupBy := q.groupBy } = q

theorem rel_of_toList {p q : Option Predicate} (h : predicatesLike p.toList q.toList) :
    Option.Rel Predicate.Like p q := by
  cases p with
  | none =>
    cases q with
    | none => exact .none
    | some q => cases h
  | some p =>
    obtain ⟨q', more, moved, here, rfl⟩ := h
    cases q with
    | none => exact absurd moved.length_eq (by simp)
    | some q =>
      cases List.singleton_perm_singleton.mp moved
      exact .some here

section

variable {f : Frame} {r : Request} {filter filter' : Filter}

theorem globalSearch_like (h : termsLike filter filter') :
    Option.Rel Predicate.Like filter.globalSearch filter'.globalSearch := by
  have patterns := (filterScalars_like filter h).map fun v =>
    Predicate.globalPattern ("%" ++ Filter.searchText v ++ "%")
  have like : predicatesLike _ _ := predicatesLike_perm (predicatesLike_refl _) patterns
  exact rel_of_toList (predicatesLike_combine .or like)

theorem compileFilters_like_of_terms (h : termsLike filter filter') :
    Accord (Option.Rel Predicate.Like) (r.compileFilters f filter)
      (r.compileFilters f filter') := by
  unfold Request.compileFilters
  cases r.globalSearch with
  | true => exact .ok (globalSearch_like h)
  | false =>
    exact (compileTerms_like f.rootScope filter h).bind fun ps qs related =>
      .ok (rel_of_toList (predicatesLike_all related))

theorem joins_like (rooted : f.Rooted) (h : termsLike filter filter') {more : List Demand}
    (sound : Sound f more) :
    forestLike (r.joins f (r.filterDemands f filter ++ more))
      (r.joins f (r.filterDemands f filter' ++ more)) := by
  have first : Matched Demand.Like (r.filterDemands f filter) (r.filterDemands f filter') := by
    unfold Request.filterDemands
    split
    · exact .nil
    · exact termDemands_like f.rootScope filter h
  have demands := first.append (demandsLike_of_perm (.refl more))
  have mirror (filter : Filter) :=
    joins_mirror r ((r.filterDemands_sound rooted filter).append sound)
  refine forest_like_of_mirrors (mirror filter) (mirror filter') ?_
  refine demands.map fun d e like => ?_
  obtain ⟨steps, fields⟩ := like
  exact ⟨by rw [Demand.registration, Demand.registration, steps], fields⟩

theorem plan_like (rooted : f.Rooted) (h : termsLike filter filter') {rest : PlanRest}
    (made : PlanRest.ofRequest f r = .ok rest) {p q : Option Predicate}
    (related : Option.Rel Predicate.Like p q) :
    (rest.plan f r filter p).SameUpToOrder (rest.plan f r filter' q) := by
  have later := PlanRest.demands_sound rooted made
  refine ⟨related, ?_, ?_, rfl⟩
  · rw [PlanRest.plan_joins, PlanRest.plan_joins]
    exact joins_like rooted h later
  · simp only [PlanRest.plan, Request.outputDemands, List.append_assoc]
    split
    · rw [grouping_eq, grouping_eq]
      apply eraseDups_perm
      apply List.Perm.append_left
      apply List.Perm.append_left
      apply forest_columns_like
      apply joins_like rooted h
      intro d hd
      apply later
      rw [PlanRest.demands, List.append_assoc]
      apply List.mem_append_left
      rwa [List.append_assoc]
    · exact .refl _

end

theorem ofJson_reordered (path : String) {v w : Json} (settled : v.settledFilter = true)
    (h : v.Reordered w) : Accord termsLike (Filter.ofJson path v) (Filter.ofJson path w) := by
  cases v with
  | obj ms =>
    obtain ⟨ns, rfl, h⟩ := h
    exact readTerms_reordered path ms settled h
  | arr items =>
    obtain ⟨others, rfl, -⟩ := h
    exact .error
  | _ =>
    cases h
    exact .error

theorem ofJson_fails (path : String) {v : Json} (unsettled : v.settledFilter = false)
    {filter : Filter} (h : Filter.ofJson path v = .ok filter) :
    ∃ w, v.Reordered w ∧ ∃ e, Filter.ofJson path w = .error e := by
  cases v with
  | obj ms =>
    obtain ⟨ns, reordered, fails⟩ := members_fail path ms unsettled h
    exact ⟨.obj ns, ⟨ns, rfl, reordered⟩, fails⟩
  | _ => cases h

section

variable (c : Catalog) (policy : FragmentPolicy) (r : Request)

theorem settled_plans_like (settled : r.filters.settledFilter = true) {filters : Json}
    (h : r.filters.Reordered filters) :
    Accord Plan.SameUpToOrder (Plan.ofRequest c policy r)
      (Plan.ofRequest c policy { r with filters }) := by
  cases known : c.entity? r.modelName with
  | none =>
    simp only [Plan.ofRequest, known]
    exact .error
  | some root =>
    have here := ofRequest_filters known policy r.filters
    change Plan.ofRequest c policy r = _ at here
    rw [here, ofRequest_filters known]
    refine (ofJson_reordered "filters" settled h).bind fun filter filter' like => ?_
    refine (compileFilters_like_of_terms like).bind fun p q related => ?_
    cases made : PlanRest.ofRequest ⟨c, root, policy⟩ r with
    | error e => exact .error
    | ok rest => exact .ok (plan_like (rooted_of_entity? known policy) like made related)

theorem unsettled_plan_fails (unsettled : r.filters.settledFilter = false) :
    ∃ filters, r.filters.Reordered filters ∧
      ∃ e, Plan.ofRequest c policy { r with filters } = .error e := by
  cases compiled : Plan.ofRequest c policy r with
  | error e => exact ⟨r.filters, Json.reordered_refl _, e, compiled⟩
  | ok p =>
    obtain ⟨root, known, made⟩ := ofRequest_eq_ok.mp compiled
    simp only [Plan.ofRoot, bind_eq_ok] at made
    obtain ⟨filter, read, -⟩ := made
    obtain ⟨filters, reordered, e, fails⟩ := ofJson_fails "filters" unsettled read
    refine ⟨filters, reordered, e, ?_⟩
    rw [ofRequest_filters known, fails]
    rfl

/-- The order of the keys in its filters decides nothing about a request just where the filters are
settled, or are refused in every order. -/
theorem key_order_free_iff :
    (∀ filters, r.filters.Reordered filters →
      Accord Plan.SameUpToOrder (Plan.ofRequest c policy r)
        (Plan.ofRequest c policy { r with filters })) ↔
    r.filters.settledFilter = true ∨
      ∀ filters, r.filters.Reordered filters →
        ∃ e, Plan.ofRequest c policy { r with filters } = .error e := by
  constructor
  · intro free
    rw [or_iff_not_imp_left, Bool.not_eq_true]
    intro unsettled filters reordered
    obtain ⟨refused, h, e, fails⟩ := unsettled_plan_fails c policy r unsettled
    have here := free refused h
    have there := free filters reordered
    rw [fails] at here
    generalize Plan.ofRequest c policy { r with filters := filters } = result at there
    generalize Plan.ofRequest c policy r = origin at here there
    cases here with
    | error =>
      cases there with
      | @error _ e' => exact ⟨e', rfl⟩
  · rintro (settled | refused) filters reordered
    · exact settled_plans_like c policy r settled reordered
    · obtain ⟨e, fails⟩ := refused filters reordered
      obtain ⟨e', fails'⟩ := refused r.filters (Json.reordered_refl _)
      change Plan.ofRequest c policy r = _ at fails'
      rw [fails, fails']
      exact .error

end

/-! Reviews have a field that is named like an operator. The filter that is met first, on it or on
another field, decides whether all of the condition on the reviews is a filter. -/

def reviewEntity : Entity :=
  ⟨"review", "review", none, "review_id",
    [.plain "review_id", .plain "film_id", .plain "stars", .plain "like"]⟩

def filmReviews : Association :=
  ⟨"reviews", "film", "review", .hasMany, "film_id", "film_id", none⟩

def reviewCatalog : Catalog :=
  ⟨[filmEntity, reviewEntity], [filmReviews]⟩

def likedOrStarred : Request :=
  { Request.ofModel "film" with
    filters := .obj [("reviews", .obj [
      ("or", .arr [.obj [("like", .obj [("gt", .int 10)])]]),
      ("and", .arr [.obj [("stars", .obj [("gte", .int 4)])]])])] }

def starredOrLiked : Json :=
  .obj [("reviews", .obj [
    ("and", .arr [.obj [("stars", .obj [("gte", .int 4)])]]),
    ("or", .arr [.obj [("like", .obj [("gt", .int 10)])]])])]

theorem review_key_order_decides :
    Catalog.build [.entity filmEntity, .entity reviewEntity, .association "film" filmReviews] =
        .ok reviewCatalog ∧
      likedOrStarred.filters.Reordered starredOrLiked ∧
      Plan.ofRequest reviewCatalog .reject likedOrStarred = .error (.unknownOperator "stars") ∧
      ∃ p, Plan.ofRequest reviewCatalog .reject { likedOrStarred with filters := starredOrLiked } =
        .ok p := by
  have accepted : (Plan.ofRequest reviewCatalog .reject
      { likedOrStarred with filters := starredOrLiked }).toOption.any (fun _ => true) = true := by
    decide +kernel
  obtain ⟨p, compiled, -⟩ := exists_ok_of_any accepted
  refine ⟨rfl, ⟨_, rfl, _, [], .refl _, ?_, rfl⟩, rfl, p, compiled⟩
  exact ⟨_, rfl, _, _, .swap _ _ _, Json.reordered_refl _, membersReordered_refl _⟩

end ReadPlan
