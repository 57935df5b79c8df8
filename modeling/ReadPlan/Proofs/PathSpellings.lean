import ReadPlan.Proofs.ReturnedColumns

namespace ReadPlan

def Json.Unmarked (v : Json) : Prop :=
  ∀ ms, v = .obj ms → Keyed.get? subqueryMarker ms = none

theorem unmarked_of_read {path : String} {v : Json} {condition : Condition} (unmarked : v.Unmarked)
    (read : readCondition path v = .ok condition) : ∀ sql, condition ≠ .subquery sql := by
  rintro sql rfl
  cases v with
  | obj ms =>
    rw [readCondition, unmarked ms rfl] at read
    cases h : classify (.obj ms) with
    | none => simp [h, map_eq_ok] at read
    | some reading => cases reading <;> simp [h, map_eq_ok] at read
  | _ => cases read

theorem scalars_under (condition : Condition) (groups : List (List String)) :
    (condition.under groups).scalars = condition.scalars := by
  induction groups with
  | nil => rfl
  | cons group groups ih =>
    simp [Condition.under, Condition.scalars, filterScalars, Term.scalars, ih]

theorem ofJson_spelled {group : List String} {more : List (List String)}
    (keys : ∀ key ∈ group :: more, FieldKey (dottedPath key)) (v : Json) :
    Alike (fun filter condition => filter = [.field (dottedPath group) (condition.under more)])
      (Filter.ofJson "filters" (spelled v (group :: more))) (readCondition "filters" v) := by
  obtain ⟨here, others⟩ := List.forall_mem_cons.mp keys
  have read : Filter.ofJson "filters" (spelled v (group :: more)) =
      (fun condition => [Term.field (dottedPath group) condition]) <$>
        readCondition (childPath "filters" (dottedPath group)) (spelled v more) := by
    simp only [Filter.ofJson, spelled, readTerms, here.combinator]
    cases readCondition (childPath "filters" (dottedPath group)) (spelled v more) <;> rfl
  rw [read]
  apply (readCondition_spelled others _ "filters" v).map_left
  rintro _ condition rfl
  rfl

/-- The field that a path returns at the end of a chain of names, by its innermost key. -/
def Request.addedAt (r : Request) (names : List String) (field : String)
    (groups : List (List String)) (trail : List String) : List String :=
  if r.globalSearch = false ∧ trail = names ∧ endsBare groups field = true then [field] else []

section

variable {f : Frame} {names group : List String} {field : String} {more : List (List String)}
  {condition : Condition} {target : Entity} {x : Field}

theorem endsBare_cons (joined : names ≠ []) (cut : Cut names field [] group more) :
    endsBare (group :: more) field = true ↔ more.getLast? = some [field] := by
  cases more with
  | nil =>
    have whole := cut.complete
    simp_all [endsBare]
  | cons next more => simp [endsBare, List.getLast?_cons_cons]

section

variable (valid : f.catalog.Valid) (rooted : f.Rooted)
  (path : f.catalog.FieldPath f.root.name names field) (r : Request)
  (cut : Cut names field [] group more) {steps : List Association}
  (followed : f.catalog.follow f.root.name names = .ok steps)

include valid rooted path cut followed in
theorem demands_spelled (unmarked : ∀ sql, condition ≠ .subquery sql)
    (bound : r.globalSearch = false → ∀ v, condition ≠ .scalar v) :
    ∃ passes, r.filterDemands f [.field (dottedPath group) (condition.under more)] =
        passes ++ (if r.globalSearch then [] else condition.references.flatMap f.demand) ∧
      (∀ options, (passes.map (·.steps)).foldl
          (fun forest steps => JoinForest.graft options f.root.name [] steps forest) [] =
        if r.globalSearch then [] else JoinForest.graft options f.root.name [] steps []) ∧
      (r.globalSearch = false → ∃ d ∈ passes, d.registration.names = names) ∧
      (f.catalog.PlainFields → ∀ trail, returnedAt trail passes =
        r.addedAt names field (group :: more) trail) := by
  cases search : r.globalSearch with
  | true => exact ⟨[], by simp [Request.filterDemands, search], by simp, by simp,
      by simp [returnedAt, Request.addedAt, search]⟩
  | false =>
    obtain ⟨target, there⟩ := reach_of_follow valid rooted followed
    obtain ⟨⟨x, declared⟩, -⟩ := path.ended rooted there
    have here : f.reach [] = .ok f.root := rfl
    obtain ⟨passes, h, demanded⟩ :=
      path.demands_cut valid rooted cut here there declared unmarked (bound search)
    refine ⟨passes, ?_, ?_, fun _ => h.ends.resolve_left path.joined.symm, ?_⟩
    · simp [Request.filterDemands, search, Filter.demands, termDemands, Term.demands,
        Frame.rootScope, demanded]
    · intro options
      rw [if_neg (by simp)]
      exact h.grafts options [] steps rfl followed
    · intro plain trail
      rw [h.returns plain, Request.addedAt]
      simp only [search, true_and, endsBare_cons path.joined cut]

omit cut in
include valid rooted path followed in
theorem compileFilters_spelled {group' : List String} {more' : List (List String)}
    (cut : Cut names field [] group more) (cut' : Cut names field [] group' more')
    (unmarked : ∀ sql, condition ≠ .subquery sql) :
    Alike (fun p q => p.map Predicate.unnamed = q.map Predicate.unnamed ∧
        (r.globalSearch = false → ∀ v, condition ≠ .scalar v))
      (r.compileFilters f [.field (dottedPath group) (condition.under more)])
      (r.compileFilters f [.field (dottedPath group') (condition.under more')]) := by
  unfold Request.compileFilters
  cases r.globalSearch with
  | true =>
    refine .ok ⟨?_, by simp⟩
    simp [Filter.globalSearch, filterScalars, Term.scalars, scalars_under]
  | false =>
    obtain ⟨target, there⟩ := reach_of_follow valid rooted followed
    obtain ⟨⟨x, declared⟩, -⟩ := path.ended rooted there
    have here : f.reach [] = .ok f.root := rfl
    have whole {group : List String} {more : List (List String)}
        (cut : Cut names field [] group more) : ∃ key name,
          Filter.compile f [.field (dottedPath group) (condition.under more)] =
            Predicate.all <$> f.condition key
              ⟨⟨name, ⟨f.relation names, x.column⟩⟩, some (f.relation names)⟩ condition := by
      obtain ⟨key, name, made⟩ := path.compile_cut valid rooted cut here there declared unmarked
      refine ⟨key, name, ?_⟩
      simp only [Filter.compile, compileTerms, Term.compile, Frame.rootScope, made, ok_bind,
        bind_assoc, pure_bind, List.append_nil, map_eq_pure_bind]
    obtain ⟨key, name, first⟩ := whole cut
    obtain ⟨key', name', second⟩ := whole cut'
    simp only [Bool.false_eq_true, if_false, first, second]
    by_cases bare : ∃ v, condition = .scalar v
    · obtain ⟨v, rfl⟩ := bare
      exact .error rfl
    · refine (Frame.condition_alike ?_ condition).map ?_
      · rfl
      · intro ps qs related
        rw [← Predicate.unnamed_all, ← Predicate.unnamed_all, related.unnamed rfl]
        exact ⟨rfl, fun _ v scalar => bare ⟨v, scalar⟩⟩

def Request.sharedDemands (f : Frame) (r : Request) (condition : Condition) (rest : PlanRest) :
    List Demand :=
  (if r.globalSearch then [] else condition.references.flatMap f.demand) ++ rest.demands f r

include valid rooted path cut followed in
theorem joins_spelled (unmarked : ∀ sql, condition ≠ .subquery sql)
    (bound : r.globalSearch = false → ∀ v, condition ≠ .scalar v) {rest : PlanRest}
    (made : PlanRest.ofRequest f r = .ok rest) {joins : JoinForest}
    (joined : joins = r.joins f
      (r.filterDemands f [.field (dottedPath group) (condition.under more)] ++ rest.demands f r)) :
    bareForest joins = ((r.sharedDemands f condition rest).map (·.steps)).foldl
        (fun forest steps => JoinForest.graft r.joinOptions f.root.name [] steps forest)
        (if r.globalSearch then []
          else JoinForest.graft r.joinOptions f.root.name [] steps []) ∧
      (r.globalSearch = false → (JoinForest.find? names joins).isSome = true) ∧
      (f.catalog.PlainFields → ∀ trail j, JoinForest.find? trail joins = some j →
        j.projected = (r.addedAt names field (group :: more) trail ++
          selectedAt trail (r.effectiveSelect.getD [])).eraseDups) := by
  subst joined
  obtain ⟨passes, demanded, grafted, ends, returns⟩ :=
    demands_spelled valid rooted path r cut followed unmarked bound
  have whole : r.filterDemands f [.field (dottedPath group) (condition.under more)] ++
      rest.demands f r = passes ++ r.sharedDemands f condition rest := by
    rw [demanded, Request.sharedDemands, List.append_assoc]
  have sound := PlanRest.all_sound rooted [.field (dottedPath group) (condition.under more)] made
  rw [whole] at sound ⊢
  refine ⟨?_, ?_, ?_⟩
  · rw [Request.joins, JoinForest.ofDemands_bare, List.map_append, List.foldl_append, grafted]
  · intro search
    obtain ⟨d, hd, complete⟩ := ends search
    have known : d.registration ∈
        (passes ++ r.sharedDemands f condition rest).map (·.registration) :=
      List.mem_map_of_mem (List.mem_append_left _ hd)
    exact ((joins_mirror r sound).isSome_iff names).mpr
      ⟨path.joined, _, known, complete ▸ List.prefix_refl _⟩
  · intro plain trail j found
    obtain ⟨target, reached, -⟩ := reach_of_join valid rooted sound found
    have fieldless : Fieldless (if r.globalSearch then []
        else condition.references.flatMap f.demand) := by
      split
      · simp [Fieldless]
      · exact references_fieldless f condition.references
    rw [projected_of_demands sound found, returnedAt_append, returns plain, Request.sharedDemands,
      returnedAt_append, returnedAt_fieldless trail fieldless, List.nil_append,
      rest_returnedAt (JoinForest.ne_nil_of_find? found) reached]

end

end

/-- Two plans of a request whose filters are one path, cut into keys in two ways. They differ in
recorded names and, by what the innermost keys add, in the returned fields. -/
structure Plan.SpelledAlike (c : Catalog) (r : Request) (names : List String) (field : String)
    (groups groups' : List (List String)) (p q : Plan) : Prop where
  predicate : p.predicate.map Predicate.unnamed = q.predicate.map Predicate.unnamed
  joins : bareForest p.joins = bareForest q.joins
  joined : r.globalSearch = false → (JoinForest.find? names p.joins).isSome = true
  /-- All else that a join returns is selected through it. -/
  returned : c.PlainFields → ∀ trail,
    (∀ j, JoinForest.find? trail p.joins = some j → j.projected =
      (r.addedAt names field groups trail ++
        selectedAt trail (r.effectiveSelect.getD [])).eraseDups) ∧
    (∀ k, JoinForest.find? trail q.joins = some k → k.projected =
      (r.addedAt names field groups' trail ++
        selectedAt trail (r.effectiveSelect.getD [])).eraseDups)

/-- However the path to a field is cut into keys, a condition on it is refused for one kind of
reason or means the same; only a bare innermost key makes the last join return the field. -/
theorem path_spellings_agree {declarations : List Declaration} {c : Catalog}
    (built : Catalog.build declarations = .ok c) (policy : FragmentPolicy) {r : Request}
    {names : List String} {field : String} (path : c.FieldPath r.modelName names field) {m : Json}
    (unmarked : m.Unmarked) {groups groups' : List (List String)} (cuts : Cuts groups names field)
    (cuts' : Cuts groups' names field) :
    Alike (Plan.SpelledAlike c r names field groups groups')
      (Plan.ofRequest c policy { r with filters := spelled m groups })
      (Plan.ofRequest c policy { r with filters := spelled m groups' }) := by
  have valid := Catalog.valid_of_build built
  cases known : c.entity? r.modelName with
  | none =>
    simp only [Plan.ofRequest, known]
    exact .error rfl
  | some root =>
    have rooted := rooted_of_entity? known policy
    rw [← Catalog.name_of_entity? known] at path
    obtain ⟨group, more, rfl, cut⟩ := cuts.keys
    obtain ⟨group', more', rfl, cut'⟩ := cuts'.keys
    obtain ⟨steps, followed, -⟩ := path.leads
    rw [ofRequest_filters known, ofRequest_filters known]
    have read := (ofJson_spelled (path.fieldKeys cuts) m).through
      (ofJson_spelled (path.fieldKeys cuts') m)
    refine read.bind ?_
    rintro _ _ ⟨condition, reads, rfl, rfl⟩
    have unmarked := unmarked_of_read unmarked reads
    refine (compileFilters_spelled valid rooted path r followed cut cut' unmarked).bind ?_
    rintro p q ⟨same, bound⟩
    cases made : PlanRest.ofRequest ⟨c, root, policy⟩ r with
    | error e => exact .error rfl
    | ok rest =>
      obtain ⟨shape, joined, returned⟩ :=
        joins_spelled valid rooted path r cut followed unmarked bound made
          (rest.plan_joins _ r _ p)
      obtain ⟨shape', -, returned'⟩ :=
        joins_spelled valid rooted path r cut' followed unmarked bound made
          (rest.plan_joins _ r _ q)
      refine .ok ⟨same, shape.trans shape'.symm, joined, ?_⟩
      intro plain trail
      exact ⟨returned plain trail, returned' plain trail⟩

theorem language_name_leads : filmCatalog.FieldPath "film" ["language"] "name" where
  joined := by decide
  leads := ⟨[filmLanguage], rfl, by decide⟩
  plain := by
    intro name named
    rcases List.mem_cons.mp named with rfl | named
    · exact ⟨by decide, by decide, by decide, by decide⟩
    · rw [List.mem_singleton.mp named]
      exact ⟨by decide, by decide, by decide, by decide⟩
  apart := by
    intro before name on steps followed declared
    match before with
    | [] =>
      obtain rfl : name = "language" := by simpa using on
      cases followed
      exact absurd declared (by decide)
    | [first] =>
      obtain ⟨rfl, rfl⟩ : first = "language" ∧ name = "name" := by simpa using on
      cases followed
      decide
    | first :: second :: rest => simp at on

/-- `{"language.name": {"eq": "English"}}` and `{"language": {"name": {"eq": "English"}}}`. The
first returns no field of the language. -/
theorem film_path_spellings_agree : ∃ p q,
    Plan.ofRequest filmCatalog .reject { Request.ofModel "film" with
      filters := .obj [("language.name", .obj [("eq", .str "English")])] } = .ok p ∧
    Plan.ofRequest filmCatalog .reject { Request.ofModel "film" with
      filters := .obj [("language", .obj [("name", .obj [("eq", .str "English")])])] } = .ok q ∧
    p.joins.map (·.projected) = [[]] ∧
    Plan.SpelledAlike filmCatalog (Request.ofModel "film") ["language"] "name"
      [["language", "name"]] [["language"], ["name"]] p q := by
  have runs : (Plan.ofRequest filmCatalog .reject { Request.ofModel "film" with
      filters := .obj [("language.name", .obj [("eq", .str "English")])] }).toOption.any (fun p =>
        p.joins.map (·.projected) = [[]]) = true := by
    decide +kernel
  obtain ⟨p, first, returned⟩ := exists_ok_of_any runs
  have unmarked : Json.Unmarked (.obj [("eq", .str "English")]) := by
    rintro _ ⟨⟩
    rfl
  have dotted : Cuts [["language", "name"]] ["language"] "name" := ⟨rfl, by decide⟩
  have nested : Cuts [["language"], ["name"]] ["language"] "name" := ⟨rfl, by decide⟩
  have alike := path_spellings_agree film_build .reject (r := Request.ofModel "film")
    language_name_leads unmarked dotted nested
  obtain ⟨q, second, related⟩ := alike.ok_left first
  exact ⟨p, q, first, second, of_decide_eq_true returned, related⟩

end ReadPlan
