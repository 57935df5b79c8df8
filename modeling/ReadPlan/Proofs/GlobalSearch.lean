import ReadPlan.Proofs.BoundColumns
import ReadPlan.Proofs.FilterStage
import ReadPlan.Proofs.PlanRendering

/-!
Global searches. The search terms are the scalars of the filters as they are written; the plan is
that of the request without filters, up to its predicate, and no dialect renders it when there is a
search term.
-/

namespace ReadPlan

mutual

/-- The scalars that a search takes from an object, read as a filter or as an operator map. -/
def searchedMembers (reading : Reading) : List (String × Json) → List Json
  | [] => []
  | (key, v) :: rest => searched reading key v ++ searchedMembers reading rest

/-- The scalars of the value of a key. Left out are fragments, and the objects that are operands or
stand in lists. -/
def searched (reading : Reading) (key : String) : Json → List Json
  | .obj ms =>
    if isCombinator key then searchedMembers reading ms
    else
      match reading with
      | .operators => []
      | .filter =>
        if (Keyed.get? subqueryMarker ms).isSome then []
        else searchedMembers ((classify (.obj ms)).getD .filter) ms
  | .arr items =>
    match Combinator.ofToken? key with
    | some .and | some .or => searchedObjects reading items
    | some .not | none => itemScalars items
  | .null => []
  | .bool b => [.bool b]
  | .int n => [.int n]
  | .float x => [.float x]
  | .str s => [.str s]

def searchedObjects (reading : Reading) : List Json → List Json
  | [] => []
  | .obj ms :: rest => searchedMembers reading ms ++ searchedObjects reading rest
  | .arr _ :: rest | .null :: rest | .bool _ :: rest | .int _ :: rest | .float _ :: rest
  | .str _ :: rest => searchedObjects reading rest

end

def searchPatterns (ms : Json.Members) : List String :=
  (searchedMembers .filter ms).map fun v => "%" ++ Filter.searchText v ++ "%"

def searchPredicate : List String → Option Predicate
  | [] => none
  | [pattern] => some (.globalPattern pattern)
  | patterns => some (.logical .or (patterns.map .globalPattern))

-- What is under `not` is read as an operator map when it is an object, else as an operand.
mutual

theorem readClauses_searched (path : String) : (ms : Json.Members) → ∀ {clauses},
    readClauses path ms = .ok clauses → clauseScalars clauses = searchedMembers .operators ms
  | [], _, h => by
    cases h
    rfl
  | (token, operand) :: rest, _, h => by
    simp only [readClauses, bind_eq_ok, pure_eq_ok] at h
    obtain ⟨clause, first, clauses, more, rfl⟩ := h
    rw [clauseScalars, searchedMembers, readClause_searched _ token operand first,
      readClauses_searched path rest more]

theorem readClause_searched (path token : String) : (v : Json) → ∀ {clause},
    readClause path token v = .ok clause → clause.scalars = searched .operators token v
  | .obj inner, _, h => by
    simp only [readClause] at h
    split at h
    · rename_i found
      simp only [bind_eq_ok, pure_eq_ok] at h
      obtain ⟨clauses, read, rfl⟩ := h
      have under := readClauses_searched path inner read
      simp [Clause.scalars, clauseListScalars, searched, isCombinator, found, under]
    · cases h
    · rename_i none
      split at h <;> cases h
      simp [Clause.scalars, Json.scalars, searched, isCombinator, none]
  | .arr items, _, h => by
    simp only [readClause] at h
    split at h
    · rename_i found
      simp only [bind_eq_ok, pure_eq_ok] at h
      obtain ⟨children, read, rfl⟩ := h
      rw [Clause.scalars, searched, found, readClauseLists_searched path 0 items read]
    · rename_i found
      simp only [bind_eq_ok, pure_eq_ok] at h
      obtain ⟨children, read, rfl⟩ := h
      rw [Clause.scalars, searched, found, readClauseLists_searched path 0 items read]
    · rename_i notAnd notOr
      split at h <;> cases h
      rw [Clause.scalars, Json.scalars, searched]
      split
      · rename_i found
        exact absurd found notAnd
      · rename_i found
        exact absurd found notOr
      · rfl
      · rfl
  | .null, _, h | .bool _, _, h | .int _, _, h | .float _, _, h | .str _, _, h => by
    simp only [readClause] at h
    split at h
    · cases h
    · cases h
    · split at h <;> cases h
      rfl

theorem readClauseLists_searched (path : String) (index : Nat) : (vs : List Json) →
    ∀ {lists}, readClauseLists path index vs = .ok lists →
      clauseListScalars lists = searchedObjects .operators vs
  | [], _, h => by
    cases h
    rfl
  | .obj inner :: rest, _, h => by
    simp only [readClauseLists, bind_eq_ok, pure_eq_ok] at h
    obtain ⟨clauses, first, lists, more, rfl⟩ := h
    rw [clauseListScalars, searchedObjects, readClauses_searched _ inner first,
      readClauseLists_searched path (index + 1) rest more]
  | .arr _ :: _, _, h | .null :: _, _, h | .bool _ :: _, _, h | .int _ :: _, _, h
  | .float _ :: _, _, h | .str _ :: _, _, h => by cases h

end

mutual

theorem readTerms_searched (path : String) : (ms : Json.Members) → ∀ {terms},
    readTerms path ms = .ok terms → filterScalars terms = searchedMembers .filter ms
  | [], _, h => by
    cases h
    rfl
  | (key, v) :: rest, _, h => by
    simp only [readTerms] at h
    split at h
    · rename_i op found
      simp only [bind_eq_ok, map_eq_ok, pure_eq_ok] at h
      obtain ⟨_, ⟨children, first, rfl⟩, terms, more, rfl⟩ := h
      rw [filterScalars, Term.scalars, searchedMembers, readChildren_searched _ found v first,
        readTerms_searched path rest more]
    · rename_i none
      simp only [bind_eq_ok, map_eq_ok, pure_eq_ok] at h
      obtain ⟨_, ⟨condition, first, rfl⟩, terms, more, rfl⟩ := h
      rw [filterScalars, Term.scalars, searchedMembers, readCondition_searched _ none v first,
        readTerms_searched path rest more]

theorem readChildren_searched (path : String) {key : String} {op : Combinator}
    (found : Combinator.ofToken? key = some op) : (v : Json) → ∀ {children},
      readChildren path op v = .ok children → filterListScalars children = searched .filter key v
  | .obj ms, _, h => by
    simp only [readChildren] at h
    split at h
    · simp only [bind_eq_ok, pure_eq_ok] at h
      obtain ⟨terms, read, rfl⟩ := h
      have under := readTerms_searched path ms read
      simp [filterListScalars, searched, isCombinator, found, under]
    · cases h
  | .arr items, _, h => by
    cases op with
    | not =>
      simp only [readChildren] at h
      cases h
    | and | or =>
      rw [searched, found]
      exact readFilters_searched path 0 items h
  | .null, _, h | .bool _, _, h | .int _, _, h | .float _, _, h | .str _, _, h => by
    simp only [readChildren] at h
    split at h <;> cases h

theorem readFilters_searched (path : String) (index : Nat) : (vs : List Json) →
    ∀ {filters}, readFilters path index vs = .ok filters →
      filterListScalars filters = searchedObjects .filter vs
  | [], _, h => by
    cases h
    rfl
  | .obj ms :: rest, _, h => by
    simp only [readFilters, bind_eq_ok, pure_eq_ok] at h
    obtain ⟨terms, first, filters, more, rfl⟩ := h
    rw [filterListScalars, searchedObjects, readTerms_searched _ ms first,
      readFilters_searched path (index + 1) rest more]
  | .arr _ :: _, _, h | .null :: _, _, h | .bool _ :: _, _, h | .int _ :: _, _, h
  | .float _ :: _, _, h | .str _ :: _, _, h => by cases h

theorem readCondition_searched (path : String) {key : String}
    (none : Combinator.ofToken? key = none) : (v : Json) → ∀ {condition},
      readCondition path v = .ok condition → condition.scalars = searched .filter key v
  | .obj ms, _, h => by
    have field : isCombinator key = false := by rw [isCombinator, none]; rfl
    rw [searched, if_neg (by simp [field])]
    simp only [readCondition] at h
    split at h
    · rename_i marker found
      unfold readMarker at h
      split at h <;> cases h
      simp [Condition.scalars, found]
    · rename_i unmarked
      simp only [unmarked, Option.isSome_none, Bool.false_eq_true, if_false]
      split at h
      · rename_i operators
        simp only [bind_eq_ok, pure_eq_ok] at h
        obtain ⟨clauses, read, rfl⟩ := h
        rw [operators]
        exact readClauses_searched path ms read
      · rename_i nested
        simp only [bind_eq_ok, pure_eq_ok] at h
        obtain ⟨terms, read, rfl⟩ := h
        have filter : (classify (.obj ms)).getD .filter = .filter := by
          cases decided : classify (.obj ms) with
          | none => rfl
          | some reading =>
            cases reading with
            | filter => rfl
            | operators => exact absurd decided nested
        rw [filter]
        exact readTerms_searched path ms read
  | .arr items, _, h => by
    cases h
    rw [searched, none]
    rfl
  | .null, _, h | .bool _, _, h | .int _, _, h | .float _, _, h | .str _, _, h => by
    cases h
    rfl

end

theorem globalSearch_eq {path : String} {ms : Json.Members} {filter : Filter}
    (read : readTerms path ms = .ok filter) :
    filter.globalSearch = searchPredicate (searchPatterns ms) := by
  rw [Filter.globalSearch, readTerms_searched path ms read, searchPatterns]
  match searchedMembers .filter ms with
  | [] | [_] => rfl
  | v :: w :: rest => simp [Predicate.combine, searchPredicate]

/-! The plan is that of the request without filters, up to the predicate. -/

theorem search_plan {r : Request} (searches : r.globalSearch = true) (f : Frame) (filter : Filter)
    (predicate : Option Predicate) (rest : PlanRest) :
    rest.plan f r filter predicate = { rest.plan f r [] none with predicate } := by
  simp [PlanRest.plan, Request.outputDemands, Request.filterDemands, searches]

theorem search_compiles {c : Catalog} {policy : FragmentPolicy} {r : Request}
    (searches : r.globalSearch = true) (p : Plan) :
    Plan.ofRequest c policy r = .ok p ↔ ∃ ms filter bare, r.filters = .obj ms ∧
      readTerms "filters" ms = .ok filter ∧
      Plan.ofRequest c policy { r with filters := .obj [] } = .ok bare ∧
      p = { bare with predicate := searchPredicate (searchPatterns ms) } := by
  cases known : c.entity? r.modelName with
  | none => simp [Plan.ofRequest, known]
  | some root =>
    have whole := ofRequest_filters known policy r.filters
    have bare := ofRequest_filters known policy (.obj [])
    have compiles (filter : Filter) :
        r.compileFilters ⟨c, root, policy⟩ filter = .ok filter.globalSearch := by
      rw [Request.compileFilters, if_pos searches]
    have empty : Filter.ofJson "filters" (.obj []) = .ok [] := rfl
    simp only [compiles, ok_bind] at whole
    simp only [empty, compiles, ok_bind] at bare
    rw [whole, bare]
    simp only [bind_eq_ok, pure_eq_ok]
    constructor
    · rintro ⟨filter, read, rest, made, rfl⟩
      cases given : r.filters with
      | obj ms =>
        rw [given] at read
        refine ⟨ms, filter, _, rfl, read, ⟨rest, made, rfl⟩, ?_⟩
        rw [search_plan searches, globalSearch_eq read]
        rfl
      | _ =>
        rw [given] at read
        cases read
    · rintro ⟨ms, filter, _, given, read, ⟨rest, made, rfl⟩, rfl⟩
      refine ⟨filter, by rwa [given], rest, made, ?_⟩
      rw [search_plan searches, globalSearch_eq read]
      rfl

/-! Rendering stops at the first search term. -/

/-- Any error but that of a search term, which no column is bound to. -/
def QueryError.OfBound : QueryError → Prop
  | .unboundPattern _ => False
  | _ => True

/-- A run that ends at the first pattern, and in a result or for another reason when there is
none. -/
def Reports {α : Type} (first? : Option String) (r : Except QueryError α) : Prop :=
  match first? with
  | some pattern => r = .error (.unboundPattern pattern)
  | none => Raises QueryError.OfBound r

namespace Reports

variable {α β : Type} {first? : Option String}

theorem iff {r : Except QueryError α} (h : Reports first? r) (pattern : String) :
    r = .error (.unboundPattern pattern) ↔ first? = some pattern := by
  cases first? with
  | some first =>
    rw [Reports] at h
    simp [h]
  | none =>
    constructor
    · intro failed
      exact (h _ failed).elim
    · intro given
      cases given

theorem bind {r : Except QueryError α} {k : α → Except QueryError β} (hr : Reports first? r)
    (hk : ∀ a, r = .ok a → Raises QueryError.OfBound (k a)) : Reports first? (r >>= k) := by
  cases first? with
  | some first =>
    rw [Reports] at hr
    rw [hr]
    rfl
  | none => exact Raises.bind hr hk

theorem after {r : Except QueryError α} {k : α → Except QueryError β} (hr : Settles none r)
    (hk : ∀ a, r = .ok a → Reports first? (k a)) : Reports first? (r >>= k) := by
  obtain ⟨a, rfl⟩ := hr
  exact hk a rfl

end Reports

theorem raises_of_settles {α : Type} {P : QueryError → Prop} {fault? : Option QueryError}
    {r : Except QueryError α} (h : Settles fault? r) (fault : ∀ e ∈ fault?, P e) : Raises P r := by
  cases fault? with
  | some e =>
    rw [Settles] at h
    exact h ▸ .error (fault e rfl)
  | none =>
    obtain ⟨a, rfl⟩ := h
    exact .ok a

section

variable {c : Catalog} {d : Dialect} {P : QueryError → Prop} {Q : Predicate → Prop}

mutual

theorem expr_raises (leaf : ∀ p, Q p → Raises P (p.expr c d)) :
    (p : Predicate) → p.Each Q → Raises P (p.expr c d)
  | .comparison _, h | .qualified .., h | .fragment .., h | .globalPattern _, h => leaf _ h
  | .logical _ children, h => (exprs_raises leaf children h).bind fun _ _ => .ok _

theorem exprs_raises (leaf : ∀ p, Q p → Raises P (p.expr c d)) :
    (ps : List Predicate) → predicatesEach Q ps → Raises P (Predicate.exprs c d ps)
  | [], _ => .ok _
  | p :: rest, h =>
    (expr_raises leaf p h.1).bind fun _ _ => (exprs_raises leaf rest h.2).bind fun _ _ => .ok _

end

def Predicate.IsFitting : Predicate → Prop
  | .comparison x => x.operand.fits x.operator = true
  | _ => False

theorem fitting_raises (p : Predicate) (h : p.IsFitting) :
    Raises QueryError.OfBound (p.expr c d) := by
  cases p with
  | comparison x =>
    refine raises_of_settles (comparison_settles h) fun e he => ?_
    unfold arrayError? at he
    split at he
    · cases he
    · obtain ⟨x, -, rfl⟩ := Option.map_eq_some_iff.mp he
      trivial
  | _ => cases h

theorem having_fits {f : Frame} {aggregates : List Aggregate} {filter : Filter}
    {p : Option Predicate} (h : Having.compile f aggregates filter = .ok p) :
    predicatesEach Predicate.IsFitting p.toList := by
  refine having_compile_each (W := fun _ => True) ?_ (fun _ _ => trivial) h
  intro key a _ op v p _ made
  simp only [Having.compare, bind_eq_ok, pure_eq_ok] at made
  obtain ⟨operand, read, rfl⟩ := made
  exact (Operand.ofJson_spec read).1

theorem clause_raises {p : Option Predicate} (h : predicatesEach Predicate.IsFitting p.toList) :
    Raises QueryError.OfBound (p.mapM (Predicate.expr c d)) := by
  cases p with
  | none => exact .ok none
  | some p => exact (expr_raises fitting_raises p h.1).map some

theorem search_reports (patterns : List String) :
    Reports patterns.head? ((searchPredicate patterns).mapM (Predicate.expr c d)) := by
  match patterns with
  | [] => exact .ok none
  | [_] | _ :: _ :: _ => rfl

/-- What rendering a search needs to get to its predicate, and beyond it when there is no term. -/
structure Plan.Searches (c : Catalog) (patterns : List String) (p : Plan) : Prop where
  root : ∃ e, c.entity? p.entity = some e
  joins : ∀ j ∈ p.allJoins, j.Grounded c
  predicate : p.predicate = searchPredicate patterns
  having : predicatesEach Predicate.IsFitting p.having.toList

variable {patterns : List String} {p : Plan}

theorem query_reports (valid : c.Valid) (h : p.Searches c patterns) :
    Reports patterns.head? (p.query c d) := by
  obtain ⟨root, found⟩ := h.root
  refine .after (requireEntity_settles found) fun root _ => ?_
  refine .after (allParts_settle valid h.joins) fun parts _ => ?_
  rw [h.predicate]
  refine (search_reports patterns).bind fun filter _ => ?_
  exact (clause_raises h.having).bind fun having _ => .ok _

theorem rowsStatement_reports (valid : c.Valid) (h : p.Searches c patterns) :
    Reports patterns.head? (p.rowsStatement c d) := by
  refine (query_reports valid h).bind fun q _ => ?_
  split
  · exact .ok _
  · exact .error trivial

theorem totalStatement_reports (valid : c.Valid) (h : p.Searches c patterns) :
    Reports patterns.head? (p.totalStatement c d) := by
  have pageless : p.withoutPage.Searches c patterns := ⟨h.root, h.joins, h.predicate, h.having⟩
  exact (rowsStatement_reports valid pageless).bind fun sql _ => .ok _

end

theorem searches_of_ofRequest {c : Catalog} {policy : FragmentPolicy} {r : Request} {p : Plan}
    {ms : Json.Members} (searches : r.globalSearch = true) (given : r.filters = .obj ms)
    (h : Plan.ofRequest c policy r = .ok p) : p.Searches c (searchPatterns ms) := by
  obtain ⟨f, demands, rfl, bound⟩ := bound_of_ofRequest h
  constructor
  case root => exact ⟨f.root, bound.entity ▸ bound.rooted⟩
  case joins =>
    rw [Plan.allJoins, bound.joins]
    exact joins_grounded r bound.sound.grounded
  case predicate =>
    obtain ⟨_, -, bare, same, -, -, whole⟩ := (search_compiles searches p).mp h
    cases given.symm.trans same
    exact congrArg Plan.predicate whole
  case having =>
    obtain ⟨root, filter, rest, -, -, -, made, whole⟩ := stages_of_ofRequest h
    simp only [PlanRest.ofRequest, bind_eq_ok, pure_eq_ok] at made
    obtain ⟨_, -, _, -, _, -, conditions, -, condition, grouped, _, -, rfl⟩ := made
    rw [whole]
    exact having_fits grouped

/-- A global search compiles when its filters have the shape of filters and the request compiles
without them. It then looks for every scalar of the filters, joins what the rest of the request
joins, and is rendered in a dialect only if there is nothing to look for: otherwise the first search
term is reported. -/
theorem global_search_takes_scalars {declarations : List Declaration} {c : Catalog}
    (built : Catalog.build declarations = .ok c) (policy : FragmentPolicy) {r : Request}
    (searches : r.globalSearch = true) :
    (∀ p, Plan.ofRequest c policy r = .ok p ↔ ∃ ms filter bare, r.filters = .obj ms ∧
      readTerms "filters" ms = .ok filter ∧
      Plan.ofRequest c policy { r with filters := .obj [] } = .ok bare ∧
      p = { bare with predicate := searchPredicate (searchPatterns ms) }) ∧
    ∀ p ms, Plan.ofRequest c policy r = .ok p → r.filters = .obj ms → ∀ d pattern,
      (p.rowsStatement c d = .error (.unboundPattern pattern) ↔
        (searchPatterns ms).head? = some pattern) ∧
      (p.totalStatement c d = .error (.unboundPattern pattern) ↔
        (searchPatterns ms).head? = some pattern) := by
  have valid := Catalog.valid_of_build built
  refine ⟨search_compiles searches, ?_⟩
  intro p ms compiled given d pattern
  have ready := searches_of_ofRequest searches given compiled
  exact ⟨(rowsStatement_reports valid ready).iff pattern,
    (totalStatement_reports valid ready).iff pattern⟩

def searchedFilters : Json.Members := [
  ("nowhere", .obj [("like", .str "A")]),
  ("or", .arr [.obj [("language", .obj [
    ("x", .arr [.int 1, .arr [.bool true], .obj [("y", .int 3)], .null])])]]),
  ("actors", .obj [("subquery", .str "last_name = 'Z'")])]

def searchedRequest : Request :=
  { Request.ofModel "film" with filters := .obj searchedFilters, globalSearch := true }

theorem film_search_takes_scalars :
    ∃ p, Plan.ofRequest filmCatalog .reject searchedRequest = .ok p ∧ p.joins.isEmpty = true ∧
      p.predicate = some (.logical .or
        [.globalPattern "%A%", .globalPattern "%1%", .globalPattern "%true%"]) ∧
      ∀ d, p.rowsStatement filmCatalog d = .error (.unboundPattern "%A%") := by
  have runs : (Plan.ofRequest filmCatalog .reject { searchedRequest with filters := .obj [] }
      ).toOption.any (·.joins.isEmpty) = true := by
    decide +kernel
  have patterns : searchPatterns searchedFilters = ["%A%", "%1%", "%true%"] := by
    decide +kernel
  obtain ⟨bare, compiled, none⟩ := exists_ok_of_any runs
  obtain ⟨compiles, reports⟩ :=
    global_search_takes_scalars film_build .reject (r := searchedRequest) rfl
  have found := (compiles _).mpr ⟨searchedFilters, _, bare, rfl, rfl, compiled, rfl⟩
  refine ⟨_, found, none, ?_, fun d => ?_⟩
  · rw [patterns]
    rfl
  · refine (reports _ _ found rfl d _).1.mpr ?_
    rw [patterns]
    rfl

end ReadPlan
