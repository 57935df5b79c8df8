import ReadPlan.Proofs.PlanJoins
import ReadPlan.Proofs.PredicateLeaves

/-!
Raw SQL fragments. A compiled predicate holds the fragments that its filter marks, in order, and
conditions on groups hold none. So a policy that rejects fragments refuses every request that marks
one, and makes no difference to any other.
-/

namespace ReadPlan

def Condition.marker? : Condition → Option String
  | .subquery sql => some sql
  | .operators _ | .nested _ | .scalar _ => none

def markers (leaves : List Condition) : List String :=
  leaves.filterMap Condition.marker?

theorem markers_append (leaves more : List Condition) :
    markers (leaves ++ more) = markers leaves ++ markers more :=
  List.filterMap_append

mutual

def Predicate.fragments : Predicate → List String
  | .fragment sql _ => [sql]
  | .logical _ children => predicateFragments children
  | .comparison _ | .qualified .. | .globalPattern _ => []

def predicateFragments : List Predicate → List String
  | [] => []
  | p :: rest => p.fragments ++ predicateFragments rest

end

theorem predicateFragments_append (ps qs : List Predicate) :
    predicateFragments (ps ++ qs) = predicateFragments ps ++ predicateFragments qs := by
  induction ps with
  | nil => rfl
  | cons p rest ih => rw [List.cons_append, predicateFragments, ih, predicateFragments,
      List.append_assoc]

@[simp] theorem predicateFragments_all (ps : List Predicate) :
    predicateFragments (Predicate.all ps).toList = predicateFragments ps := by
  match ps with
  | [] | [_] => rfl
  | _ :: _ :: _ =>
    simp [Predicate.all, predicateFragments, Predicate.fragments]

@[simp] theorem predicateFragments_combine (op : Combinator) (ps : List Predicate) :
    predicateFragments (Predicate.combine op ps).toList = predicateFragments ps := by
  cases op with
  | and => exact predicateFragments_all ps
  | or | not =>
    match ps with
    | [] | [_] => simp [Predicate.combine, Predicate.all, predicateFragments, Predicate.fragments]
    | _ :: _ :: _ =>
      simp [Predicate.combine, Predicate.all, predicateFragments, Predicate.fragments]

def Predicate.IsFragmentless (p : Predicate) : Prop :=
  p.fragments = []

mutual

theorem Predicate.Each.fragments_eq_nil :
    (p : Predicate) → p.Each Predicate.IsFragmentless → p.fragments = []
  | .comparison _, h | .qualified .., h | .fragment .., h | .globalPattern _, h => h
  | .logical _ children, h => predicateFragments_eq_nil children h

theorem predicateFragments_eq_nil : (ps : List Predicate) →
    predicatesEach Predicate.IsFragmentless ps → predicateFragments ps = []
  | [], _ => rfl
  | p :: rest, h => by
    rw [predicateFragments, Predicate.Each.fragments_eq_nil p h.1,
      predicateFragments_eq_nil rest h.2, List.append_nil]

end

/-! Compiling keeps the fragments. -/

mutual

theorem Term.leaves_of_firstFieldKey : (t : Term) → t.firstFieldKey = none → t.leaves = []
  | .logical _ children, h => filterLeaves_of_firstKey children h
  | .field .., h => by cases h

theorem termLeaves_of_firstFieldKey :
    (terms : List Term) → firstFieldKey terms = none → termLeaves terms = []
  | [], _ => rfl
  | t :: rest, h => by
    obtain ⟨here, others⟩ := Option.or_eq_none_iff.mp h
    rw [termLeaves, t.leaves_of_firstFieldKey here, termLeaves_of_firstFieldKey rest others]
    rfl

theorem filterLeaves_of_firstKey :
    (filters : List (List Term)) → firstKeyOfFilters filters = none → filterLeaves filters = []
  | [], _ => rfl
  | terms :: rest, h => by
    obtain ⟨here, others⟩ := Option.or_eq_none_iff.mp h
    rw [filterLeaves, termLeaves_of_firstFieldKey terms here, filterLeaves_of_firstKey rest others]
    rfl

end

section

variable {f : Frame}

theorem compare_fragmentless {key : String} {bound : BoundField} {op : Operator} {v : Json}
    {p : Predicate} (h : f.compare key bound op v = .ok p) : p.IsFragmentless := by
  simp only [Frame.compare, bind_eq_ok, pure_eq_ok] at h
  obtain ⟨operand, -, rfl⟩ := h
  split <;> rfl

theorem fragment_fragments {s : Scope} {key sql : String} {p : Predicate}
    (h : f.fragment s key sql = .ok p) : p.fragments = [sql] := by
  simp only [Frame.fragment] at h
  split at h
  · cases h
  · split at h
    · cases h
      rfl
    · split at h <;> cases h
      rfl

mutual

theorem compileTerms_fragments (s : Scope) : (terms : List Term) → ∀ {ps},
    compileTerms f s terms = .ok ps → predicateFragments ps = markers (termLeaves terms)
  | [], _, h => by
    cases h
    rfl
  | t :: rest, _, h => by
    simp only [compileTerms, bind_eq_ok, pure_eq_ok] at h
    obtain ⟨ps, first, qs, more, rfl⟩ := h
    rw [predicateFragments_append, term_compile_fragments s t first,
      compileTerms_fragments s rest more, termLeaves, markers_append]

theorem term_compile_fragments (s : Scope) : (t : Term) → ∀ {ps},
    t.compile f s = .ok ps → predicateFragments ps = markers t.leaves
  | .logical op children, _, h => by
    simp only [Term.compile, bind_eq_ok, pure_eq_ok] at h
    obtain ⟨ps, made, rfl⟩ := h
    rw [predicateFragments_combine, compileFilters_fragments s children made]
    rfl
  | .field key condition, _, h => condition_compile_fragments s key condition h

theorem compileFilters_fragments (s : Scope) : (filters : List (List Term)) → ∀ {ps},
    compileFilters f s filters = .ok ps → predicateFragments ps = markers (filterLeaves filters)
  | [], _, h => by
    cases h
    rfl
  | terms :: rest, _, h => by
    simp only [compileFilters, bind_eq_ok, pure_eq_ok] at h
    obtain ⟨ps, first, qs, more, rfl⟩ := h
    rw [predicateFragments_append, predicateFragments_all, compileTerms_fragments s terms first,
      compileFilters_fragments s rest more, filterLeaves, markers_append]

theorem condition_compile_fragments (s : Scope) (key : String) : (condition : Condition) →
    ∀ {ps}, condition.compile f s key = .ok ps → predicateFragments ps = markers condition.leaves
  | .subquery sql, _, h => by
    simp only [Condition.compile, bind_eq_ok, pure_eq_ok] at h
    obtain ⟨p, made, rfl⟩ := h
    rw [predicateFragments, fragment_fragments made]
    rfl
  | .operators clauses, _, h => by
    simp only [Condition.compile, bind_eq_ok] at h
    obtain ⟨place, -, h⟩ := h
    split at h
    · cases h
    · simp only [bind_eq_ok, pure_eq_ok] at h
      obtain ⟨bound, -, ps, made, rfl⟩ := h
      rw [predicateFragments_all, predicateFragments_eq_nil]
      · rfl
      · refine compileClauses_each (W := fun _ => True) (R := fun _ => True) ?_ clauses
          (fun _ _ => trivial) (fun _ _ => trivial) made
        exact fun _ _ made => (compare_each_iff made).mpr (compare_fragmentless made)
  | .nested terms, _, h => by
    simp only [Condition.compile, bind_eq_ok] at h
    obtain ⟨place, -, h⟩ := h
    split at h
    · simp only [bind_eq_ok, pure_eq_ok] at h
      obtain ⟨e, -, ps, made, rfl⟩ := h
      rw [predicateFragments_all, compileTerms_fragments _ terms made]
      rfl
    · simp only [bind_eq_ok] at h
      obtain ⟨bound, -, h⟩ := h
      split at h
      · rename_i bare
        cases h
        rw [Condition.leaves, termLeaves_of_firstFieldKey terms bare]
        rfl
      · cases h
  | .scalar _, _, h => by
    simp only [Condition.compile, bind_eq_ok] at h
    obtain ⟨place, -, h⟩ := h
    split at h
    · cases h
    · simp only [bind_eq_ok] at h
      obtain ⟨bound, -, h⟩ := h
      cases h

end

theorem filter_compile_fragments {filter : Filter} {p : Option Predicate}
    (h : filter.compile f = .ok p) :
    predicateFragments p.toList = markers (termLeaves filter) := by
  simp only [Filter.compile, bind_eq_ok, pure_eq_ok] at h
  obtain ⟨ps, made, rfl⟩ := h
  rw [predicateFragments_all, compileTerms_fragments f.rootScope filter made]

/-- Where fragments are rejected, only a filter that marks none is compiled. -/
theorem filter_compile_reject (rejects : f.policy = .reject) {filter : Filter}
    {p : Option Predicate} (h : filter.compile f = .ok p) : predicateFragments p.toList = [] := by
  have makes : f.MakesEach (fun _ => True) Predicate.IsFragmentless := by
    constructor
    · exact fun _ _ _ _ _ _ made => (compare_each_iff made).mpr (compare_fragmentless made)
    · intro s key sql p made
      rw [Frame.fragment, rejects] at made
      cases made
  exact predicateFragments_eq_nil _ (filter_compile_each makes (fun _ _ => trivial) h)

theorem having_compile_fragments {aggregates : List Aggregate} {filter : Filter}
    {p : Option Predicate} (h : Having.compile f aggregates filter = .ok p) :
    predicateFragments p.toList = [] := by
  refine predicateFragments_eq_nil _
    (having_compile_each (W := fun _ => True) ?_ (fun _ _ => trivial) h)
  intro key a _ op v p _ made
  simp only [Having.compare, bind_eq_ok, pure_eq_ok] at made
  obtain ⟨operand, -, rfl⟩ := made
  rfl

theorem globalSearch_fragments (filter : Filter) :
    predicateFragments filter.globalSearch.toList = [] := by
  rw [Filter.globalSearch, predicateFragments_combine]
  induction filterScalars filter with
  | nil => rfl
  | cons v rest ih => exact ih

end

/-! The policy makes no difference where nothing is marked. -/

def Frame.under (f : Frame) (policy : FragmentPolicy) : Frame :=
  { f with policy }

section

variable (f : Frame) (policy : FragmentPolicy)

theorem locate_under (s : Scope) (key : String) (nested : Bool) :
    (f.under policy).locate s key nested = f.locate s key nested := rfl

theorem reach_under (segments : List String) :
    (f.under policy).reach segments = f.reach segments := rfl

theorem bindPlace_under (s : Scope) (key : String) (place : Place) :
    (f.under policy).bindPlace s key place = f.bindPlace s key place := by
  cases place <;> rfl

theorem compare_under (key : String) (bound : BoundField) :
    (f.under policy).compare key bound = f.compare key bound := rfl

theorem demandPlace_under (place : Place) :
    (f.under policy).demandPlace place = f.demandPlace place := by
  cases place <;> rfl

theorem markers_append_eq_nil {leaves more : List Condition} :
    markers (leaves ++ more) = [] ↔ markers leaves = [] ∧ markers more = [] := by
  rw [markers_append, List.append_eq_nil_iff]

-- Only a fragment asks for the policy, so each part without a marker compiles as before.
mutual

theorem compileTerms_under (s : Scope) : (terms : List Term) → markers (termLeaves terms) = [] →
    compileTerms (f.under policy) s terms = compileTerms f s terms
  | [], _ => rfl
  | t :: rest, unmarked => by
    obtain ⟨here, others⟩ := markers_append_eq_nil.mp unmarked
    rw [compileTerms, compileTerms, term_compile_under s t here, compileTerms_under s rest others]

theorem term_compile_under (s : Scope) : (t : Term) → markers t.leaves = [] →
    t.compile (f.under policy) s = t.compile f s
  | .logical op children, unmarked => by
    rw [Term.compile, Term.compile, compileFilters_under s children unmarked]
  | .field key condition, unmarked => condition_compile_under s key condition unmarked

theorem compileFilters_under (s : Scope) : (filters : List (List Term)) →
    markers (filterLeaves filters) = [] →
      compileFilters (f.under policy) s filters = compileFilters f s filters
  | [], _ => rfl
  | terms :: rest, unmarked => by
    obtain ⟨here, others⟩ := markers_append_eq_nil.mp unmarked
    rw [compileFilters, compileFilters, compileTerms_under s terms here,
      compileFilters_under s rest others]

theorem condition_compile_under (s : Scope) (key : String) : (condition : Condition) →
    markers condition.leaves = [] →
      condition.compile (f.under policy) s key = condition.compile f s key
  | .subquery _, unmarked => by cases unmarked
  | .operators clauses, _ => by
    simp only [Condition.compile, locate_under, bindPlace_under, compare_under]
  | .nested terms, unmarked => by
    have below (e : Entity) (segments : List String) :=
      compileTerms_under ⟨e, segments⟩ terms unmarked
    simp only [Condition.compile, locate_under, bindPlace_under, reach_under, below]
  | .scalar _, _ => by
    simp only [Condition.compile, locate_under, bindPlace_under]

end

mutual

theorem termDemands_under (s : Scope) : (terms : List Term) →
    termDemands (f.under policy) s terms = termDemands f s terms
  | [] => rfl
  | t :: rest => by
    rw [termDemands, termDemands, term_demands_under s t, termDemands_under s rest]

theorem term_demands_under (s : Scope) : (t : Term) →
    t.demands (f.under policy) s = t.demands f s
  | .logical _ children => filterDemands_under s children
  | .field key condition => condition_demands_under s key condition

theorem filterDemands_under (s : Scope) : (filters : List (List Term)) →
    filterDemands (f.under policy) s filters = filterDemands f s filters
  | [] => rfl
  | terms :: rest => by
    rw [filterDemands, filterDemands, termDemands_under s terms, filterDemands_under s rest]

theorem condition_demands_under (s : Scope) (key : String) : (condition : Condition) →
    condition.demands (f.under policy) s key = condition.demands f s key
  | .subquery _ | .scalar _ => rfl
  | .operators clauses => by
    simp only [Condition.demands, locate_under, demandPlace_under]
    rfl
  | .nested terms => by
    have below (e : Entity) (segments : List String) := termDemands_under ⟨e, segments⟩ terms
    simp only [Condition.demands, locate_under, demandPlace_under, reach_under, below]
    rfl

end

mutual

theorem having_compileTerms_under (aggregates : List Aggregate) : (terms : List Term) →
    Having.compileTerms (f.under policy) aggregates terms = Having.compileTerms f aggregates terms
  | [] => by
    rw [Having.compileTerms, Having.compileTerms]
  | .logical op children :: rest => by
    rw [Having.compileTerms, Having.compileTerms, having_compileFilters_under aggregates children,
      having_compileTerms_under aggregates rest]
  | .field key condition :: rest => by
    rw [Having.compileTerms, Having.compileTerms, having_compileTerms_under aggregates rest]
    rfl

theorem having_compileFilters_under (aggregates : List Aggregate) : (filters : List (List Term)) →
    Having.compileFilters (f.under policy) aggregates filters =
      Having.compileFilters f aggregates filters
  | [] => by
    rw [Having.compileFilters, Having.compileFilters]
  | terms :: rest => by
    rw [Having.compileFilters, Having.compileFilters, having_compileTerms_under aggregates terms,
      having_compileFilters_under aggregates rest]

end

theorem having_demands_under (terms : List Term) :
    Having.demands (f.under policy) terms = Having.demands f terms := by
  rw [having_demands_eq, having_demands_eq]
  rfl

end

def Request.markers (r : Request) : List String :=
  match Filter.ofJson "filters" r.filters with
  | .ok filter => ReadPlan.markers (termLeaves filter)
  | .error _ => []

theorem ofRoot_under (f : Frame) (policy : FragmentPolicy) {r : Request}
    (bare : r.globalSearch = true ∨ r.markers = []) :
    Plan.ofRoot (f.under policy) r = Plan.ofRoot f r := by
  unfold Plan.ofRoot
  cases read : Filter.ofJson "filters" r.filters with
  | error e => rfl
  | ok filter =>
    have predicate : r.compileFilters (f.under policy) filter = r.compileFilters f filter := by
      unfold Request.compileFilters
      split
      · rfl
      · rename_i plain
        have unmarked : markers (termLeaves filter) = [] := by
          simpa [Request.markers, read] using bare.resolve_left plain
        rw [Filter.compile, Filter.compile]
        exact congrArg (· >>= _) (compileTerms_under f policy f.rootScope filter unmarked)
    have demands : r.outputDemands (f.under policy) filter = r.outputDemands f filter := by
      have filters : r.filterDemands (f.under policy) filter = r.filterDemands f filter := by
        unfold Request.filterDemands
        rw [Filter.demands, Filter.demands]
        exact congrArg (ite _ _) (termDemands_under f policy f.rootScope filter)
      rw [Request.outputDemands, Request.outputDemands, filters]
      rfl
    have having (aggregates : List Aggregate) (conditions : Filter) :
        Having.compile (f.under policy) aggregates conditions =
          Having.compile f aggregates conditions := by
      rw [Having.compile, Having.compile, having_compileTerms_under]
    simp only [ok_bind, predicate, demands, having, having_demands_under]
    rfl

namespace Json

/-- The parts of a value at any depth, the value itself among them. -/
inductive Holds (whole : Json) : Json → Prop
  | self : Holds whole whole
  | item {vs v} : Holds whole (.arr vs) → v ∈ vs → Holds whole v
  | member {ms m} : Holds whole (.obj ms) → m ∈ ms → Holds whole m.2

theorem holds_hereditary (whole : Json) : Hereditary whole.Holds where
  items h _ hv := h.item hv
  members h _ hm := h.member hm

end Json

/-- A marker is an object of its own in the filters, and its text is that of the fragment. -/
theorem held_of_mem_markers {r : Request} {sql : String} (h : sql ∈ r.markers) :
    r.filters.Holds (.obj [(subqueryMarker, .str sql)]) := by
  unfold Request.markers at h
  split at h
  · rename_i filter read
    obtain ⟨leaf, hl, marked⟩ := List.mem_filterMap.mp h
    obtain ⟨path, v, held, made⟩ :=
      (filter_leaves r.filters.holds_hereditary .self read leaf hl).read
    cases leaf with
    | subquery text =>
      cases marked
      exact readCondition_subquery made ▸ held
    | operators | nested | scalar => cases marked
  · cases h

theorem ofRoot_fragments {f : Frame} {r : Request} {p : Plan} (h : Plan.ofRoot f r = .ok p) :
    predicateFragments p.predicate.toList = (if r.globalSearch then [] else r.markers) ∧
      predicateFragments p.having.toList = [] ∧
        (f.policy = .reject → predicateFragments p.predicate.toList = []) := by
  simp only [Plan.ofRoot, bind_eq_ok, pure_eq_ok] at h
  obtain ⟨filter, read, predicate, compiled, _, -, _, -, _, -, conditions, -, condition,
    compiledToo, _, -, rfl⟩ := h
  have marked : r.markers = markers (termLeaves filter) := by
    rw [Request.markers, read]
  have having := having_compile_fragments compiledToo
  unfold Request.compileFilters at compiled
  split at compiled
  · rename_i searched
    cases compiled
    have none := globalSearch_fragments filter
    rw [if_pos searched]
    exact ⟨none, having, fun _ => none⟩
  · rename_i plain
    rw [if_neg plain, marked]
    exact ⟨filter_compile_fragments compiled, having, fun rejects =>
      filter_compile_reject rejects compiled⟩

theorem ofRequest_fragments {c : Catalog} {policy : FragmentPolicy} {r : Request} {p : Plan}
    (h : Plan.ofRequest c policy r = .ok p) :
    predicateFragments p.predicate.toList = (if r.globalSearch then [] else r.markers) ∧
      predicateFragments p.having.toList = [] ∧
        (policy = .reject → predicateFragments p.predicate.toList = []) := by
  obtain ⟨root, -, h⟩ := ofRequest_eq_ok.mp h
  exact ofRoot_fragments h

theorem ofRequest_reject (c : Catalog) {r : Request}
    (bare : r.globalSearch = true ∨ r.markers = []) :
    Plan.ofRequest c .reject r = Plan.ofRequest c .allow r := by
  unfold Plan.ofRequest
  split
  · rfl
  · exact ofRoot_under ⟨c, _, .allow⟩ .reject bare

/-- Rejecting fragments refuses the requests that mark one and makes no other difference. The plans
that are left have no fragments; where fragments are allowed, those of a plan are the texts that
its filters mark, and its conditions on groups have none. -/
theorem fragments_rejected_or_marked (c : Catalog) (r : Request) :
    (r.globalSearch = true ∨ r.markers = [] →
      Plan.ofRequest c .reject r = Plan.ofRequest c .allow r) ∧
    (r.globalSearch = false ∧ r.markers ≠ [] → ∃ e, Plan.ofRequest c .reject r = .error e) ∧
    (∀ p, Plan.ofRequest c .reject r = .ok p →
      predicateFragments p.predicate.toList = [] ∧ predicateFragments p.having.toList = []) ∧
    ∀ p, Plan.ofRequest c .allow r = .ok p →
      predicateFragments p.predicate.toList = (if r.globalSearch then [] else r.markers) ∧
        (∀ sql ∈ predicateFragments p.predicate.toList,
          r.filters.Holds (.obj [(subqueryMarker, .str sql)])) ∧
        predicateFragments p.having.toList = [] := by
  refine ⟨ofRequest_reject c, ?_, ?_, ?_⟩
  · rintro ⟨plain, marked⟩
    cases compiled : Plan.ofRequest c .reject r with
    | error e => exact ⟨e, rfl⟩
    | ok p =>
      obtain ⟨all, -, none⟩ := ofRequest_fragments compiled
      rw [none rfl, plain, if_neg Bool.false_ne_true] at all
      exact absurd all.symm marked
  · intro p compiled
    obtain ⟨-, having, none⟩ := ofRequest_fragments compiled
    exact ⟨none rfl, having⟩
  · intro p compiled
    obtain ⟨all, having, -⟩ := ofRequest_fragments compiled
    refine ⟨all, fun sql hs => held_of_mem_markers ?_, having⟩
    rw [all] at hs
    split at hs
    · cases hs
    · exact hs

def markedRequest : Request :=
  { Request.ofModel "film" with
    filters := .obj [
      ("or", .arr [
        .obj [("length", .obj [("subquery", .str "SELECT 90")])],
        .obj [("language", .obj [("name", .obj [("subquery", .str "SELECT 'English'")])])]]),
      ("not", .obj [("actors", .obj [("subquery", .str "actors.last_name = 'Z'")])])] }

theorem film_fragments_marked :
    (∃ e, Plan.ofRequest filmCatalog .reject markedRequest = .error e) ∧
      ∃ p, Plan.ofRequest filmCatalog .allow markedRequest = .ok p ∧
        predicateFragments p.predicate.toList =
          ["SELECT 90", "SELECT 'English'", "actors.last_name = 'Z'"] := by
  have runs : (Plan.ofRequest filmCatalog .allow markedRequest).toOption.any (fun _ => true) =
      true := by
    decide +kernel
  have marked : markedRequest.markers =
      ["SELECT 90", "SELECT 'English'", "actors.last_name = 'Z'"] := by
    decide +kernel
  obtain ⟨-, refuses, -, keeps⟩ := fragments_rejected_or_marked filmCatalog markedRequest
  obtain ⟨p, compiled, -⟩ := exists_ok_of_any runs
  obtain ⟨all, -, -⟩ := keeps p compiled
  refine ⟨refuses ⟨rfl, by rw [marked]; simp⟩, p, compiled, ?_⟩
  rw [all, marked]
  rfl

end ReadPlan
