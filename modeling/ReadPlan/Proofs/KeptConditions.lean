import Mathlib.Data.List.Forall2
import ReadPlan.Proofs.BoundColumns
import ReadPlan.Proofs.DottedNames
import ReadPlan.Proofs.FilterStage
import ReadPlan.Proofs.FilterTruth

namespace ReadPlan

/-- A comparison as a filter writes it: under a key, in the filter of the associations above. -/
structure WrittenComparison where
  above : List String
  key : String
  operator : Operator
  operand : Json

section

variable (above : List String) (key : String)

mutual

def Clause.written : Clause → List WrittenComparison
  | .compare op v => [⟨above, key, op, v⟩]
  | .logical _ children => clauseListsWritten children

def clausesWritten : List Clause → List WrittenComparison
  | [] => []
  | c :: rest => c.written ++ clausesWritten rest

def clauseListsWritten : List (List Clause) → List WrittenComparison
  | [] => []
  | cs :: rest => clausesWritten cs ++ clauseListsWritten rest

end

end

mutual

def Term.written (above : List String) : Term → List WrittenComparison
  | .logical _ children => filtersWritten above children
  | .field key condition => condition.written above key

def Condition.written (above : List String) (key : String) : Condition → List WrittenComparison
  | .subquery _ | .scalar _ => []
  | .operators clauses => clausesWritten above key clauses
  | .nested terms => termsWritten (above ++ [key]) terms

def termsWritten (above : List String) : List Term → List WrittenComparison
  | [] => []
  | t :: rest => t.written above ++ termsWritten above rest

def filtersWritten (above : List String) : List (List Term) → List WrittenComparison
  | [] => []
  | terms :: rest => termsWritten above terms ++ filtersWritten above rest

end

def Operand.written : Operand → Json
  | .value v => v
  | .list items => .arr items
  | .range low high => .arr [low, high]
  | .column field => .str field.name

theorem Operand.written_of_ofJson {f : Frame} {path : String} {op : Operator} {v : Json}
    {operand : Operand} (h : ofJson f path op v = .ok operand) : operand.written = v := by
  unfold ofJson at h
  simp only at h
  split at h
  · split at h <;> cases h
    rfl
  · split at h <;> cases h
    rfl
  · cases h
  · split at h <;> cases h
    rfl
  · cases h
  · simp only [bind_eq_ok, pure_eq_ok] at h
    obtain ⟨field, bound, rfl⟩ := h
    rw [written, bind_name bound]
  · cases h

/-- A conjunction or a disjunction is of two at least, a negation of one. -/
def Combinator.Takes : Combinator → Nat → Prop
  | .and, n | .or, n => 2 ≤ n
  | .not, n => n = 1

mutual

def Predicate.Normal : Predicate → Prop
  | .logical op children => op.Takes children.length ∧ predicatesNormal children
  | .comparison _ | .qualified .. | .fragment .. | .globalPattern _ => True

def predicatesNormal : List Predicate → Prop
  | [] => True
  | p :: rest => p.Normal ∧ predicatesNormal rest

end

def Predicate.isComparison : Predicate → Bool
  | .comparison _ | .qualified .. => true
  | .logical .. | .fragment .. | .globalPattern _ => false

def comparisonLeaves (ps : List Predicate) : List Predicate :=
  (predicateLeaves ps).filter (·.isComparison)

theorem predicateLeaves_append (ps qs : List Predicate) :
    predicateLeaves (ps ++ qs) = predicateLeaves ps ++ predicateLeaves qs := by
  induction ps with
  | nil => rfl
  | cons p rest ih => simp [predicateLeaves, ih]

theorem predicatesNormal_append {ps qs : List Predicate} :
    predicatesNormal (ps ++ qs) ↔ predicatesNormal ps ∧ predicatesNormal qs := by
  induction ps with
  | nil => simp [predicatesNormal]
  | cons p rest ih => simp [predicatesNormal, ih, and_assoc]

theorem leaves_all (ps : List Predicate) :
    predicateLeaves (Predicate.all ps).toList = predicateLeaves ps := by
  match ps with
  | [] | [_] => rfl
  | p :: q :: rest => simp [Predicate.all, predicateLeaves, Predicate.leaves]

theorem normal_all {ps : List Predicate} (normal : predicatesNormal ps) :
    predicatesNormal (Predicate.all ps).toList := by
  match ps with
  | [] => trivial
  | [p] => exact normal
  | p :: q :: rest =>
    have enough : Combinator.and.Takes (p :: q :: rest).length := by simp [Combinator.Takes]
    exact ⟨⟨enough, normal⟩, trivial⟩

theorem leaves_combine (op : Combinator) (ps : List Predicate) :
    predicateLeaves (Predicate.combine op ps).toList = predicateLeaves ps := by
  match op, ps with
  | .and, ps => exact leaves_all ps
  | .or, [] | .or, [_] | .not, [] => rfl
  | .or, p :: q :: rest | .not, p :: q :: rest | .not, [p] =>
    simp [Predicate.combine, Predicate.all, predicateLeaves, Predicate.leaves]

theorem normal_combine (op : Combinator) {ps : List Predicate} (normal : predicatesNormal ps) :
    predicatesNormal (Predicate.combine op ps).toList := by
  match op, ps with
  | .and, ps => exact normal_all normal
  | .or, [] | .not, [] => trivial
  | .or, [p] => exact normal
  | .or, p :: q :: rest =>
    have enough : Combinator.or.Takes (p :: q :: rest).length := by simp [Combinator.Takes]
    exact ⟨⟨enough, normal⟩, trivial⟩
  | .not, p :: rest =>
    have one : predicatesNormal (Predicate.all (p :: rest)).toList := normal_all normal
    cases whole : Predicate.all (p :: rest) with
    | none => cases rest <;> cases whole
    | some q =>
      rw [whole] at one
      rw [Predicate.combine, whole]
      exact ⟨⟨rfl, one⟩, trivial⟩

mutual

theorem Predicate.comparisons_leaves : (p : Predicate) →
    p.comparisons = (p.leaves.filter (·.isComparison)).flatMap (·.comparisons)
  | .comparison _ | .qualified .. | .fragment .. | .globalPattern _ => rfl
  | .logical _ children => comparisonsOfAll_leaves children

theorem comparisonsOfAll_leaves : (ps : List Predicate) →
    Predicate.comparisonsOfAll ps = (comparisonLeaves ps).flatMap (·.comparisons)
  | [] => rfl
  | p :: rest => by
    rw [Predicate.comparisonsOfAll, comparisonLeaves, predicateLeaves, List.filter_append,
      List.flatMap_append, p.comparisons_leaves, comparisonsOfAll_leaves rest, comparisonLeaves]

end

/-- Written comparisons against what they were compiled to: the comparisons among the leaves are
related to them one by one, and nothing is left to simplify. -/
structure Kept (R : WrittenComparison → Predicate → Prop) (written : List WrittenComparison)
    (ps : List Predicate) : Prop where
  leaves : List.Forall₂ R written (comparisonLeaves ps)
  normal : predicatesNormal ps

namespace Kept

variable {R : WrittenComparison → Predicate → Prop} {ws vs : List WrittenComparison}
  {ps qs : List Predicate}

theorem nil : Kept R [] [] :=
  ⟨.nil, trivial⟩

theorem single {w : WrittenComparison} {p : Predicate} (related : R w p)
    (comparison : p.isComparison = true) : Kept R [w] [p] := by
  cases p with
  | comparison | qualified => exact ⟨.cons related .nil, trivial, trivial⟩
  | _ => cases comparison

theorem append (first : Kept R ws ps) (second : Kept R vs qs) : Kept R (ws ++ vs) (ps ++ qs) := by
  refine ⟨?_, predicatesNormal_append.mpr ⟨first.normal, second.normal⟩⟩
  rw [comparisonLeaves, predicateLeaves_append, List.filter_append]
  exact List.rel_append first.leaves second.leaves

theorem all (h : Kept R ws ps) : Kept R ws (Predicate.all ps).toList := by
  refine ⟨?_, normal_all h.normal⟩
  rw [comparisonLeaves, leaves_all]
  exact h.leaves

theorem combine (op : Combinator) (h : Kept R ws ps) :
    Kept R ws (Predicate.combine op ps).toList := by
  refine ⟨?_, normal_combine op h.normal⟩
  rw [comparisonLeaves, leaves_combine]
  exact h.leaves

end Kept

section

variable {R : WrittenComparison → Predicate → Prop} {above : List String} {key : String}
  {leaf : Operator → Json → Except QueryError Predicate}

mutual

theorem clause_compile_kept
    (leaf_kept : ∀ {op v p}, leaf op v = .ok p → Kept R [⟨above, key, op, v⟩] [p]) :
    (c : Clause) → ∀ {ps}, c.compile leaf = .ok ps → Kept R (c.written above key) ps
  | .compare op v, _, h => by
    simp only [Clause.compile, bind_eq_ok, pure_eq_ok] at h
    obtain ⟨p, made, rfl⟩ := h
    exact leaf_kept made
  | .logical op children, _, h => by
    simp only [Clause.compile, bind_eq_ok, pure_eq_ok] at h
    obtain ⟨ps, made, rfl⟩ := h
    exact (compileClauseLists_kept leaf_kept children made).combine op

theorem compileClauses_kept
    (leaf_kept : ∀ {op v p}, leaf op v = .ok p → Kept R [⟨above, key, op, v⟩] [p]) :
    (cs : List Clause) → ∀ {ps}, compileClauses leaf cs = .ok ps →
      Kept R (clausesWritten above key cs) ps
  | [], _, h => by
    cases h
    exact .nil
  | c :: rest, _, h => by
    simp only [compileClauses, bind_eq_ok, pure_eq_ok] at h
    obtain ⟨ps, first, qs, more, rfl⟩ := h
    exact (clause_compile_kept leaf_kept c first).append (compileClauses_kept leaf_kept rest more)

theorem compileClauseLists_kept
    (leaf_kept : ∀ {op v p}, leaf op v = .ok p → Kept R [⟨above, key, op, v⟩] [p]) :
    (lists : List (List Clause)) → ∀ {ps}, compileClauseLists leaf lists = .ok ps →
      Kept R (clauseListsWritten above key lists) ps
  | [], _, h => by
    cases h
    exact .nil
  | cs :: rest, _, h => by
    simp only [compileClauseLists, bind_eq_ok, pure_eq_ok] at h
    obtain ⟨ps, first, qs, more, rfl⟩ := h
    exact (compileClauses_kept leaf_kept cs first).all.append
      (compileClauseLists_kept leaf_kept rest more)

end

end

-- Without a field there is nothing under the combinators of a filter.
mutual

theorem term_written_nil (above : List String) : (t : Term) → t.firstFieldKey = none →
    t.written above = []
  | .logical _ children, h => filtersWritten_nil above children h

theorem termsWritten_nil (above : List String) : (terms : List Term) →
    firstFieldKey terms = none → termsWritten above terms = []
  | [], _ => rfl
  | t :: rest, h => by
    rw [firstFieldKey, Option.or_eq_none_iff] at h
    rw [termsWritten, term_written_nil above t h.1, termsWritten_nil above rest h.2,
      List.nil_append]

theorem filtersWritten_nil (above : List String) : (filters : List (List Term)) →
    firstKeyOfFilters filters = none → filtersWritten above filters = []
  | [], _ => rfl
  | terms :: rest, h => by
    rw [firstKeyOfFilters, Option.or_eq_none_iff] at h
    rw [filtersWritten, termsWritten_nil above terms h.1, filtersWritten_nil above rest h.2,
      List.nil_append]

end

namespace Frame

def scopeBelow? (f : Frame) (above : List String) : Option Scope :=
  above.foldlM f.partnerScope? f.rootScope

def route? (f : Frame) (s : Scope) (key : String) : Option (List String) :=
  match f.locate s key false with
  | .ok (.own _) => some s.segments
  | .ok (.joined segments _) => some segments
  | .ok (.association _) | .error _ => none

/-- The comparison is of the field under the key, with the operator and the operand as written. -/
structure Means (f : Frame) (w : WrittenComparison) (route : List String) (x : Comparison) :
    Prop where
  target : ∃ s field, f.scopeBelow? w.above = some s ∧ f.route? s w.key = some route ∧
    f.keyField? s w.key = some field ∧ x.target = .field field ∧
      field.column.table = f.relation route
  operator : x.operator = w.operator
  operand : Operand.ofJson f w.key w.operator w.operand = .ok x.operand

/-- A comparison of a field of the root stands for itself; one that is reached through associations
is qualified by them. -/
inductive Compares (f : Frame) (w : WrittenComparison) : Predicate → Prop
  | own {x : Comparison} (means : f.Means w [] x) : Compares f w (.comparison x)
  | associated {route : List String} {x : Comparison} (joined : route ≠ [])
    (means : f.Means w route x) : Compares f w (.qualified (relationAlias route) x)

end Frame

inductive Having.Compares (f : Frame) (aggregates : List Aggregate) (w : WrittenComparison) :
    Predicate → Prop
  | group {a : Aggregate} {x : Comparison} (named : aggregate? aggregates w.key = some a)
    (target : x.target = .aggregate a) (operator : x.operator = w.operator)
    (operand : Operand.ofJson f w.key w.operator w.operand = .ok x.operand) :
    Compares f aggregates w (.comparison x)

section

variable {f : Frame}

theorem joined_ne_nil {s : Scope} {key : String} {nested : Bool} {segments : List String}
    {field : String} (h : f.locate s key nested = .ok (.joined segments field)) :
    segments ≠ [] := by
  unfold Frame.locate at h
  split at h
  · rename_i dotted
    have path : (Reference.ofString key).path ≠ [] := by
      simp [Reference.path_eq_nil_iff, dotted]
    simp only at h
    split at h
    · simp only [bind_eq_ok] at h
      obtain ⟨owner, -, h⟩ := h
      split at h <;> cases h
      simp [path]
    · cases h
      simp [path]
  · split at h
    · cases h
    · split at h
      · cases h
      · split at h <;> cases h
        simp

/-- The relation of a bound field is at the end of its route, and qualifies the field off the
root. -/
theorem bindPlace_route {s : Scope} {key : String} {place : Place} {bound : BoundField}
    (located : f.locate s key false = .ok place) (made : f.bindPlace s key place = .ok bound) :
    ∃ route, f.route? s key = some route ∧ bound.field.column.table = f.relation route ∧
      bound.relation = if route.isEmpty then none else some (f.relation route) := by
  cases place with
  | own field =>
    cases made
    exact ⟨s.segments, by rw [Frame.route?, located], rfl, rfl⟩
  | joined segments field =>
    simp only [Frame.bindPlace, bind_eq_ok, pure_eq_ok] at made
    obtain ⟨_, made, rfl⟩ := made
    obtain ⟨e, x, -, -, rfl⟩ := bindField_eq_ok.mp made
    have off := joined_ne_nil located
    exact ⟨segments, by rw [Frame.route?, located], rfl, by simp [off]⟩
  | association segments => cases made

theorem compare_kept {s : Scope} {above : List String} (scope : f.scopeBelow? above = some s)
    {key : String} {place : Place} {bound : BoundField}
    (located : f.locate s key false = .ok place) (placed : f.bindPlace s key place = .ok bound)
    {op : Operator} {v : Json} {p : Predicate} (made : f.compare key bound op v = .ok p) :
    Kept f.Compares [⟨above, key, op, v⟩] [p] := by
  obtain ⟨route, routed, table, relation⟩ := bindPlace_route located placed
  have known : f.keyField? s key = some bound.field := by
    rw [Frame.keyField?, located]
    simp [placed, Except.toOption]
  simp only [Frame.compare, bind_eq_ok, pure_eq_ok] at made
  obtain ⟨operand, read, rfl⟩ := made
  have means : f.Means ⟨above, key, op, v⟩ route ⟨.field bound.field, op, operand⟩ :=
    ⟨⟨s, bound.field, scope, routed, known, rfl, table⟩, rfl, read⟩
  by_cases root : route = []
  · subst root
    rw [relation]
    exact .single (.own means) rfl
  · have name : f.relation route = relationAlias route := by simp [Frame.relation, root]
    rw [relation, name]
    simpa [root] using Kept.single (.associated root means) rfl

theorem fragment_kept {R : WrittenComparison → Predicate → Prop} {s : Scope} {key sql : String}
    {p : Predicate} (made : f.fragment s key sql = .ok p) : Kept R [] [p] := by
  have fragment : ∃ scope, p = .fragment sql scope := by
    unfold Frame.fragment at made
    split at made
    · cases made
    · split at made
      · cases made
        exact ⟨_, rfl⟩
      · split at made <;> cases made
        exact ⟨_, rfl⟩
  obtain ⟨scope, rfl⟩ := fragment
  exact ⟨.nil, trivial, trivial⟩

-- The scope is where the keys above lead to, which one association more keeps true.
mutual

theorem compileTerms_kept {s : Scope} {above : List String}
    (scope : f.scopeBelow? above = some s) : (terms : List Term) →
      ∀ {ps}, compileTerms f s terms = .ok ps → Kept f.Compares (termsWritten above terms) ps
  | [], _, h => by
    cases h
    exact .nil
  | t :: rest, _, h => by
    simp only [compileTerms, bind_eq_ok, pure_eq_ok] at h
    obtain ⟨ps, first, qs, more, rfl⟩ := h
    exact (term_compile_kept scope t first).append (compileTerms_kept scope rest more)

theorem term_compile_kept {s : Scope} {above : List String}
    (scope : f.scopeBelow? above = some s) : (t : Term) →
      ∀ {ps}, t.compile f s = .ok ps → Kept f.Compares (t.written above) ps
  | .logical op children, _, h => by
    simp only [Term.compile, bind_eq_ok, pure_eq_ok] at h
    obtain ⟨ps, made, rfl⟩ := h
    exact (compileFilters_kept scope children made).combine op
  | .field key condition, _, h => condition_compile_kept scope key condition h

theorem compileFilters_kept {s : Scope} {above : List String}
    (scope : f.scopeBelow? above = some s) : (filters : List (List Term)) →
      ∀ {ps}, compileFilters f s filters = .ok ps →
        Kept f.Compares (filtersWritten above filters) ps
  | [], _, h => by
    cases h
    exact .nil
  | terms :: rest, _, h => by
    simp only [compileFilters, bind_eq_ok, pure_eq_ok] at h
    obtain ⟨ps, first, qs, more, rfl⟩ := h
    exact (compileTerms_kept scope terms first).all.append (compileFilters_kept scope rest more)

theorem condition_compile_kept {s : Scope} {above : List String}
    (scope : f.scopeBelow? above = some s) (key : String) : (condition : Condition) →
      ∀ {ps}, condition.compile f s key = .ok ps → Kept f.Compares (condition.written above key) ps
  | .subquery sql, _, h => by
    simp only [Condition.compile, bind_eq_ok, pure_eq_ok] at h
    obtain ⟨p, made, rfl⟩ := h
    exact fragment_kept made
  | .operators clauses, _, h => by
    simp only [Condition.compile, bind_eq_ok] at h
    obtain ⟨place, located, h⟩ := h
    split at h
    · cases h
    · simp only [bind_eq_ok, pure_eq_ok] at h
      obtain ⟨bound, placed, ps, made, rfl⟩ := h
      exact (compileClauses_kept (compare_kept scope located placed) clauses made).all
  | .nested terms, _, h => by
    simp only [Condition.compile, bind_eq_ok] at h
    obtain ⟨place, located, h⟩ := h
    split at h
    · rename_i segments
      simp only [bind_eq_ok, pure_eq_ok] at h
      obtain ⟨e, reached, ps, made, rfl⟩ := h
      have below : f.scopeBelow? (above ++ [key]) = some ⟨e, segments⟩ := by
        rw [Frame.scopeBelow?] at scope
        simp [Frame.scopeBelow?, scope, Frame.partnerScope?, located, reached, Except.toOption]
      exact (compileTerms_kept below terms made).all
    · simp only [bind_eq_ok] at h
      obtain ⟨bound, -, h⟩ := h
      split at h <;> cases h
      rename_i empty
      rw [Condition.written, termsWritten_nil _ terms empty]
      exact .nil
  | .scalar _, _, h => by
    simp only [Condition.compile, bind_eq_ok] at h
    obtain ⟨place, -, h⟩ := h
    split at h
    · cases h
    · simp only [bind_eq_ok] at h
      obtain ⟨bound, -, h⟩ := h
      cases h

end

variable {aggregates : List Aggregate}

theorem having_condition_kept {key : String} {condition : Condition} {ps : List Predicate}
    (h : Having.compileCondition f aggregates key condition = .ok ps) :
    Kept (Having.Compares f aggregates) (condition.written [] key) ps := by
  obtain ⟨clauses, rfl⟩ := having_condition_operators h
  unfold Having.compileCondition at h
  split at h
  · cases h
  · rename_i a named
    simp only [bind_eq_ok, pure_eq_ok] at h
    obtain ⟨ps, made, rfl⟩ := h
    refine (compileClauses_kept (fun {op v p} made => ?_) clauses made).all
    simp only [Having.compare, bind_eq_ok, pure_eq_ok] at made
    obtain ⟨operand, read, rfl⟩ := made
    exact .single (.group named rfl rfl read) rfl

mutual

theorem having_compileTerms_kept : (terms : List Term) →
    ∀ {ps}, Having.compileTerms f aggregates terms = .ok ps →
      Kept (Having.Compares f aggregates) (termsWritten [] terms) ps
  | [], _, h => by
    rw [Having.compileTerms] at h
    cases h
    exact .nil
  | .logical op children :: rest, _, h => by
    simp only [Having.compileTerms, bind_eq_ok, pure_eq_ok] at h
    obtain ⟨ps, first, qs, more, rfl⟩ := h
    exact ((having_compileFilters_kept children first).combine op).append
      (having_compileTerms_kept rest more)
  | .field key condition :: rest, _, h => by
    simp only [Having.compileTerms, bind_eq_ok, pure_eq_ok] at h
    obtain ⟨ps, first, qs, more, rfl⟩ := h
    exact (having_condition_kept first).append (having_compileTerms_kept rest more)

theorem having_compileFilters_kept : (filters : List (List Term)) →
    ∀ {ps}, Having.compileFilters f aggregates filters = .ok ps →
      Kept (Having.Compares f aggregates) (filtersWritten [] filters) ps
  | [], _, h => by
    rw [Having.compileFilters] at h
    cases h
    exact .nil
  | terms :: rest, _, h => by
    simp only [Having.compileFilters, bind_eq_ok, pure_eq_ok] at h
    obtain ⟨ps, first, qs, more, rfl⟩ := h
    exact (having_compileTerms_kept terms first).all.append (having_compileFilters_kept rest more)

end

end

/-! The whole predicate, and its joins. -/

def Comparison.written (x : Comparison) : Operator × Json :=
  (x.operator, x.operand.written)

def WrittenComparison.asserts (w : WrittenComparison) : Operator × Json :=
  (w.operator, w.operand)

/-- The predicate has the comparisons of the filter, each once and in order, and every combinator in
it has its children. -/
structure KeptFrom (R : WrittenComparison → Predicate → Prop) (filter : Filter)
    (p : Option Predicate) : Prop extends Kept R (termsWritten [] filter) p.toList where
  listed : (Predicate.comparisonsOfAll p.toList).map Comparison.written =
    (termsWritten [] filter).map WrittenComparison.asserts

section

variable {R : WrittenComparison → Predicate → Prop} {ws : List WrittenComparison}
  {leaves : List Predicate}

theorem listed_of_related (each : List.Forall₂ R ws leaves)
    (same : ∀ {w p}, R w p → p.comparisons.map Comparison.written = [w.asserts]) :
    (leaves.flatMap (·.comparisons)).map Comparison.written =
      ws.map WrittenComparison.asserts := by
  induction each with
  | nil => rfl
  | cons related _ ih =>
    rw [List.flatMap_cons, List.map_append, same related, ih]
    rfl

theorem source_of_related (each : List.Forall₂ R ws leaves) : ∀ leaf ∈ leaves, ∃ w, R w leaf := by
  induction each with
  | nil => simp
  | cons related _ ih => exact List.forall_mem_cons.mpr ⟨⟨_, related⟩, ih⟩

theorem Kept.keptFrom {filter : Filter} {p : Option Predicate}
    (h : Kept R (termsWritten [] filter) p.toList)
    (same : ∀ {w p}, R w p → p.comparisons.map Comparison.written = [w.asserts]) :
    KeptFrom R filter p :=
  ⟨h, comparisonsOfAll_leaves p.toList ▸ listed_of_related h.leaves same⟩

end

section

variable {f : Frame} {aggregates : List Aggregate} {w : WrittenComparison} {p : Predicate}

theorem Frame.Means.written {route : List String} {x : Comparison} (h : f.Means w route x) :
    x.written = w.asserts := by
  rw [Comparison.written, h.operator, Operand.written_of_ofJson h.operand]
  rfl

theorem Frame.Compares.listed (h : f.Compares w p) :
    p.comparisons.map Comparison.written = [w.asserts] := by
  cases h with
  | own means | associated joined means => exact congrArg (· :: []) means.written

theorem Having.Compares.listed (h : Having.Compares f aggregates w p) :
    p.comparisons.map Comparison.written = [w.asserts] := by
  cases h with
  | group named target operator operand =>
    simp [Predicate.comparisons, Comparison.written, operator, Operand.written_of_ofJson operand,
      WrittenComparison.asserts]

theorem filter_kept {filter : Filter} {p : Option Predicate} (h : filter.compile f = .ok p) :
    KeptFrom f.Compares filter p := by
  simp only [Filter.compile, bind_eq_ok, pure_eq_ok] at h
  obtain ⟨ps, made, rfl⟩ := h
  have kept : Kept f.Compares (termsWritten [] filter) (Predicate.all ps).toList :=
    (compileTerms_kept rfl filter made).all
  exact kept.keptFrom Frame.Compares.listed

theorem having_kept {filter : Filter} {p : Option Predicate}
    (h : Having.compile f aggregates filter = .ok p) :
    KeptFrom (Having.Compares f aggregates) filter p := by
  simp only [Having.compile, bind_eq_ok, pure_eq_ok] at h
  obtain ⟨ps, made, rfl⟩ := h
  have kept : Kept (Having.Compares f aggregates) (termsWritten [] filter)
      (Predicate.all ps).toList := (having_compileTerms_kept filter made).all
  exact kept.keptFrom Having.Compares.listed

theorem having_targets {ws : List WrittenComparison} {ps : List Predicate}
    (h : Kept (Having.Compares f aggregates) ws ps) :
    ∀ x ∈ Predicate.comparisonsOfAll ps, ∃ a ∈ aggregates, x.target = .aggregate a := by
  intro x hx
  rw [comparisonsOfAll_leaves, List.mem_flatMap] at hx
  obtain ⟨leaf, hl, hx⟩ := hx
  obtain ⟨w, ⟨named, target, -, -⟩⟩ := source_of_related h.leaves leaf hl
  cases List.mem_singleton.mp hx
  exact ⟨_, List.mem_of_find?_eq_some named, target⟩

theorem route_leads {demands : List Demand} {s : Scope} (stands : s.Stands f demands)
    {key : String} {place : Place} {bound : BoundField}
    (located : f.locate s key false = .ok place) (placed : f.bindPlace s key place = .ok bound)
    (demanded : f.demandPlace place ⊆ demands) {route : List String}
    (routed : f.route? s key = some route) :
    ∃ e, Leads demands route ∧ f.reach route = .ok e := by
  rw [Frame.route?, located] at routed
  cases place with
  | own field =>
    cases routed
    exact ⟨s.entity, stands.leads, stands.reached⟩
  | joined segments field =>
    cases routed
    simp only [Frame.bindPlace, bind_eq_ok] at placed
    obtain ⟨_, bound, -⟩ := placed
    obtain ⟨e, -, reached, -⟩ := bindField_eq_ok.mp bound
    exact ⟨e, leads_of_demandPath reached demanded, reached⟩
  | association segments => cases routed

theorem qualified_leads {demands : List Demand} {W : Json → Prop} {relation : String}
    {x : Comparison} (h : f.Origin demands W (.qualified relation x)) :
    (∃ field, x.target = .field field ∧ field.column.table = relation) ∧
      ∃ segments e, segments ≠ [] ∧ Leads demands segments ∧ f.reach segments = .ok e ∧
        relation = relationAlias segments := by
  rcases h with ⟨stands, located, placed, demanded, -, -, made⟩ | ⟨-, made⟩
  · rename_i s key place bound op v
    obtain ⟨route, routed, table, qualifies⟩ := bindPlace_route located placed
    obtain ⟨e, leads, reached⟩ := route_leads stands located placed demanded routed
    simp only [Frame.compare, bind_eq_ok, pure_eq_ok] at made
    obtain ⟨operand, -, same⟩ := made
    by_cases root : route = []
    · simp [qualifies, root] at same
    · have name : f.relation route = relationAlias route := by simp [Frame.relation, root]
      simp only [qualifies, List.isEmpty_iff, root, if_false, name, Predicate.qualified.injEq]
        at same
      obtain ⟨rfl, rfl⟩ := same
      exact ⟨⟨bound.field, rfl, table.trans name⟩, route, e, root, leads, reached, rfl⟩
  · have fragment := (fragment_kept (R := fun _ _ => True) made).leaves
    cases fragment

end

/-- Compiling keeps the comparisons of filters and of conditions on groups. In a plan the relations
that qualify comparisons are joined, and groups are compared by the aggregates of the plan. -/
theorem conditions_kept :
    (∀ (f : Frame) (filter : Filter) (p : Option Predicate), filter.compile f = .ok p →
      KeptFrom f.Compares filter p) ∧
    (∀ (f : Frame) (aggregates : List Aggregate) (filter : Filter) (p : Option Predicate),
      Having.compile f aggregates filter = .ok p →
        KeptFrom (Having.Compares f aggregates) filter p) ∧
    ∀ (c : Catalog) (policy : FragmentPolicy) (r : Request) (p : Plan), r.globalSearch = false →
      Plan.ofRequest c policy r = .ok p → ∃ root filter conditions,
        c.entity? r.modelName = some root ∧ Filter.ofJson "filters" r.filters = .ok filter ∧
        r.readHaving p.aggregates = .ok conditions ∧
        KeptFrom (Frame.Compares ⟨c, root, policy⟩) filter p.predicate ∧
        KeptFrom (Having.Compares ⟨c, root, policy⟩ p.aggregates) conditions p.having ∧
        (∀ relation x, .qualified relation x ∈ comparisonLeaves p.predicate.toList →
          (∃ field, x.target = .field field ∧ field.column.table = relation) ∧
            ∃ j ∈ p.allJoins, j.path = relation) ∧
        ∀ x ∈ Predicate.comparisonsOfAll p.having.toList,
          ∃ a ∈ p.aggregates, x.target = .aggregate a := by
  refine ⟨fun f filter p h => filter_kept h, fun f aggregates filter p h => having_kept h, ?_⟩
  intro c policy r p bare h
  obtain ⟨root, filter, rest, known, read, compiled, made, whole⟩ := stages_of_ofRequest h
  have rooted := rooted_of_entity? known policy
  have sound := PlanRest.all_sound rooted filter made
  have joins : p.joins = _ := (congrArg Plan.joins whole).trans (PlanRest.plan_joins ..)
  have filtered : Filter.compile ⟨c, root, policy⟩ filter = .ok p.predicate := by
    simpa [Request.compileFilters, bare] using compiled
  simp only [PlanRest.ofRequest, bind_eq_ok, pure_eq_ok] at made
  obtain ⟨projection, -, aggregates, -, explicit, -, conditions, conditioned, condition, grouped,
    sort, -, same⟩ := made
  have given : p.aggregates = aggregates := by rw [whole, ← same]; rfl
  have compared : p.having = condition := by rw [whole, ← same]; rfl
  rw [← given] at conditioned grouped
  rw [← compared] at grouped
  have kept := having_kept grouped
  refine ⟨root, filter, conditions, known, read, conditioned, filter_kept filtered, kept, ?_,
    having_targets kept.toKept⟩
  intro relation x hx
  have within : filter.demands ⟨c, root, policy⟩ ⊆
      r.filterDemands ⟨c, root, policy⟩ filter ++ rest.demands ⟨c, root, policy⟩ r := by
    simp [Request.filterDemands, bare]
  have origins := filter_compile_origin within (W := fun _ => True) (fun _ _ => trivial) filtered
  have origin := each_of_mem_predicateLeaves _ origins _ (List.mem_of_mem_filter hx)
  obtain ⟨field, segments, e, joined, leads, reached, rfl⟩ := qualified_leads origin
  obtain ⟨j, member, path, -⟩ := join_of_leads rooted r sound joined leads reached
  exact ⟨field, j, by rwa [Plan.allJoins, joins], path⟩

def comparedRequest : Request :=
  { Request.ofModel "film" with
    filters := .obj [
      ("or", .arr [.obj [("and", .arr [])], .obj [("title", .obj [("like", .str "A%")])]]),
      ("not", .obj [("language", .obj [("name", .obj [("eq", .str "Urdu"), ("ne", .null)])])]),
      ("length", .obj [("col", .str "language.language_id")])]
    aggregates := some [("max", .str "length")]
    having := some (.obj [("max_length", .obj [("gt", .int 90)])]) }

theorem film_conditions_kept :
    (∃ p, filmFilter.compile filmFrame = .ok p ∧ KeptFrom filmFrame.Compares filmFilter p) ∧
    (∃ p, Having.compile filmFrame filmAggregates filmHaving = .ok p ∧
      KeptFrom (Having.Compares filmFrame filmAggregates) filmHaving p) ∧
    ∃ p, Plan.ofRequest filmCatalog .reject comparedRequest = .ok p ∧
      (Predicate.comparisonsOfAll p.predicate.toList).map Comparison.written =
        [(.like, .str "A%"), (.eq, .str "Urdu"), (.ne, .null),
          (.column, .str "language.language_id")] ∧
      (Predicate.comparisonsOfAll p.having.toList).map Comparison.written = [(.gt, .int 90)] := by
  obtain ⟨filters, groups, plans⟩ := conditions_kept
  refine ⟨⟨_, rfl, filters _ _ _ rfl⟩, ?_, ?_⟩
  · have runs : (Having.compile filmFrame filmAggregates filmHaving).toOption.any
        (fun _ => true) = true := by
      decide +kernel
    obtain ⟨p, compiled, -⟩ := exists_ok_of_any runs
    exact ⟨p, compiled, groups _ _ _ _ compiled⟩
  · have runs : (Plan.ofRequest filmCatalog .reject comparedRequest).toOption.any (fun p =>
        p.aggregates = filmAggregates) = true := by
      decide +kernel
    obtain ⟨p, compiled, aggregates⟩ := exists_ok_of_any runs
    obtain ⟨root, filter, conditions, -, read, grouped, kept, keptToo, -⟩ :=
      plans _ _ _ p rfl compiled
    rw [of_decide_eq_true aggregates] at grouped
    cases (show Filter.ofJson "filters" comparedRequest.filters = .ok _ from rfl).symm.trans read
    cases (show comparedRequest.readHaving filmAggregates = .ok _ from rfl).symm.trans grouped
    exact ⟨p, compiled, kept.listed, keptToo.listed⟩

end ReadPlan
