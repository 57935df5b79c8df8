import ReadPlan.Predicate.OfHaving
import ReadPlan.Proofs.CatalogBuild
import ReadPlan.Proofs.Truth

/-!
What a filter means, and that compiling keeps it. A filter is the conjunction of its terms; a part
in which there is no comparison and no fragment at any depth says nothing and is left out of the
part around it.
-/

namespace ReadPlan

mutual

def Clause.hasLeaf : Clause → Bool
  | .compare .. => true
  | .logical _ children => clauseListsHaveLeaf children

def clausesHaveLeaf : List Clause → Bool
  | [] => false
  | c :: rest => c.hasLeaf || clausesHaveLeaf rest

def clauseListsHaveLeaf : List (List Clause) → Bool
  | [] => false
  | cs :: rest => clausesHaveLeaf cs || clauseListsHaveLeaf rest

end

mutual

def Term.hasLeaf : Term → Bool
  | .logical _ children => filtersHaveLeaf children
  | .field _ condition => condition.hasLeaf

def Condition.hasLeaf : Condition → Bool
  | .subquery _ => true
  | .operators clauses => clausesHaveLeaf clauses
  | .nested terms => termsHaveLeaf terms
  | .scalar _ => false

def termsHaveLeaf : List Term → Bool
  | [] => false
  | t :: rest => t.hasLeaf || termsHaveLeaf rest

def filtersHaveLeaf : List (List Term) → Bool
  | [] => false
  | terms :: rest => termsHaveLeaf terms || filtersHaveLeaf rest

end

mutual

/-- The truth of a clause when `leaf` is that of one comparison. -/
def Clause.truth (leaf : Operator → Json → Truth) : Clause → Truth
  | .compare op operand => leaf op operand
  | .logical op children => op.truth (clauseListTruths leaf children)

def clauseTruths (leaf : Operator → Json → Truth) : List Clause → List Truth
  | [] => []
  | c :: rest => Truth.ofPart c.hasLeaf (c.truth leaf) ++ clauseTruths leaf rest

def clauseListTruths (leaf : Operator → Json → Truth) : List (List Clause) → List Truth
  | [] => []
  | cs :: rest =>
    Truth.ofPart (clausesHaveLeaf cs) (.all (clauseTruths leaf cs)) ++ clauseListTruths leaf rest

end

namespace Frame

def keyField? (f : Frame) (s : Scope) (key : String) : Option FieldRef :=
  match f.locate s key false with
  | .error _ => none
  | .ok place => (f.bindPlace s key place).toOption.map (·.field)

def partnerScope? (f : Frame) (s : Scope) (key : String) : Option Scope :=
  match f.locate s key true with
  | .ok (.association segments) => (f.reach segments).toOption.map (⟨·, segments⟩)
  | _ => none

/-- Where a fragment under a key stands: it is a value for a field or a condition on a partner. -/
def fragmentScope? (f : Frame) (s : Scope) (key : String) : Option FragmentScope :=
  match s.entity.field? key with
  | some field => some (.field ⟨key, ⟨f.relation s.segments, field.column⟩⟩)
  | none => (f.catalog.association? s.entity.name key).map (.exists (f.relation s.segments))

variable (v : Valuation)

def comparisonTruth (f : Frame) (key : String) (target : Option Target) (op : Operator)
    (x : Json) : Truth :=
  match target, Operand.ofJson f key op x with
  | some target, .ok operand => v.comparison ⟨target, op, operand⟩
  | _, _ => .unknown

end Frame

section

variable (f : Frame) (v : Valuation)

mutual

def Term.truth (s : Scope) : Term → Truth
  | .logical op children => op.truth (filterTruths s children)
  | .field key condition => condition.truth s key

def Condition.truth (s : Scope) (key : String) : Condition → Truth
  | .subquery sql => ((f.fragmentScope? s key).map (v.fragment sql)).getD .unknown
  | .operators clauses =>
    .all (clauseTruths (f.comparisonTruth v key ((f.keyField? s key).map .field)) clauses)
  | .nested terms =>
    match f.partnerScope? s key with
    | some partner => .all (termTruths partner terms)
    | none => .unknown
  | .scalar _ => .unknown

def termTruths (s : Scope) : List Term → List Truth
  | [] => []
  | t :: rest => Truth.ofPart t.hasLeaf (t.truth s) ++ termTruths s rest

def filterTruths (s : Scope) : List (List Term) → List Truth
  | [] => []
  | terms :: rest =>
    Truth.ofPart (termsHaveLeaf terms) (.all (termTruths s terms)) ++ filterTruths s rest

end

def Filter.truth (filter : Filter) : Truth :=
  .all (termTruths f v f.rootScope filter)

mutual

def Having.termTruth (aggregates : List Aggregate) : Term → Truth
  | .logical op children => op.truth (Having.filterTruths aggregates children)
  | .field key (.operators clauses) =>
    let leaf := f.comparisonTruth v key ((Having.aggregate? aggregates key).map .aggregate)
    .all (clauseTruths leaf clauses)
  | .field _ _ => .unknown

def Having.termTruths (aggregates : List Aggregate) : List Term → List Truth
  | [] => []
  | t :: rest =>
    Truth.ofPart t.hasLeaf (Having.termTruth aggregates t) ++ Having.termTruths aggregates rest

def Having.filterTruths (aggregates : List Aggregate) : List (List Term) → List Truth
  | [] => []
  | terms :: rest =>
    Truth.ofPart (termsHaveLeaf terms) (.all (Having.termTruths aggregates terms)) ++
      Having.filterTruths aggregates rest

end

def Having.truth (aggregates : List Aggregate) (filter : Filter) : Truth :=
  .all (Having.termTruths f v aggregates filter)

end

theorem clauseTruths_isEmpty (leaf : Operator → Json → Truth) (cs : List Clause) :
    (clauseTruths leaf cs).isEmpty = !clausesHaveLeaf cs := by
  induction cs with
  | nil => rfl
  | cons c rest ih =>
    simp only [clauseTruths, clausesHaveLeaf, Truth.ofPart_append_isEmpty, ih, Bool.not_or]

theorem clauseListTruths_isEmpty (leaf : Operator → Json → Truth) (css : List (List Clause)) :
    (clauseListTruths leaf css).isEmpty = !clauseListsHaveLeaf css := by
  induction css with
  | nil => rfl
  | cons cs rest ih =>
    simp only [clauseListTruths, clauseListsHaveLeaf, Truth.ofPart_append_isEmpty, ih, Bool.not_or]

def LeafTruth (v : Valuation) (leaf : Operator → Json → Except QueryError Predicate)
    (truth : Operator → Json → Truth) : Prop :=
  ∀ op x p, leaf op x = .ok p → p.truth v = truth op x

section Clauses

variable {leaf : Operator → Json → Except QueryError Predicate}
variable {v : Valuation} {truth : Operator → Json → Truth}

mutual

theorem clause_compile_truth (leaf_truth : LeafTruth v leaf truth) (c : Clause)
    (ps : List Predicate) (h : c.compile leaf = .ok ps) :
    predicateTruths v ps = Truth.ofPart c.hasLeaf (c.truth truth) := by
  match c with
  | .compare op x =>
    simp only [Clause.compile, bind_eq_ok, pure_eq_ok] at h
    obtain ⟨p, hp, rfl⟩ := h
    rw [predicateTruths, leaf_truth op x p hp]
    rfl
  | .logical op children =>
    simp only [Clause.compile, bind_eq_ok, pure_eq_ok] at h
    obtain ⟨qs, hq, rfl⟩ := h
    have parts := compileClauseLists_truth leaf_truth children qs hq
    rw [truths_combine, parts, clauseListTruths_isEmpty, Bool.not_not]
    rfl

theorem compileClauses_truth (leaf_truth : LeafTruth v leaf truth) (cs : List Clause)
    (ps : List Predicate) (h : compileClauses leaf cs = .ok ps) :
    predicateTruths v ps = clauseTruths truth cs := by
  match cs with
  | [] =>
    cases h
    rfl
  | c :: rest =>
    simp only [compileClauses, bind_eq_ok, pure_eq_ok] at h
    obtain ⟨qs, hq, rs, hr, rfl⟩ := h
    rw [predicateTruths_append, clause_compile_truth leaf_truth c qs hq,
      compileClauses_truth leaf_truth rest rs hr]
    rfl

theorem compileClauseLists_truth (leaf_truth : LeafTruth v leaf truth)
    (css : List (List Clause)) (ps : List Predicate) (h : compileClauseLists leaf css = .ok ps) :
    predicateTruths v ps = clauseListTruths truth css := by
  match css with
  | [] =>
    cases h
    rfl
  | cs :: rest =>
    simp only [compileClauseLists, bind_eq_ok, pure_eq_ok] at h
    obtain ⟨qs, hq, rs, hr, rfl⟩ := h
    have here := compileClauses_truth leaf_truth cs qs hq
    rw [predicateTruths_append, truths_all, here, compileClauseLists_truth leaf_truth rest rs hr,
      clauseTruths_isEmpty, Bool.not_not]
    rfl

end

theorem operators_truth (leaf_truth : LeafTruth v leaf truth) (cs : List Clause)
    (ps : List Predicate) (h : compileClauses leaf cs = .ok ps) :
    predicateTruths v (Predicate.all ps).toList =
      Truth.ofPart (clausesHaveLeaf cs) (.all (clauseTruths truth cs)) := by
  rw [truths_all, compileClauses_truth leaf_truth cs ps h, clauseTruths_isEmpty, Bool.not_not]

end Clauses

section Terms

variable {f : Frame} {v : Valuation}

theorem termTruths_isEmpty (s : Scope) (terms : List Term) :
    (termTruths f v s terms).isEmpty = !termsHaveLeaf terms := by
  induction terms with
  | nil => rfl
  | cons t rest ih =>
    simp only [termTruths, termsHaveLeaf, Truth.ofPart_append_isEmpty, ih, Bool.not_or]

theorem filterTruths_isEmpty (s : Scope) (filters : List (List Term)) :
    (filterTruths f v s filters).isEmpty = !filtersHaveLeaf filters := by
  induction filters with
  | nil => rfl
  | cons terms rest ih =>
    simp only [filterTruths, filtersHaveLeaf, Truth.ofPart_append_isEmpty, ih, Bool.not_or]

mutual

theorem term_noLeaf (t : Term) (h : t.firstFieldKey = none) : t.hasLeaf = false := by
  match t with
  | .logical _ children => exact filters_noLeaf children h
  | .field _ _ => cases h

theorem terms_noLeaf (terms : List Term) (h : firstFieldKey terms = none) :
    termsHaveLeaf terms = false := by
  match terms with
  | [] => rfl
  | t :: rest =>
    simp only [firstFieldKey, Option.or_eq_none_iff] at h
    simp only [termsHaveLeaf, term_noLeaf t h.1, terms_noLeaf rest h.2, Bool.or_self]

theorem filters_noLeaf (filters : List (List Term)) (h : firstKeyOfFilters filters = none) :
    filtersHaveLeaf filters = false := by
  match filters with
  | [] => rfl
  | terms :: rest =>
    simp only [firstKeyOfFilters, Option.or_eq_none_iff] at h
    simp only [filtersHaveLeaf, terms_noLeaf terms h.1, filters_noLeaf rest h.2, Bool.or_self]

end

theorem compare_truth {key : String} {bound : BoundField} {op : Operator} {x : Json}
    {p : Predicate} (h : f.compare key bound op x = .ok p) :
    p.truth v = f.comparisonTruth v key (some (.field bound.field)) op x := by
  simp only [Frame.compare, bind_eq_ok, pure_eq_ok] at h
  obtain ⟨operand, ho, rfl⟩ := h
  simp only [Frame.comparisonTruth, ho]
  cases bound.relation <;> rfl

theorem fragment_truth {s : Scope} {key sql : String} {p : Predicate}
    (h : f.fragment s key sql = .ok p) :
    p.truth v = ((f.fragmentScope? s key).map (v.fragment sql)).getD .unknown := by
  unfold Frame.fragment at h
  unfold Frame.fragmentScope?
  generalize s.entity.field? key = declared at h ⊢
  generalize f.policy = policy at h
  cases policy with
  | reject => cases h
  | allow =>
    cases declared with
    | some field =>
      cases h
      rfl
    | none =>
      generalize f.catalog.association? s.entity.name key = known at h ⊢
      cases known with
      | some a =>
        cases h
        rfl
      | none => cases h

mutual

theorem term_compile_truth (s : Scope) (t : Term) (ps : List Predicate)
    (h : t.compile f s = .ok ps) :
    predicateTruths v ps = Truth.ofPart t.hasLeaf (t.truth f v s) := by
  match t with
  | .logical op children =>
    simp only [Term.compile, bind_eq_ok, pure_eq_ok] at h
    obtain ⟨qs, hq, rfl⟩ := h
    have parts := compileFilters_truth s children qs hq
    rw [truths_combine, parts, filterTruths_isEmpty, Bool.not_not]
    rfl
  | .field key condition => exact condition_compile_truth s key condition ps h

theorem condition_compile_truth (s : Scope) (key : String) (c : Condition) (ps : List Predicate)
    (h : c.compile f s key = .ok ps) :
    predicateTruths v ps = Truth.ofPart c.hasLeaf (c.truth f v s key) := by
  match c with
  | .subquery sql =>
    simp only [Condition.compile, bind_eq_ok, pure_eq_ok] at h
    obtain ⟨p, hp, rfl⟩ := h
    rw [predicateTruths, fragment_truth hp]
    rfl
  | .operators clauses =>
    simp only [Condition.compile, bind_eq_ok] at h
    obtain ⟨place, hl, h⟩ := h
    split at h
    · cases h
    · simp only [bind_eq_ok, pure_eq_ok] at h
      obtain ⟨bound, hb, qs, hq, rfl⟩ := h
      have field : f.keyField? s key = some bound.field := by
        simp [Frame.keyField?, hl, hb, Except.toOption]
      rw [Condition.truth, field]
      exact operators_truth (fun _ _ _ hp => compare_truth hp) clauses qs hq
  | .nested terms =>
    simp only [Condition.compile, bind_eq_ok] at h
    obtain ⟨place, hl, h⟩ := h
    split at h
    · simp only [bind_eq_ok, pure_eq_ok] at h
      obtain ⟨e, he, qs, hq, rfl⟩ := h
      rename_i segments
      have partner : f.partnerScope? s key = some ⟨e, segments⟩ := by
        simp [Frame.partnerScope?, hl, he, Except.toOption]
      have parts := compileTerms_truth ⟨e, segments⟩ terms qs hq
      simp only [Condition.truth, partner]
      rw [truths_all, parts, termTruths_isEmpty, Bool.not_not]
      rfl
    · simp only [bind_eq_ok] at h
      obtain ⟨bound, _, h⟩ := h
      split at h
      · rename_i none
        cases h
        simp only [Condition.hasLeaf, terms_noLeaf terms none]
        rfl
      · cases h
  | .scalar _ =>
    simp only [Condition.compile, bind_eq_ok] at h
    obtain ⟨place, _, h⟩ := h
    split at h
    · cases h
    · simp only [bind_eq_ok] at h
      obtain ⟨_, _, h⟩ := h
      cases h

theorem compileTerms_truth (s : Scope) (terms : List Term) (ps : List Predicate)
    (h : compileTerms f s terms = .ok ps) : predicateTruths v ps = termTruths f v s terms := by
  match terms with
  | [] =>
    cases h
    rfl
  | t :: rest =>
    simp only [compileTerms, bind_eq_ok, pure_eq_ok] at h
    obtain ⟨qs, hq, rs, hr, rfl⟩ := h
    rw [predicateTruths_append, term_compile_truth s t qs hq, compileTerms_truth s rest rs hr]
    rfl

theorem compileFilters_truth (s : Scope) (filters : List (List Term)) (ps : List Predicate)
    (h : compileFilters f s filters = .ok ps) :
    predicateTruths v ps = filterTruths f v s filters := by
  match filters with
  | [] =>
    cases h
    rfl
  | terms :: rest =>
    simp only [compileFilters, bind_eq_ok, pure_eq_ok] at h
    obtain ⟨qs, hq, rs, hr, rfl⟩ := h
    have here := compileTerms_truth s terms qs hq
    rw [predicateTruths_append, truths_all, here, compileFilters_truth s rest rs hr,
      termTruths_isEmpty, Bool.not_not]
    rfl

end

theorem having_compare_truth {key : String} {a : Aggregate} {op : Operator} {x : Json}
    {p : Predicate} (h : Having.compare f key a op x = .ok p) :
    p.truth v = f.comparisonTruth v key (some (.aggregate a)) op x := by
  simp only [Having.compare, bind_eq_ok, pure_eq_ok] at h
  obtain ⟨operand, ho, rfl⟩ := h
  simp only [Frame.comparisonTruth, ho]
  rfl

variable (aggregates : List Aggregate)

theorem having_termTruths_isEmpty (terms : List Term) :
    (Having.termTruths f v aggregates terms).isEmpty = !termsHaveLeaf terms := by
  induction terms with
  | nil => rfl
  | cons t rest ih =>
    simp only [Having.termTruths, termsHaveLeaf, Truth.ofPart_append_isEmpty, ih, Bool.not_or]

theorem having_filterTruths_isEmpty (filters : List (List Term)) :
    (Having.filterTruths f v aggregates filters).isEmpty = !filtersHaveLeaf filters := by
  induction filters with
  | nil => rfl
  | cons terms rest ih =>
    simp only [Having.filterTruths, filtersHaveLeaf, Truth.ofPart_append_isEmpty, ih, Bool.not_or]

theorem having_condition_truth {key : String} {c : Condition} {ps : List Predicate}
    (h : Having.compileCondition f aggregates key c = .ok ps) :
    predicateTruths v ps =
      Truth.ofPart c.hasLeaf (Having.termTruth f v aggregates (.field key c)) := by
  unfold Having.compileCondition at h
  split at h
  · cases h
  · rename_i a ha
    split at h
    · rename_i clauses
      simp only [bind_eq_ok, pure_eq_ok] at h
      obtain ⟨qs, hq, rfl⟩ := h
      simp only [Having.termTruth, ha]
      exact operators_truth (fun _ _ _ hp => having_compare_truth hp) clauses qs hq
    · cases h

mutual

theorem having_compileTerms_truth (terms : List Term) (ps : List Predicate)
    (h : Having.compileTerms f aggregates terms = .ok ps) :
    predicateTruths v ps = Having.termTruths f v aggregates terms := by
  match terms with
  | [] =>
    rw [Having.compileTerms] at h
    cases h
    rfl
  | .logical op children :: rest =>
    simp only [Having.compileTerms, bind_eq_ok, pure_eq_ok] at h
    obtain ⟨qs, hq, rs, hr, rfl⟩ := h
    have parts := having_compileFilters_truth children qs hq
    rw [predicateTruths_append, truths_combine, parts, having_filterTruths_isEmpty, Bool.not_not,
      having_compileTerms_truth rest rs hr]
    rfl
  | .field key c :: rest =>
    simp only [Having.compileTerms, bind_eq_ok, pure_eq_ok] at h
    obtain ⟨qs, hq, rs, hr, rfl⟩ := h
    rw [predicateTruths_append, having_condition_truth aggregates hq,
      having_compileTerms_truth rest rs hr]
    rfl

theorem having_compileFilters_truth (filters : List (List Term)) (ps : List Predicate)
    (h : Having.compileFilters f aggregates filters = .ok ps) :
    predicateTruths v ps = Having.filterTruths f v aggregates filters := by
  match filters with
  | [] =>
    rw [Having.compileFilters] at h
    cases h
    rfl
  | terms :: rest =>
    simp only [Having.compileFilters, bind_eq_ok, pure_eq_ok] at h
    obtain ⟨qs, hq, rs, hr, rfl⟩ := h
    have here := having_compileTerms_truth terms qs hq
    rw [predicateTruths_append, truths_all, here, having_compileFilters_truth rest rs hr,
      having_termTruths_isEmpty, Bool.not_not]
    rfl

end

end Terms

/-- What the predicates of a part say about the predicate of the whole. -/
theorem whole_truth {v : Valuation} {ps : List Predicate} {ts : List Truth} {occupied : Bool}
    (parts : predicateTruths v ps = ts) (empty : ts.isEmpty = !occupied) :
    (Predicate.all ps = none ↔ occupied = false) ∧
      ∀ q, Predicate.all ps = some q → q.truth v = .all ts := by
  have whole := truths_all v ps
  rw [parts, empty, Bool.not_not] at whole
  cases hq : Predicate.all ps with
  | none =>
    rw [hq] at whole
    cases occupied with
    | false => exact ⟨by simp, by simp⟩
    | true => cases whole
  | some q =>
    rw [hq] at whole
    cases occupied with
    | false => cases whole
    | true =>
      refine ⟨by simp, ?_⟩
      intro r hr
      cases hr
      exact (List.cons.inj whole).1

/-- Compiling keeps the meaning of a filter under every assignment of truths to its comparisons and
fragments, and drops a filter exactly when it has neither. The same holds for conditions on
aggregates. -/
theorem compile_keeps_truth (f : Frame) (v : Valuation) :
    (∀ (filter : Filter) (p : Option Predicate), filter.compile f = .ok p →
      (p = none ↔ termsHaveLeaf filter = false) ∧
        ∀ q, p = some q → q.truth v = filter.truth f v) ∧
    (∀ (aggregates : List Aggregate) (filter : Filter) (p : Option Predicate),
      Having.compile f aggregates filter = .ok p →
        (p = none ↔ termsHaveLeaf filter = false) ∧
          ∀ q, p = some q → q.truth v = Having.truth f v aggregates filter) := by
  constructor
  · intro filter p h
    simp only [Filter.compile, bind_eq_ok, pure_eq_ok] at h
    obtain ⟨ps, hp, rfl⟩ := h
    exact whole_truth (compileTerms_truth f.rootScope filter ps hp) (termTruths_isEmpty _ filter)
  · intro aggregates filter p h
    simp only [Having.compile, bind_eq_ok, pure_eq_ok] at h
    obtain ⟨ps, hp, rfl⟩ := h
    exact whole_truth (having_compileTerms_truth aggregates filter ps hp)
      (having_termTruths_isEmpty aggregates filter)

def filmFrame : Frame :=
  ⟨filmCatalog, filmEntity, .allow⟩

def filmFilter : Filter :=
  [.logical .or [
      [.field "title" (.nested [])],
      [.field "title" (.operators [
        .compare .eq (.str "A"), .logical .or [[], [.compare .isNot .null]]])]],
    .logical .not [[.field "language" (.nested [
      .field "name" (.operators [.compare .like (.str "E%")])])]],
    .logical .and []]

def filmAggregates : List Aggregate :=
  [⟨"max", ⟨"length", ⟨"film", "length"⟩⟩, "max_length"⟩]

def filmHaving : Filter :=
  [.logical .not [[.field "max_length" (.operators [.compare .gt (.int 90)])], []]]

def filmValuation : Valuation where
  comparison c :=
    match c.operator with
    | .eq => .unknown
    | .like => .no
    | _ => .yes
  fragment _ _ := .unknown
  pattern _ := .unknown

theorem film_compile_keeps_truth :
    (∃ p, filmFilter.compile filmFrame = .ok (some p) ∧ p.truth filmValuation = .unknown) ∧
    ∃ p, Having.compile filmFrame filmAggregates filmHaving = .ok (some p) ∧
      p.truth filmValuation = .no := by
  have kept := compile_keeps_truth filmFrame filmValuation
  constructor
  · refine ⟨_, rfl, ?_⟩
    rw [(kept.1 filmFilter _ rfl).2 _ rfl]
    rfl
  · have compiled : Having.compile filmFrame filmAggregates filmHaving =
        .ok (some (.logical .not [.comparison ⟨.aggregate ⟨"max", ⟨"length", ⟨"film", "length"⟩⟩,
          "max_length"⟩, .gt, .value (.int 90)⟩])) := by
      simp only [Having.compile, filmHaving, Having.compileTerms, Having.compileFilters]
      rfl
    refine ⟨_, compiled, ?_⟩
    rw [(kept.2 filmAggregates filmHaving _ compiled).2 _ rfl]
    rfl

end ReadPlan
