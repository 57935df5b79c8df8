import ReadPlan.Proofs.FilterReading
import ReadPlan.Proofs.FilterTruth

namespace ReadPlan

/-- Keys, operands and operator maps that cannot be taken for something else. -/
def unambiguous : FilterRules where
  key key := Operator.ofToken? key = none ∧ Combinator.ofToken? key = none ∧ key ≠ subqueryMarker
  truthOperand v := v.isScalar = true
  operators clauses := clausesHaveLeaf clauses = true
  nested _ := True

theorem readingUnder_underCombinator (op : Combinator) {vs : List Json}
    (objects : ∀ v ∈ vs, ∃ ms, v = .obj ms) :
    readingUnder (underCombinator op vs) = classifyItems vs := by
  unfold underCombinator
  split
  case h_1 v =>
    obtain ⟨ms, rfl⟩ := objects v List.mem_cons_self
    simp [readingUnder, classifyItems]
  case h_2 => rfl

theorem Combinator.isCombinator_token (op : Combinator) : isCombinator op.token = true := by
  rw [isCombinator, op.ofToken?_token]
  rfl

section Clauses

def decided (leaf : Bool) : Option Reading :=
  if leaf then some .operators else none

theorem decided_or (a b : Bool) : (decided a).or (decided b) = decided (a || b) := by
  cases a <;> cases b <;> rfl

theorem clauseListsJson_objects (lists : List (List Clause)) :
    ∀ v ∈ clauseListsJson lists, ∃ ms, v = .obj ms := by
  induction lists with
  | nil => simp [clauseListsJson]
  | cons cs rest ih => exact List.forall_mem_cons.mpr ⟨⟨_, rfl⟩, ih⟩

theorem clauseMembers_eq_map (cs : List Clause) : clauseMembers cs = cs.map Clause.member := by
  induction cs with
  | nil => rfl
  | cons c rest ih => rw [clauseMembers, List.map_cons, ih]

theorem clausesHaveLeaf_eq_any (cs : List Clause) : clausesHaveLeaf cs = cs.any Clause.hasLeaf := by
  induction cs with
  | nil => rfl
  | cons c rest ih => rw [clausesHaveLeaf, List.any_cons, ih]

theorem Clause.isCombinator_or_leaf (c : Clause) :
    isCombinator c.member.1 = true ∨ isPlainOperator c.member.1 = true ∧ c.hasLeaf = true := by
  rcases c with ⟨op, operand⟩ | ⟨op, children⟩
  · have known : (Operator.ofToken? op.token).isSome = true := by rw [op.ofToken?_token]; rfl
    cases combinator : isCombinator op.token with
    | true => exact .inl combinator
    | false => exact .inr ⟨by simp [member, isPlainOperator, known, combinator], rfl⟩
  · exact .inl op.isCombinator_token

theorem classify_clauses {cs : List Clause}
    (members : (∀ c ∈ cs, isCombinator c.member.1 = true) →
      classifyMembers (clauseMembers cs) = decided (clausesHaveLeaf cs)) :
    classify (.obj (clauseMembers cs)) = decided (clausesHaveLeaf cs) := by
  have keys (p : String → Bool) :
      ((clauseMembers cs).any fun m => p m.1) = cs.any fun c => p c.member.1 := by
    rw [clauseMembers_eq_map, List.any_map]
    rfl
  rw [classify, keys isPlainOperator, keys fun key => !isCombinator key]
  split
  case isTrue operator =>
    obtain ⟨c, hc, plain⟩ := List.any_eq_true.mp operator
    have leaf : c.hasLeaf = true := by
      rcases c.isCombinator_or_leaf with combinator | ⟨-, leaf⟩
      · simp [isPlainOperator, combinator] at plain
      · exact leaf
    rw [clausesHaveLeaf_eq_any, List.any_eq_true.mpr ⟨c, hc, leaf⟩]
    rfl
  case isFalse plainless =>
    have combinators : ∀ c ∈ cs, isCombinator c.member.1 = true := by
      intro c hc
      rcases c.isCombinator_or_leaf with combinator | ⟨plain, -⟩
      · exact combinator
      · exact absurd (List.any_eq_true.mpr ⟨c, hc, plain⟩) plainless
    rw [if_neg (by simpa using combinators), members combinators]

mutual

theorem classifyMembers_clauses : (cs : List Clause) → clausesObey unambiguous cs →
    (∀ c ∈ cs, isCombinator c.member.1 = true) →
      classifyMembers (clauseMembers cs) = decided (clausesHaveLeaf cs)
  | [], _, _ => rfl
  | c :: rest, obeys, combinators => by
    obtain ⟨first, others⟩ := List.forall_mem_cons.mp combinators
    rw [clauseMembers, classifyMembers_cons, readingUnder_clause c obeys.1 first,
      classifyMembers_clauses rest obeys.2 others, decided_or, clausesHaveLeaf]

theorem readingUnder_clause : (c : Clause) → c.Obeys unambiguous →
    isCombinator c.member.1 = true → readingUnder c.member.2 = decided c.hasLeaf
  | .compare op operand, obeys, combinator => by
    have test : op = .isNot := by
      by_contra other
      simp [Clause.member, isCombinator, Combinator.ofToken?_operator other] at combinator
    have scalar : operand.isScalar = true := obeys test
    cases operand with
    | arr items => cases scalar
    | obj ms => cases scalar
    | _ => rfl
  | .logical op children, obeys, _ => by
    rw [Clause.member, readingUnder_underCombinator op (clauseListsJson_objects children),
      classifyItems_clauseLists children obeys.2, Clause.hasLeaf]

theorem classifyItems_clauseLists : (lists : List (List Clause)) →
    clauseListsObey unambiguous lists →
      classifyItems (clauseListsJson lists) = decided (clauseListsHaveLeaf lists)
  | [], _ => rfl
  | cs :: rest, obeys => by
    obtain ⟨⟨distinct, each⟩, others⟩ := obeys
    rw [clauseListsJson, merge_of_distinct distinct, classifyItems,
      classify_clauses (classifyMembers_clauses cs each), classifyItems_clauseLists rest others,
      decided_or, clauseListsHaveLeaf]

end

end Clauses

section Terms

theorem filtersJson_objects (filters : List (List Term)) :
    ∀ v ∈ filtersJson filters, ∃ ms, v = .obj ms := by
  induction filters with
  | nil => simp [filtersJson]
  | cons terms rest ih => exact List.forall_mem_cons.mpr ⟨⟨_, rfl⟩, ih⟩

theorem or_ne_operators {a b : Option Reading} (ha : a ≠ some .operators)
    (hb : b ≠ some .operators) : a.or b ≠ some .operators := by
  cases a with
  | none => exact hb
  | some reading => exact ha

theorem Term.key_of_obeys {t : Term} (obeys : t.Obeys unambiguous) :
    isPlainOperator t.member.1 = false ∧ subqueryMarker ≠ t.member.1 := by
  rcases t with ⟨op, children⟩ | ⟨key, condition⟩
  · exact ⟨by simp [member, isPlainOperator, op.isCombinator_token], op.token_ne_marker⟩
  · obtain ⟨⟨operator, -, marker⟩, -⟩ := obeys
    exact ⟨by simp [member, isPlainOperator, operator], Ne.symm marker⟩

theorem keys_of_termsObey {terms : List Term} (obeys : termsObey unambiguous terms) :
    ∀ m ∈ termMembers terms, isPlainOperator m.1 = false ∧ subqueryMarker ≠ m.1 := by
  induction terms with
  | nil => simp [termMembers]
  | cons t rest ih => exact List.forall_mem_cons.mpr ⟨t.key_of_obeys obeys.1, ih obeys.2⟩

theorem classify_terms {terms : List Term} (obeys : termsObey unambiguous terms)
    (members : (∀ m ∈ termMembers terms, isCombinator m.1 = true) →
      classifyMembers (termMembers terms) ≠ some .operators) :
    classify (.obj (termMembers terms)) ≠ some .operators := by
  have plainless : ¬ ((termMembers terms).any fun m => isPlainOperator m.1) = true := by
    intro operator
    obtain ⟨m, hm, plain⟩ := List.any_eq_true.mp operator
    rw [(keys_of_termsObey obeys m hm).1] at plain
    contradiction
  rw [classify, if_neg plainless]
  split
  case isTrue => simp
  case isFalse combinators => exact members (by simpa using combinators)

mutual

theorem classifyMembers_terms : (terms : List Term) → termsObey unambiguous terms →
    (∀ m ∈ termMembers terms, isCombinator m.1 = true) →
      classifyMembers (termMembers terms) ≠ some .operators
  | [], _, _ => by simp [termMembers, classifyMembers]
  | t :: rest, obeys, combinators => by
    obtain ⟨first, others⟩ := List.forall_mem_cons.mp combinators
    rw [termMembers, classifyMembers_cons]
    exact or_ne_operators (readingUnder_term t obeys.1 first)
      (classifyMembers_terms rest obeys.2 others)

theorem readingUnder_term : (t : Term) → t.Obeys unambiguous →
    isCombinator t.member.1 = true → readingUnder t.member.2 ≠ some .operators
  | .logical op children, obeys, _ => by
    rw [Term.member, readingUnder_underCombinator op (filtersJson_objects children)]
    exact classifyItems_filters children obeys.2
  | .field key condition, obeys, combinator => by
    simp [Term.member, isCombinator, obeys.1.2.1] at combinator

theorem classifyItems_filters : (filters : List (List Term)) → filtersObey unambiguous filters →
    classifyItems (filtersJson filters) ≠ some .operators
  | [], _ => by simp [filtersJson, classifyItems]
  | terms :: rest, obeys => by
    obtain ⟨⟨distinct, each⟩, others⟩ := obeys
    rw [filtersJson, merge_of_distinct distinct, classifyItems]
    exact or_ne_operators (classify_terms each (classifyMembers_terms terms each))
      (classifyItems_filters rest others)

end

end Terms

structure FilterRules.Implies (rules weaker : FilterRules) : Prop where
  key : ∀ {key}, rules.key key → weaker.key key
  truthOperand : ∀ {v}, rules.truthOperand v → weaker.truthOperand v
  operators : ∀ {cs}, clausesObey rules cs → rules.operators cs → weaker.operators cs
  nested : ∀ {terms}, termsObey rules terms → rules.nested terms → weaker.nested terms

section Rules

variable {rules weaker : FilterRules}

mutual

theorem Clause.Obeys.mono (h : rules.Implies weaker) :
    (c : Clause) → c.Obeys rules → c.Obeys weaker
  | .compare _ _, obeys => fun test => h.truthOperand (obeys test)
  | .logical _ children, obeys => ⟨obeys.1, clauseListsObey_mono h children obeys.2⟩

theorem clausesObey_mono (h : rules.Implies weaker) :
    (cs : List Clause) → clausesObey rules cs → clausesObey weaker cs
  | [], _ => trivial
  | c :: rest, obeys => ⟨Clause.Obeys.mono h c obeys.1, clausesObey_mono h rest obeys.2⟩

theorem clauseListsObey_mono (h : rules.Implies weaker) : (lists : List (List Clause)) →
    clauseListsObey rules lists → clauseListsObey weaker lists
  | [], _ => trivial
  | cs :: rest, obeys =>
    ⟨⟨obeys.1.1, clausesObey_mono h cs obeys.1.2⟩, clauseListsObey_mono h rest obeys.2⟩

end

mutual

theorem Term.Obeys.mono (h : rules.Implies weaker) : (t : Term) → t.Obeys rules → t.Obeys weaker
  | .logical _ children, obeys => ⟨obeys.1, filtersObey_mono h children obeys.2⟩
  | .field _ condition, obeys => ⟨h.key obeys.1, Condition.Obeys.mono h condition obeys.2⟩

theorem Condition.Obeys.mono (h : rules.Implies weaker) :
    (c : Condition) → c.Obeys rules → c.Obeys weaker
  | .subquery _, _ => trivial
  | .operators clauses, ⟨distinct, each, holds⟩ =>
    ⟨distinct, clausesObey_mono h clauses each, h.operators each holds⟩
  | .nested terms, ⟨distinct, each, holds⟩ =>
    ⟨distinct, termsObey_mono h terms each, h.nested each holds⟩
  | .scalar _, obeys => obeys

theorem termsObey_mono (h : rules.Implies weaker) :
    (terms : List Term) → termsObey rules terms → termsObey weaker terms
  | [], _ => trivial
  | t :: rest, obeys => ⟨Term.Obeys.mono h t obeys.1, termsObey_mono h rest obeys.2⟩

theorem filtersObey_mono (h : rules.Implies weaker) : (filters : List (List Term)) →
    filtersObey rules filters → filtersObey weaker filters
  | [], _ => trivial
  | terms :: rest, obeys =>
    ⟨⟨obeys.1.1, termsObey_mono h terms obeys.1.2⟩, filtersObey_mono h rest obeys.2⟩

end

end Rules

theorem unambiguous_implies_readable : unambiguous.Implies readable where
  key obeys := by simp [readable, isCombinator, obeys.2.1]
  truthOperand scalar := by
    rintro ms rfl
    cases scalar
  operators {cs} each leaf := by
    have decides := classify_clauses (classifyMembers_clauses cs each)
    rw [show clausesHaveLeaf cs = true from leaf] at decides
    exact decides
  nested {terms} each _ := by
    refine ⟨classify_terms each (classifyMembers_terms terms each), ?_⟩
    intro marked
    obtain ⟨m, hm, same⟩ := List.mem_map.mp marked
    exact (keys_of_termsObey each m hm).2 same.symm

/-- A filter that was read prints as the value it was read from, with the keys of its combinators
and operator maps bare, and reads back from that text; so does every unambiguous filter. -/
theorem filter_survives_printing (path : String) :
    (∀ (v : Json) (filter : Filter), v.KeysApart → Filter.ofJson path v = .ok filter →
      filter.toJson = bareFilter v ∧ Filter.ofJson path filter.toJson = .ok filter) ∧
    ∀ filter : Filter, filter.Obeys unambiguous →
      Filter.ofJson path filter.toJson = .ok filter := by
  constructor
  · intro v filter apart read
    obtain ⟨same, obeys⟩ := ofJson_prints apart read
    exact ⟨same, ofJson_toJson obeys path⟩
  · intro filter obeys
    have each := termsObey_mono unambiguous_implies_readable filter obeys.2
    exact ofJson_toJson ⟨obeys.1, each⟩ path

def prefixedText : Json :=
  .obj [
    ("__or", .arr [
      .obj [("title", .obj [("__like", .str "A%"), ("not", .null)])],
      .obj [("length", .obj [
        ("__not", .obj [("__gt", .int 90), ("eq", .obj [("__eq", .null)])])])]]),
    ("language", .obj [("not", .obj [("name", .obj [("in", .arr [.str "en"])])])]),
    ("actors", .obj [("subquery", .str "actors.last_name = 'Z'")])]

def prefixedFilter : Filter :=
  [.logical .or [
      [.field "title" (.operators [.compare .like (.str "A%"), .compare .isNot .null])],
      [.field "length" (.operators [
        .logical .not [[.compare .gt (.int 90), .compare .eq (.obj [("__eq", .null)])]]])]],
    .field "language" (.nested [
      .logical .not [[.field "name" (.operators [.compare .within (.arr [.str "en"])])]]]),
    .field "actors" (.subquery "actors.last_name = 'Z'")]

theorem prefixed_filter_survives_printing :
    prefixedText.KeysApart ∧ Filter.ofJson "filters" prefixedText = .ok prefixedFilter ∧
      prefixedFilter.Obeys unambiguous ∧ prefixedFilter.toJson = bareFilter prefixedText ∧
      Filter.ofJson "filters" prefixedFilter.toJson = .ok prefixedFilter := by
  have apart : prefixedText.KeysApart := by
    simp only [prefixedText, Json.KeysApart, membersKeysApart, itemsKeysApart]
    decide
  have read : Filter.ofJson "filters" prefixedText = .ok prefixedFilter := by
    rfl
  have obeys : prefixedFilter.Obeys unambiguous := by
    simp only [prefixedFilter, Filter.Obeys, termsObey, Term.Obeys, Condition.Obeys, filtersObey,
      clausesObey, Clause.Obeys, clauseListsObey, unambiguous, DistinctKeys]
    and_intros <;> decide
  have survives := filter_survives_printing "filters"
  exact ⟨apart, read, obeys, (survives.1 _ _ apart read).1, survives.2 _ obeys⟩

end ReadPlan
