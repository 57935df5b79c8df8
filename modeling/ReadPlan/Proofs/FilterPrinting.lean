import ReadPlan.Filter.Document
import ReadPlan.Proofs.MergedMembers
import ReadPlan.Proofs.Outcome

/-!
Writing filters back as JSON. What a filter has to obey so that reading its text gives it again is
said once, with the conditions on its keys and on its operator maps as parameters.
-/

namespace ReadPlan

def underCombinator : Combinator → List Json → Json
  | .not, [v] => v
  | _, vs => .arr vs

mutual

def Clause.member : Clause → String × Json
  | .compare op operand => (op.token, operand)
  | .logical op children => (op.token, underCombinator op (clauseListsJson children))

def clauseMembers : List Clause → List (String × Json)
  | [] => []
  | c :: rest => c.member :: clauseMembers rest

def clauseListsJson : List (List Clause) → List Json
  | [] => []
  | cs :: rest => .obj (Keyed.merge (clauseMembers cs)) :: clauseListsJson rest

end

mutual

def Term.member : Term → String × Json
  | .logical op children => (op.token, underCombinator op (filtersJson children))
  | .field key condition => (key, condition.toJson)

def Condition.toJson : Condition → Json
  | .subquery sql => .obj [(subqueryMarker, .str sql)]
  | .operators clauses => .obj (Keyed.merge (clauseMembers clauses))
  | .nested terms => .obj (Keyed.merge (termMembers terms))
  | .scalar v => v

def termMembers : List Term → List (String × Json)
  | [] => []
  | t :: rest => t.member :: termMembers rest

def filtersJson : List (List Term) → List Json
  | [] => []
  | terms :: rest => .obj (Keyed.merge (termMembers terms)) :: filtersJson rest

end

/-- The object of the terms, in order; a repeated key keeps its place and takes the last value. -/
def Filter.toJson (filter : Filter) : Json :=
  .obj (Keyed.merge (termMembers filter))

def DistinctKeys (ms : Json.Members) : Prop :=
  (ms.map (·.1)).Nodup

theorem merge_of_distinct {ms : Json.Members} (distinct : DistinctKeys ms) :
    Keyed.merge ms = ms :=
  Keyed.merge_of_nodup distinct

structure FilterRules where
  key : String → Prop
  truthOperand : Json → Prop
  operators : List Clause → Prop
  nested : List Term → Prop

mutual

def Clause.Obeys (rules : FilterRules) : Clause → Prop
  | .compare op operand => op = .isNot → rules.truthOperand operand
  | .logical op children => (op = .not → children.length = 1) ∧ clauseListsObey rules children

def clausesObey (rules : FilterRules) : List Clause → Prop
  | [] => True
  | c :: rest => c.Obeys rules ∧ clausesObey rules rest

def clauseListsObey (rules : FilterRules) : List (List Clause) → Prop
  | [] => True
  | cs :: rest =>
    (DistinctKeys (clauseMembers cs) ∧ clausesObey rules cs) ∧ clauseListsObey rules rest

end

mutual

def Term.Obeys (rules : FilterRules) : Term → Prop
  | .logical op children => (op = .not → children.length = 1) ∧ filtersObey rules children
  | .field key condition => rules.key key ∧ condition.Obeys rules

def Condition.Obeys (rules : FilterRules) : Condition → Prop
  | .subquery _ => True
  | .operators clauses =>
    DistinctKeys (clauseMembers clauses) ∧ clausesObey rules clauses ∧ rules.operators clauses
  | .nested terms => DistinctKeys (termMembers terms) ∧ termsObey rules terms ∧ rules.nested terms
  | .scalar v => ∀ ms, v ≠ .obj ms

def termsObey (rules : FilterRules) : List Term → Prop
  | [] => True
  | t :: rest => t.Obeys rules ∧ termsObey rules rest

def filtersObey (rules : FilterRules) : List (List Term) → Prop
  | [] => True
  | terms :: rest =>
    (DistinctKeys (termMembers terms) ∧ termsObey rules terms) ∧ filtersObey rules rest

end

/-- Every object has distinct keys, `not` stands before one filter, no bare value is an object, and
the rules hold. -/
def Filter.Obeys (rules : FilterRules) (filter : Filter) : Prop :=
  DistinctKeys (termMembers filter) ∧ termsObey rules filter

/-- What reading relies on: no field is taken for a combinator, no truth test for a negated map, and
each object under a field for what it is. -/
def readable : FilterRules where
  key key := isCombinator key = false
  truthOperand v := ∀ ms, v ≠ .obj ms
  operators clauses := classify (.obj (clauseMembers clauses)) = some .operators
  nested terms := classify (.obj (termMembers terms)) ≠ some .operators ∧
    subqueryMarker ∉ (termMembers terms).map (·.1)

theorem Combinator.ofToken?_token (op : Combinator) : ofToken? op.token = some op := by
  cases op <;> decide

theorem Combinator.ofToken?_operator {op : Operator} (h : op ≠ .isNot) :
    Combinator.ofToken? op.token = none := by
  cases op <;> first | contradiction | decide

theorem readClause_compare {op : Operator} {operand : Json}
    (truth : op = .isNot → ∀ ms, operand ≠ .obj ms) (path : String) :
    readClause path op.token operand = .ok (.compare op operand) := by
  have known := Operator.ofToken?_token op
  by_cases test : op = .isNot
  · have combinator : Combinator.ofToken? op.token = some .not := by
      subst test
      decide
    cases operand with
    | obj ms => exact absurd rfl (truth test ms)
    | _ => simp [readClause, combinator, known]
  · have none := Combinator.ofToken?_operator test
    cases operand <;> simp [readClause, none, known]

mutual

theorem Clause.read_member : (c : Clause) → c.Obeys readable → ∀ path,
    readClause path c.member.1 c.member.2 = .ok c
  | .compare op operand, h, path => readClause_compare h path
  | .logical op children, h, path => by
    have known := Combinator.ofToken?_token op
    rw [Clause.member]
    match op, children, h with
    | .and, children, h | .or, children, h =>
      simp only [underCombinator, readClause, known, readClauseLists_json children h.2, ok_bind]
      rfl
    | .not, [cs], h =>
      obtain ⟨-, ⟨distinct, each⟩, -⟩ := h
      simp only [underCombinator, clauseListsJson, readClause, known, merge_of_distinct distinct,
        readClauses_members cs each, ok_bind]
      rfl
    | .not, [], h => cases h.1 rfl
    | .not, _ :: _ :: _, h => cases h.1 rfl

theorem readClauses_members : (cs : List Clause) → clausesObey readable cs → ∀ path,
    readClauses path (clauseMembers cs) = .ok cs
  | [], _, _ => rfl
  | c :: rest, h, path => by
    rw [clauseMembers, readClauses, c.read_member h.1, readClauses_members rest h.2]
    rfl

theorem readClauseLists_json : (lists : List (List Clause)) → clauseListsObey readable lists →
    ∀ path index, readClauseLists path index (clauseListsJson lists) = .ok lists
  | [], _, _, _ => rfl
  | cs :: rest, h, path, index => by
    obtain ⟨⟨distinct, each⟩, others⟩ := h
    rw [clauseListsJson, merge_of_distinct distinct, readClauseLists, readClauses_members cs each,
      readClauseLists_json rest others]
    rfl

end

theorem Combinator.token_ne_marker (op : Combinator) : subqueryMarker ≠ op.token := by
  cases op <;> decide

theorem Operator.token_ne_marker (op : Operator) : subqueryMarker ≠ op.token := by
  cases op <;> decide

theorem marker_not_mem_clauseMembers (cs : List Clause) :
    subqueryMarker ∉ (clauseMembers cs).map (·.1) := by
  induction cs with
  | nil => simp [clauseMembers]
  | cons c rest ih =>
    rw [clauseMembers, List.map_cons, List.mem_cons, not_or]
    refine ⟨?_, ih⟩
    cases c with
    | compare op operand => exact op.token_ne_marker
    | logical op children => exact op.token_ne_marker

mutual

theorem Term.read_member : (t : Term) → t.Obeys readable → ∀ path {rest terms},
    readTerms path rest = .ok terms → readTerms path (t.member :: rest) = .ok (t :: terms)
  | .logical op children, h, path, rest, terms, more => by
    have known := Combinator.ofToken?_token op
    have read : readChildren (childPath path op.token) op
        (underCombinator op (filtersJson children)) = .ok children := by
      match op, children, h with
      | .and, children, h | .or, children, h => exact readFilters_json children h.2 _ 0
      | .not, [terms], h =>
        obtain ⟨-, ⟨distinct, each⟩, -⟩ := h
        simp only [underCombinator, filtersJson, readChildren, merge_of_distinct distinct,
          readTerms_members terms each, ok_bind]
        rfl
      | .not, [], h => cases h.1 rfl
      | .not, _ :: _ :: _, h => cases h.1 rfl
    simp only [Term.member, readTerms, known, read, more]
    rfl
  | .field key condition, h, path, rest, terms, more => by
    have field : Combinator.ofToken? key = none := by
      simpa [readable, isCombinator] using h.1
    simp only [Term.member, readTerms, field, condition.read_toJson h.2, more]
    rfl

theorem Condition.read_toJson : (c : Condition) → c.Obeys readable → ∀ path,
    readCondition path c.toJson = .ok c
  | .subquery sql, _, path => rfl
  | .operators clauses, h, path => by
    obtain ⟨distinct, each, decided⟩ := h
    have unmarked := Keyed.get?_eq_none.mpr (marker_not_mem_clauseMembers clauses)
    have operators : classify (.obj (clauseMembers clauses)) = some .operators := decided
    simp only [Condition.toJson, merge_of_distinct distinct, readCondition, unmarked, operators,
      readClauses_members clauses each, ok_bind]
    rfl
  | .nested terms, h, path => by
    obtain ⟨distinct, each, undecided, unmarked⟩ := h
    -- the other reading of the object is closed by `undecided`
    simp only [Condition.toJson, merge_of_distinct distinct, readCondition,
      Keyed.get?_eq_none.mpr unmarked, readTerms_members terms each]
    rfl
  | .scalar v, h, path => by
    cases v with
    | obj ms => exact absurd rfl (h ms)
    | _ => rfl

theorem readTerms_members : (terms : List Term) → termsObey readable terms → ∀ path,
    readTerms path (termMembers terms) = .ok terms
  | [], _, _ => rfl
  | t :: rest, h, path => t.read_member h.1 path (readTerms_members rest h.2 path)

theorem readFilters_json : (filters : List (List Term)) → filtersObey readable filters →
    ∀ path index, readFilters path index (filtersJson filters) = .ok filters
  | [], _, _, _ => rfl
  | terms :: rest, h, path, index => by
    obtain ⟨⟨distinct, each⟩, others⟩ := h
    rw [filtersJson, merge_of_distinct distinct, readFilters, readTerms_members terms each,
      readFilters_json rest others]
    rfl

end

/-- Reading the text of a filter that obeys gives the filter again. -/
theorem ofJson_toJson {filter : Filter} (h : filter.Obeys readable) (path : String) :
    Filter.ofJson path filter.toJson = .ok filter := by
  obtain ⟨distinct, each⟩ := h
  rw [Filter.toJson, merge_of_distinct distinct, Filter.ofJson]
  exact readTerms_members filter each path

end ReadPlan
