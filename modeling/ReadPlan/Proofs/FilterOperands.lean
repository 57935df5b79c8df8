import ReadPlan.Filter.Document
import ReadPlan.Proofs.MergedMembers
import ReadPlan.Proofs.Outcome

/-!
The leaves of a filter, the conditions that are no filters themselves, are read from parts of the
value that the filter was read from. So what holds of a value and passes to its parts holds of what
every leaf was read from, and of every operand.
-/

namespace ReadPlan

mutual

def Clause.operands : Clause → List Json
  | .compare _ v => [v]
  | .logical _ children => clauseListOperands children

def clauseOperands : List Clause → List Json
  | [] => []
  | c :: rest => c.operands ++ clauseOperands rest

def clauseListOperands : List (List Clause) → List Json
  | [] => []
  | cs :: rest => clauseOperands cs ++ clauseListOperands rest

end

mutual

def Term.operands : Term → List Json
  | .logical _ children => filterOperands children
  | .field _ condition => condition.operands

def Condition.operands : Condition → List Json
  | .operators clauses => clauseOperands clauses
  | .nested terms => termOperands terms
  | .subquery _ | .scalar _ => []

def termOperands : List Term → List Json
  | [] => []
  | t :: rest => t.operands ++ termOperands rest

def filterOperands : List (List Term) → List Json
  | [] => []
  | terms :: rest => termOperands terms ++ filterOperands rest

end

mutual

/-- The conditions in a filter that are no filters themselves, in order. -/
def Term.leaves : Term → List Condition
  | .logical _ children => filterLeaves children
  | .field _ condition => condition.leaves

def Condition.leaves : Condition → List Condition
  | .nested terms => termLeaves terms
  | leaf => [leaf]

def termLeaves : List Term → List Condition
  | [] => []
  | t :: rest => t.leaves ++ termLeaves rest

def filterLeaves : List (List Term) → List Condition
  | [] => []
  | terms :: rest => termLeaves terms ++ filterLeaves rest

end

-- All operands are operands of leaves.
mutual

theorem Term.operands_eq_flatMap : (t : Term) → t.operands = t.leaves.flatMap Condition.operands
  | .logical _ children => filterOperands_eq_flatMap children
  | .field _ condition => condition.operands_eq_flatMap

theorem Condition.operands_eq_flatMap :
    (c : Condition) → c.operands = c.leaves.flatMap Condition.operands
  | .nested terms => termOperands_eq_flatMap terms
  | .subquery _ | .operators _ | .scalar _ => (List.flatMap_singleton _ _).symm

theorem termOperands_eq_flatMap :
    (terms : List Term) → termOperands terms = (termLeaves terms).flatMap Condition.operands
  | [] => rfl
  | t :: rest => by
    rw [termOperands, termLeaves, List.flatMap_append, t.operands_eq_flatMap,
      termOperands_eq_flatMap rest]

theorem filterOperands_eq_flatMap : (filters : List (List Term)) →
    filterOperands filters = (filterLeaves filters).flatMap Condition.operands
  | [] => rfl
  | terms :: rest => by
    rw [filterOperands, filterLeaves, List.flatMap_append, termOperands_eq_flatMap terms,
      filterOperands_eq_flatMap rest]

end

theorem Condition.leaves_of_plain {c : Condition} (plain : ∀ terms, c ≠ .nested terms) :
    c.leaves = [c] := by
  cases c with
  | nested terms => exact absurd rfl (plain terms)
  | _ => rfl

/-! What a condition says about the value that it was read from. -/

section

variable {path : String} {v : Json}

theorem readCondition_subquery {sql : String}
    (h : readCondition path v = .ok (.subquery sql)) : v = .obj [(subqueryMarker, .str sql)] := by
  cases v with
  | obj ms =>
    rw [readCondition] at h
    split at h
    · rename_i marker found
      unfold readMarker at h
      split at h
      · cases h
        cases List.mem_singleton.mp (Keyed.mem_of_get? found)
        rfl
      · cases h
    · split at h
      all_goals
        simp only [bind_eq_ok, pure_eq_ok] at h
        obtain ⟨_, -, other⟩ := h
        cases other
  | _ => cases h

theorem readCondition_operators {clauses : List Clause}
    (h : readCondition path v = .ok (.operators clauses)) :
    ∃ ms, v = .obj ms ∧ readClauses path ms = .ok clauses := by
  cases v with
  | obj ms =>
    rw [readCondition] at h
    split at h
    · unfold readMarker at h
      split at h <;> cases h
    · split at h
      all_goals
        simp only [bind_eq_ok, pure_eq_ok] at h
        obtain ⟨_, read, same⟩ := h
        cases same
      exact ⟨ms, rfl, read⟩
  | _ => cases h

theorem readCondition_nested {ms : Json.Members} {terms : List Term}
    (h : readCondition path (.obj ms) = .ok (.nested terms)) : readTerms path ms = .ok terms := by
  rw [readCondition] at h
  split at h
  · unfold readMarker at h
    split at h <;> cases h
  · split at h
    all_goals
      simp only [bind_eq_ok, pure_eq_ok] at h
      obtain ⟨_, read, same⟩ := h
      cases same
    exact read

end

/-- Passes from a value to its items and members. -/
structure Hereditary (H : Json → Prop) : Prop where
  items : ∀ {vs}, H (.arr vs) → ∀ v ∈ vs, H v
  members : ∀ {ms}, H (.obj ms) → ∀ m ∈ ms, H m.2

def Json.parts : Json → List Json
  | .arr items => items
  | v => [v]

theorem Json.parts_of_isScalar {v : Json} (h : v.isScalar = true) : v.parts = [v] := by
  cases v <;> first | rfl | contradiction

section

variable {H : Json → Prop}

theorem Hereditary.parts (hereditary : Hereditary H) {v : Json} (hv : H v) :
    ∀ w ∈ v.parts, H w := by
  cases v with
  | arr items => exact hereditary.items hv
  | _ => simpa [Json.parts] using hv

mutual

theorem readClauses_operands (hereditary : Hereditary H) (path : String) :
    (ms : Json.Members) → (∀ m ∈ ms, H m.2) →
      ∀ {clauses}, readClauses path ms = .ok clauses → ∀ v ∈ clauseOperands clauses, H v
  | [], _, _, h => by
    cases h
    simp [clauseOperands]
  | (token, operand) :: rest, hm, _, h => by
    obtain ⟨here, others⟩ := List.forall_mem_cons.mp hm
    simp only [readClauses, bind_eq_ok, pure_eq_ok] at h
    obtain ⟨clause, first, clauses, more, rfl⟩ := h
    rw [clauseOperands, List.forall_mem_append]
    exact ⟨readClause_operands hereditary _ token operand here first,
      readClauses_operands hereditary path rest others more⟩

theorem readClause_operands (hereditary : Hereditary H) (path token : String) : (v : Json) → H v →
    ∀ {clause}, readClause path token v = .ok clause → ∀ w ∈ clause.operands, H w
  | .obj inner, hv, _, h => by
    simp only [readClause] at h
    split at h
    · simp only [bind_eq_ok, pure_eq_ok] at h
      obtain ⟨clauses, read, rfl⟩ := h
      simpa [Clause.operands, clauseListOperands] using
        readClauses_operands hereditary path inner (hereditary.members hv) read
    · cases h
    · split at h <;> cases h
      simpa [Clause.operands] using hv
  | .arr items, hv, _, h => by
    have lists {op : Combinator} {clause : Clause}
        (hl : (do return Clause.logical op (← readClauseLists path 0 items)) = Except.ok clause) :
        ∀ w ∈ clause.operands, H w := by
      simp only [bind_eq_ok, pure_eq_ok] at hl
      obtain ⟨children, read, rfl⟩ := hl
      exact readClauseLists_operands hereditary path 0 items (hereditary.items hv) read
    simp only [readClause] at h
    split at h
    · exact lists h
    · exact lists h
    · split at h <;> cases h
      simpa [Clause.operands] using hv
  | .null, hv, _, h | .bool _, hv, _, h | .int _, hv, _, h | .float _, hv, _, h
  | .str _, hv, _, h => by
    simp only [readClause] at h
    split at h
    · cases h
    · cases h
    · split at h <;> cases h
      simpa [Clause.operands] using hv

theorem readClauseLists_operands (hereditary : Hereditary H) (path : String) (index : Nat) :
    (vs : List Json) → (∀ v ∈ vs, H v) → ∀ {lists}, readClauseLists path index vs = .ok lists →
      ∀ w ∈ clauseListOperands lists, H w
  | [], _, _, h => by
    cases h
    simp [clauseListOperands]
  | .obj inner :: rest, hv, _, h => by
    obtain ⟨here, others⟩ := List.forall_mem_cons.mp hv
    simp only [readClauseLists, bind_eq_ok, pure_eq_ok] at h
    obtain ⟨clauses, first, lists, more, rfl⟩ := h
    rw [clauseListOperands, List.forall_mem_append]
    exact ⟨readClauses_operands hereditary _ inner (hereditary.members here) first,
      readClauseLists_operands hereditary path (index + 1) rest others more⟩
  | .arr _ :: _, _, _, h | .null :: _, _, _, h | .bool _ :: _, _, _, h | .int _ :: _, _, _, h
  | .float _ :: _, _, _, h | .str _ :: _, _, _, h => by cases h

end

structure Condition.LeafOf (H : Json → Prop) (c : Condition) : Prop where
  plain : ∀ terms, c ≠ .nested terms
  read : ∃ path v, H v ∧ readCondition path v = .ok c

mutual

theorem readTerms_leaves (hereditary : Hereditary H) (path : String) :
    (ms : Json.Members) → (∀ m ∈ ms, H m.2) →
      ∀ {terms}, readTerms path ms = .ok terms → ∀ c ∈ termLeaves terms, c.LeafOf H
  | [], _, _, h => by
    cases h
    simp [termLeaves]
  | (key, v) :: rest, hm, _, h => by
    obtain ⟨here, others⟩ := List.forall_mem_cons.mp hm
    simp only [readTerms] at h
    split at h
    · simp only [bind_eq_ok, map_eq_ok, pure_eq_ok] at h
      obtain ⟨_, ⟨children, first, rfl⟩, terms, more, rfl⟩ := h
      rw [termLeaves, List.forall_mem_append]
      exact ⟨readChildren_leaves hereditary _ _ v here first,
        readTerms_leaves hereditary path rest others more⟩
    · simp only [bind_eq_ok, map_eq_ok, pure_eq_ok] at h
      obtain ⟨_, ⟨condition, first, rfl⟩, terms, more, rfl⟩ := h
      rw [termLeaves, List.forall_mem_append]
      exact ⟨readCondition_leaves hereditary _ v here first,
        readTerms_leaves hereditary path rest others more⟩

theorem readChildren_leaves (hereditary : Hereditary H) (path : String) (op : Combinator) :
    (v : Json) → H v →
      ∀ {children}, readChildren path op v = .ok children → ∀ c ∈ filterLeaves children, c.LeafOf H
  | .obj ms, hv, _, h => by
    simp only [readChildren] at h
    split at h
    · simp only [bind_eq_ok, pure_eq_ok] at h
      obtain ⟨terms, read, rfl⟩ := h
      have held := readTerms_leaves hereditary path ms (hereditary.members hv) read
      simpa [filterLeaves] using held
    · cases h
  | .arr items, hv, _, h => by
    simp only [readChildren] at h
    split at h
    · cases h
    · exact readFilters_leaves hereditary path 0 items (hereditary.items hv) h
  | .null, _, _, h | .bool _, _, _, h | .int _, _, _, h | .float _, _, _, h
  | .str _, _, _, h => by
    simp only [readChildren] at h
    split at h <;> cases h

theorem readFilters_leaves (hereditary : Hereditary H) (path : String) (index : Nat) :
    (vs : List Json) → (∀ v ∈ vs, H v) → ∀ {filters}, readFilters path index vs = .ok filters →
      ∀ c ∈ filterLeaves filters, c.LeafOf H
  | [], _, _, h => by
    cases h
    simp [filterLeaves]
  | .obj ms :: rest, hv, _, h => by
    obtain ⟨here, others⟩ := List.forall_mem_cons.mp hv
    simp only [readFilters, bind_eq_ok, pure_eq_ok] at h
    obtain ⟨terms, first, filters, more, rfl⟩ := h
    rw [filterLeaves, List.forall_mem_append]
    exact ⟨readTerms_leaves hereditary _ ms (hereditary.members here) first,
      readFilters_leaves hereditary path (index + 1) rest others more⟩
  | .arr _ :: _, _, _, h | .null :: _, _, _, h | .bool _ :: _, _, _, h | .int _ :: _, _, _, h
  | .float _ :: _, _, _, h | .str _ :: _, _, _, h => by cases h

theorem readCondition_leaves (hereditary : Hereditary H) (path : String) : (v : Json) → H v →
    ∀ {condition}, readCondition path v = .ok condition → ∀ c ∈ condition.leaves, c.LeafOf H
  | .obj ms, hv, condition, h => by
    by_cases nested : ∃ terms, condition = .nested terms
    · obtain ⟨terms, rfl⟩ := nested
      exact readTerms_leaves hereditary path ms (hereditary.members hv) (readCondition_nested h)
    · have plain := not_exists.mp nested
      rw [Condition.leaves_of_plain plain]
      exact List.forall_mem_singleton.mpr ⟨plain, path, .obj ms, hv, h⟩
  | .arr _, hv, _, h | .null, hv, _, h | .bool _, hv, _, h | .int _, hv, _, h | .float _, hv, _, h
  | .str _, hv, _, h => by
    cases h
    exact List.forall_mem_singleton.mpr ⟨by simp, path, _, hv, rfl⟩

end

theorem Condition.LeafOf.operands (hereditary : Hereditary H) {c : Condition} (h : c.LeafOf H) :
    ∀ w ∈ c.operands, H w := by
  obtain ⟨path, v, hv, read⟩ := h.read
  cases c with
  | operators clauses =>
    obtain ⟨ms, rfl, listed⟩ := readCondition_operators read
    exact readClauses_operands hereditary path ms (hereditary.members hv) listed
  | nested terms => exact absurd rfl (h.plain terms)
  | subquery | scalar => simp [Condition.operands]

theorem readTerms_operands (hereditary : Hereditary H) (path : String) (ms : Json.Members)
    (hm : ∀ m ∈ ms, H m.2) {terms : List Term} (h : readTerms path ms = .ok terms) :
    ∀ v ∈ termOperands terms, H v := by
  intro v hv
  rw [termOperands_eq_flatMap] at hv
  obtain ⟨c, hc, hv⟩ := List.mem_flatMap.mp hv
  exact (readTerms_leaves hereditary path ms hm h c hc).operands hereditary v hv

/-- Every leaf of a filter was read from what the value of the filter passes its property to. -/
theorem filter_leaves (hereditary : Hereditary H) {path : String} {v : Json} (hv : H v)
    {filter : Filter} (h : Filter.ofJson path v = .ok filter) :
    ∀ c ∈ termLeaves filter, c.LeafOf H := by
  cases v with
  | obj ms => exact readTerms_leaves hereditary path ms (hereditary.members hv) h
  | _ => cases h

/-- Every operand of a filter has what the value of the filter passes to its parts. -/
theorem filter_operands (hereditary : Hereditary H) {path : String} {v : Json} (hv : H v)
    {filter : Filter} (h : Filter.ofJson path v = .ok filter) :
    ∀ w ∈ termOperands filter, H w := by
  cases v with
  | obj ms => exact readTerms_operands hereditary path ms (hereditary.members hv) h
  | _ => cases h

end

end ReadPlan
