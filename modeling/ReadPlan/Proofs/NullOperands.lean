import ReadPlan.Proofs.KeptConditions
import ReadPlan.Proofs.PlanRendering
import ReadPlan.Proofs.WrittenValues

namespace ReadPlan

theorem Sql.null_mem_written (vs : List Json) :
    .keyword .null ∈ writtenValues vs ↔ .null ∈ vs := by
  have same (v : Json) : (Literal.ofJson v).token = .keyword .null ↔ v = .null := by
    cases v with
    | int n =>
      simp only [Literal.ofJson]
      split <;> simp [Literal.token]
    | _ => simp [Literal.ofJson, Literal.token]
  simp [writtenValues, plainValues, Token.isPlainValue, same]

/-- The operand was read from the value that is written for it. -/
def Comparison.Compiled (x : Comparison) : Prop :=
  ∃ f path, Operand.ofJson f path x.operator x.operand.written = .ok x.operand

theorem Operand.compiled {f : Frame} {path : String} {v : Json} {x : Comparison}
    (h : Operand.ofJson f path x.operator v = .ok x.operand) : x.Compiled :=
  ⟨f, path, by rwa [Operand.written_of_ofJson h]⟩

theorem Operand.value_sound {f : Frame} {path : String} {op : Operator} {w v : Json}
    (h : ofJson f path op w = .ok (.value v)) : scalarFault? op v = none := by
  unfold ofJson at h
  simp only at h
  split at h
  · split at h
    · cases h
    · rename_i sound
      cases h
      exact sound
  · split at h <;> cases h
  · cases h
  · split at h <;> cases h
  · cases h
  · simp only [bind_eq_ok, pure_eq_ok] at h
    obtain ⟨field, -, other⟩ := h
    cases other
  · cases h

theorem Operand.acceptsNull_of_sound {op : Operator} (h : scalarFault? op .null = none) :
    acceptsNull op = true := by
  cases op <;> first | rfl | cases h

theorem Operand.scalar_of_acceptsNull {op : Operator} (h : acceptsNull op = true) :
    op.shape = .scalar := by
  cases op <;> first | rfl | cases h

namespace Comparison

variable {x : Comparison}

/-- Operators that do not accept null have one only in an array. -/
theorem Compiled.null_iff (h : x.Compiled) :
    (.null ∈ x.operand.values ∧ Operand.acceptsNull x.operator = false) ↔
      ∃ items, x.operand.written = .arr items ∧ .null ∈ items := by
  obtain ⟨f, path, made⟩ := h
  have fits := (Operand.ofJson_spec made).1
  obtain ⟨target, op, operand⟩ := x
  have refuses (other : op.shape ≠ .scalar) : Operand.acceptsNull op = false :=
    Bool.eq_false_iff.mpr fun accepts => other (Operand.scalar_of_acceptsNull accepts)
  cases operand with
  | value v =>
    have sound := Operand.value_sound made
    have scalar := (Operand.scalarFault?_eq_none sound).1
    constructor
    · rintro ⟨mem, refused⟩
      obtain rfl := List.mem_singleton.mp mem
      rw [Operand.acceptsNull_of_sound sound] at refused
      cases refused
    · rintro ⟨items, rfl, -⟩
      cases scalar
  | list vs =>
    simp only [Operand.fits, beq_iff_eq] at fits
    simp [Operand.values, Operand.written, refuses, fits]
  | range low high =>
    simp only [Operand.fits, beq_iff_eq] at fits
    simp [Operand.values, Operand.written, refuses, fits]
  | column field => simp [Operand.values, Operand.written]

theorem Compiled.null_cases (h : x.Compiled) (mem : .null ∈ x.operand.values) :
    Operand.acceptsNull x.operator = true ∧ x.operand = .value .null ∨
      ∃ items, x.operand.written = .arr items ∧ .null ∈ items := by
  cases accepts : Operand.acceptsNull x.operator with
  | false => exact .inr (h.null_iff.mp ⟨mem, accepts⟩)
  | true =>
    obtain ⟨f, path, made⟩ := h
    have fits := (Operand.ofJson_spec made).1
    have scalar := Operand.scalar_of_acceptsNull accepts
    obtain ⟨target, op, operand⟩ := x
    cases operand with
    | value v =>
      obtain rfl := List.mem_singleton.mp mem
      exact .inl ⟨rfl, rfl⟩
    | list | range | column => simp [Operand.fits, scalar] at fits

theorem Compiled.value_of_equality (h : x.Compiled) (equality : x.operator = .eq ∨ x.operator = .ne)
    (mem : .null ∈ x.operand.values) : x.operand = .value .null := by
  refine (h.null_cases mem).elim And.right fun array => ?_
  have refused := (h.null_iff.mpr array).2
  obtain eq | ne := equality
  · rw [eq] at refused
    cases refused
  · rw [ne] at refused
    cases refused

/-- NULL is written for every null but one that is tested for. -/
theorem Compiled.null_written_iff (h : x.Compiled) {d : Dialect} {e : Sql.Expr}
    (rendered : x.expr d = .ok e) :
    .keyword .null ∈ e.tokens d ↔
      .null ∈ x.operand.values ∧ x.operator ≠ .eq ∧ x.operator ≠ .ne := by
  have value : .keyword .null ∈ e.tokens d ↔ .keyword .null ∈ Sql.plainValues (e.tokens d) := by
    simp [Sql.plainValues, Sql.Token.isPlainValue]
  rw [value]
  by_cases test : x.TestsNull
  · rw [no_values_written rendered test]
    obtain ⟨eq | ne, -⟩ := test
    · simp [eq]
    · simp [ne]
  · rw [values_written rendered test, Sql.null_mem_written]
    refine ⟨fun mem => ?_, And.left⟩
    have alone (equality : x.operator = .eq ∨ x.operator = .ne) : x.operand = .value .null :=
      h.value_of_equality equality mem
    exact ⟨mem, fun eq => test ⟨.inl eq, alone (.inl eq)⟩,
      fun ne => test ⟨.inr ne, alone (.inr ne)⟩⟩

end Comparison

theorem KeptFrom.compiled {R : WrittenComparison → Predicate → Prop} {filter : Filter}
    {p : Option Predicate} (h : KeptFrom R filter p)
    (made : ∀ {w q}, R w q → ∀ x ∈ q.comparisons, x.Compiled) :
    ∀ x ∈ Predicate.comparisonsOfAll p.toList, x.Compiled := by
  intro x hx
  rw [comparisonsOfAll_leaves, List.mem_flatMap] at hx
  obtain ⟨leaf, mem, hx⟩ := hx
  obtain ⟨w, related⟩ := source_of_related h.leaves leaf mem
  exact made related x hx

theorem Frame.Compares.compiled {f : Frame} {w : WrittenComparison} {p : Predicate}
    (h : f.Compares w p) : ∀ x ∈ p.comparisons, x.Compiled := by
  have made {route : List String} {x : Comparison} (means : f.Means w route x) : x.Compiled := by
    have operand := means.operand
    rw [← means.operator] at operand
    exact Operand.compiled operand
  intro x hx
  cases h with
  | own means | associated joined means =>
    obtain rfl := List.mem_singleton.mp hx
    exact made means

theorem Having.Compares.compiled {f : Frame} {aggregates : List Aggregate} {w : WrittenComparison}
    {p : Predicate} (h : Having.Compares f aggregates w p) : ∀ x ∈ p.comparisons, x.Compiled := by
  intro x hx
  cases h with
  | group named target operator operand =>
    obtain rfl := List.mem_singleton.mp hx
    rw [← operator] at operand
    exact Operand.compiled operand

theorem Plan.comparisons_eq (p : Plan) : p.comparisons =
    Predicate.comparisonsOfAll p.predicate.toList ++
      Predicate.comparisonsOfAll p.having.toList := by
  have part (o : Option Predicate) :
      o.toList.flatMap Predicate.comparisons = Predicate.comparisonsOfAll o.toList := by
    cases o with
    | none => rfl
    | some p => simp [Predicate.comparisonsOfAll]
  rw [Plan.comparisons, part, part]

theorem plan_kept {c : Catalog} {policy : FragmentPolicy} {r : Request} {p : Plan}
    (bare : r.globalSearch = false) (h : Plan.ofRequest c policy r = .ok p) :
    ∃ filter conditions, Filter.ofJson "filters" r.filters = .ok filter ∧
      r.readHaving p.aggregates = .ok conditions ∧ (∀ x ∈ p.comparisons, x.Compiled) ∧
      p.comparisons.map Comparison.written =
        (termsWritten [] filter ++ termsWritten [] conditions).map WrittenComparison.asserts := by
  obtain ⟨root, filter, rest, -, read, compiled, made, whole⟩ := stages_of_ofRequest h
  have filtered : Filter.compile ⟨c, root, policy⟩ filter = .ok p.predicate := by
    simpa [Request.compileFilters, bare] using compiled
  simp only [PlanRest.ofRequest, bind_eq_ok, pure_eq_ok] at made
  obtain ⟨_, -, aggregates, -, _, -, conditions, conditioned, condition, grouped, _, -, rfl⟩ := made
  have given : p.aggregates = aggregates := by rw [whole]; rfl
  have compared : p.having = condition := by rw [whole]; rfl
  rw [← given] at conditioned grouped
  rw [← compared] at grouped
  have kept := filter_kept filtered
  have keptToo := having_kept grouped
  refine ⟨filter, conditions, read, conditioned, ?_, ?_⟩
  · rw [Plan.comparisons_eq]
    exact List.forall_mem_append.mpr
      ⟨kept.compiled Frame.Compares.compiled, keptToo.compiled Having.Compares.compiled⟩
  · rw [Plan.comparisons_eq, List.map_append, List.map_append, kept.listed, keptToo.listed]

/-- A comparison of a plan may hold a null where its operator is defined for one, or in an array; so
operators are kept from null exactly where the request writes no array with a null in it. In a
statement NULL stands for every null but one that is tested for. -/
theorem nulls_reach_arrays {c : Catalog} {policy : FragmentPolicy} {r : Request} {p : Plan}
    (bare : r.globalSearch = false) (h : Plan.ofRequest c policy r = .ok p) :
    (∀ x ∈ p.comparisons, .null ∈ x.operand.values →
      Operand.acceptsNull x.operator = true ∧ x.operand = .value .null ∨
        ∃ items, x.operand.written = .arr items) ∧
    (∃ filter conditions, Filter.ofJson "filters" r.filters = .ok filter ∧
      r.readHaving p.aggregates = .ok conditions ∧
      ((∀ x ∈ p.comparisons, .null ∈ x.operand.values → Operand.acceptsNull x.operator = true) ↔
        ∀ w ∈ termsWritten [] filter ++ termsWritten [] conditions, ∀ items,
          w.operand = .arr items → .null ∉ items)) ∧
    ∀ d, ∀ x ∈ p.comparisons, ∀ e, x.expr d = .ok e →
      (.keyword .null ∈ e.tokens d ↔
        .null ∈ x.operand.values ∧ x.operator ≠ .eq ∧ x.operator ≠ .ne) := by
  obtain ⟨filter, conditions, read, conditioned, compiled, listed⟩ := plan_kept bare h
  refine ⟨fun x hx mem => ?_, ⟨filter, conditions, read, conditioned, ?_⟩,
    fun d x hx e rendered => (compiled x hx).null_written_iff rendered⟩
  · exact (compiled x hx).null_cases mem |>.imp_right fun ⟨items, written, _⟩ => ⟨items, written⟩
  · constructor
    · intro accepted w hw items array null
      have mem := List.mem_map_of_mem (f := WrittenComparison.asserts) hw
      rw [← listed] at mem
      obtain ⟨x, hx, same⟩ := List.mem_map.mp mem
      have written : x.operand.written = .arr items := (congrArg Prod.snd same).trans array
      have refused := (compiled x hx).null_iff.mpr ⟨items, written, null⟩
      exact absurd (accepted x hx refused.1) (by simp [refused.2])
    · intro none x hx null
      by_contra refused
      obtain ⟨items, array, mem⟩ :=
        (compiled x hx).null_iff.mp ⟨null, Bool.eq_false_iff.mpr refused⟩
      have listedAt := List.mem_map_of_mem (f := Comparison.written) hx
      rw [listed] at listedAt
      obtain ⟨w, hw, same⟩ := List.mem_map.mp listedAt
      exact none w hw items ((congrArg Prod.snd same).trans array) mem

def ratedRequest : Request :=
  { Request.ofModel "film" with
    filters := .obj [
      ("title", .obj [("ne", .null), ("notIn", .arr [.str "G", .str "PG"])]),
      ("length", .obj [("between", .arr [.int 90, .int 120])])]
    aggregates := some [("max", .str "length")]
    having := some (.obj [("max_length", .obj [("ne", .null)])]) }

theorem film_nulls_tested :
    ∃ p, Plan.ofRequest filmCatalog .reject ratedRequest = .ok p ∧
      ∀ x ∈ p.comparisons, .null ∈ x.operand.values → Operand.acceptsNull x.operator = true := by
  have runs : (Plan.ofRequest filmCatalog .reject ratedRequest).toOption.any (fun p =>
      p.aggregates = filmAggregates) = true := by
    decide +kernel
  obtain ⟨p, compiled, aggregates⟩ := exists_ok_of_any runs
  obtain ⟨-, ⟨filter, conditions, read, grouped, none⟩, -⟩ := nulls_reach_arrays rfl compiled
  rw [of_decide_eq_true aggregates] at grouped
  cases (show Filter.ofJson "filters" ratedRequest.filters = .ok _ from rfl).symm.trans read
  cases (show ratedRequest.readHaving _ = .ok _ from rfl).symm.trans grouped
  refine ⟨p, compiled, none.mpr fun w hw items array => ?_⟩
  have operands : w.operand ∈
      [.null, .arr [.str "G", .str "PG"], .arr [.int 90, .int 120], .null] :=
    List.mem_map_of_mem (f := WrittenComparison.operand) hw
  rw [array] at operands
  obtain rfl | rfl : items = [.str "G", .str "PG"] ∨ items = [.int 90, .int 120] := by
    simpa using operands
  · simp
  · simp

def exclusionRequest : Request :=
  { Request.ofModel "film" with
    filters := .obj [("title", .obj [("notIn", .arr [.str "G", .null])])] }

/-- A list with a null excludes every row: each may equal the null. -/
theorem null_in_exclusion :
    exclusionRequest.globalSearch = false ∧
      ∃ p x e, Plan.ofRequest filmCatalog .reject exclusionRequest = .ok p ∧
        x ∈ p.comparisons ∧ x.operator = .notIn ∧ .null ∈ x.operand.values ∧
        x.expr .postgres = .ok e ∧ .keyword .null ∈ e.tokens .postgres ∧
        ∀ t, (Truth.any [t, .unknown]).not ≠ .yes := by
  have runs : (Plan.ofRequest filmCatalog .reject exclusionRequest).toOption.any (fun p =>
      p.comparisons.any fun x => decide (x.operator = .notIn) &&
        (x.expr .postgres).toOption.any fun e => .keyword .null ∈ e.tokens .postgres) = true := by
    decide +kernel
  obtain ⟨p, compiled, compared⟩ := exists_ok_of_any runs
  obtain ⟨x, hx, compared⟩ := List.any_eq_true.mp compared
  obtain ⟨excludes, written⟩ := Bool.and_eq_true_iff.mp compared
  obtain ⟨e, rendered, null⟩ := exists_ok_of_any written
  obtain ⟨-, -, -, -, sources, -⟩ := plan_kept rfl compiled
  have null := of_decide_eq_true null
  refine ⟨rfl, p, x, e, compiled, hx, of_decide_eq_true excludes,
    ((sources x hx).null_written_iff rendered |>.mp null).1, rendered, null, fun t => ?_⟩
  cases t <;> decide

end ReadPlan
