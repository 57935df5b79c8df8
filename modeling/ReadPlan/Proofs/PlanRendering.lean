import ReadPlan.Proofs.MachineNumbers
import ReadPlan.Proofs.PlanJoins
import ReadPlan.Proofs.PredicateLeaves

namespace ReadPlan

/-- A run that ends in the given error, and in a result when there is none. -/
def Settles {α : Type} (fault? : Option QueryError) (r : Except QueryError α) : Prop :=
  match fault? with
  | some e => r = .error e
  | none => ∃ a, r = .ok a

namespace Settles

variable {α β : Type} {fault? next? : Option QueryError}

theorem pure (a : α) : Settles none (Pure.pure a : Except QueryError α) :=
  ⟨a, rfl⟩

theorem bind {r : Except QueryError α} {k : α → Except QueryError β} (hr : Settles fault? r)
    (hk : ∀ a, r = .ok a → Settles next? (k a)) : Settles (fault?.or next?) (r >>= k) := by
  cases fault? with
  | some e =>
    rw [Settles] at hr
    rw [hr]
    rfl
  | none =>
    obtain ⟨a, rfl⟩ := hr
    exact hk a rfl

theorem after {r : Except QueryError α} {k : α → Except QueryError β} (hr : Settles none r)
    (hk : ∀ a, r = .ok a → Settles fault? (k a)) : Settles fault? (r >>= k) :=
  bind hr hk

theorem before {r : Except QueryError α} {k : α → Except QueryError β} (hr : Settles fault? r)
    (hk : ∀ a, r = .ok a → Settles none (k a)) : Settles fault? (r >>= k) := by
  have whole := bind hr hk
  rwa [Option.or_none] at whole

theorem result {r : Except QueryError α} (hr : Settles fault? r) (f : α → β) :
    Settles fault? (r >>= fun a => Pure.pure (f a)) :=
  before hr fun a _ => pure (f a)

end Settles

def Comparison.arrayError (d : Dialect) (x : Comparison) : QueryError :=
  .invalidShape (x.target.name ++ "." ++ x.operator.token) (.arraysUnsupported d)

def arrayError? (d : Dialect) (xs : List Comparison) : Option QueryError :=
  if d.supportsArrays then none
  else (xs.find? (·.operator.isArray)).map (Comparison.arrayError d)

theorem arrayError?_nil (d : Dialect) : arrayError? d [] = none := by
  simp [arrayError?]

theorem arrayError?_append (d : Dialect) (xs ys : List Comparison) :
    arrayError? d (xs ++ ys) = (arrayError? d xs).or (arrayError? d ys) := by
  unfold arrayError?
  split
  · rfl
  · rw [List.find?_append]
    cases xs.find? (·.operator.isArray) <;> rfl

/-- What a leaf needs to be written: an operand that fits its operator and holds machine numbers, or
an association of the catalog. A combination is no leaf. -/
def Predicate.Writable (c : Catalog) : Predicate → Prop
  | .comparison x | .qualified _ x =>
    x.operand.fits x.operator = true ∧ ∀ v ∈ x.operand.values, v.hasMachineNumbers = true
  | .fragment _ (.exists _ a) => a ∈ c.associations
  | .fragment _ (.field _) => True
  | .globalPattern _ | .logical .. => False

section

variable {c : Catalog} {d : Dialect}

theorem comparison_settles {x : Comparison} (fits : x.operand.fits x.operator = true) :
    Settles (arrayError? d [x]) (x.expr d) := by
  unfold arrayError? Comparison.expr
  obtain ⟨e, total⟩ := operatorExpr_total fits (x.target.name ++ "." ++ x.operator.token)
    x.target.expr
  cases arrays : d.supportsArrays with
  | true => exact ⟨e, by simpa using total⟩
  | false =>
    cases array : x.operator.isArray with
    | true => simp [Settles, array, Comparison.arrayError]
    | false => simpa [Settles, array] using ⟨e, total⟩

theorem requireEntity_settles {name : String} {e : Entity} (h : c.entity? name = some e) :
    Settles none (c.requireEntity name) :=
  ⟨e, Catalog.requireEntity_eq_ok.mpr h⟩

theorem fragment_settles (valid : c.Valid) {sql : String} {scope : FragmentScope}
    (h : Predicate.Writable c (.fragment sql scope)) : Settles none (c.fragmentExpr sql scope) := by
  cases scope with
  | field field => exact ⟨_, rfl⟩
  | «exists» source a =>
    have fits := valid.fits a h
    obtain ⟨owner, hs, -⟩ := fits.source
    obtain ⟨target, ht, -⟩ := fits.target
    have query : Settles none (c.existsQuery source a) := by
      refine .after (requireEntity_settles hs) fun _ _ => ?_
      refine .after (requireEntity_settles ht) fun _ _ => ?_
      dsimp only
      split <;> exact .pure _
    exact .after query fun _ _ => .pure _

mutual

theorem predicate_settles (valid : c.Valid) : (p : Predicate) → p.Each (Predicate.Writable c) →
    Settles (arrayError? d p.comparisons) (p.expr c d)
  | .comparison x, h => comparison_settles h.1
  | .qualified _ x, h => comparison_settles h.1
  | .fragment sql scope, h => by
    rw [Predicate.comparisons, arrayError?_nil]
    exact fragment_settles valid h
  | .globalPattern _, h => False.elim h
  | .logical op children, h => (predicates_settle valid children h).result (Sql.combined op)

theorem predicates_settle (valid : c.Valid) : (ps : List Predicate) →
    predicatesEach (Predicate.Writable c) ps →
      Settles (arrayError? d (Predicate.comparisonsOfAll ps)) (Predicate.exprs c d ps)
  | [], _ => by
    rw [Predicate.comparisonsOfAll, arrayError?_nil]
    exact .pure []
  | p :: rest, h => by
    rw [Predicate.comparisonsOfAll, arrayError?_append]
    exact .bind (predicate_settles valid p h.1) fun e _ =>
      (predicates_settle valid rest h.2).result (e :: ·)

end

theorem clause_settles (valid : c.Valid) {p : Option Predicate}
    (h : predicatesEach (Predicate.Writable c) p.toList) :
    Settles (arrayError? d (p.toList.flatMap Predicate.comparisons))
      (p.mapM (Predicate.expr c d)) := by
  cases p with
  | none =>
    rw [Option.toList_none, List.flatMap_nil, arrayError?_nil]
    exact .pure none
  | some p =>
    rw [Option.toList_some, List.flatMap_singleton, Option.mapM_some]
    exact (predicate_settles valid p h.1).result some

theorem joinParts_settles (valid : c.Valid) {j : JoinNode} (h : j.Grounded c) :
    Settles none (j.parts c) := by
  have fits := valid.fits j.association h.association
  obtain ⟨owner, hs, -⟩ := fits.source
  obtain ⟨target, ht, -⟩ := fits.target
  rw [← h.target] at ht
  refine .after (requireEntity_settles ht) fun e _ => .result ?_ _
  refine .after (requireEntity_settles hs) fun owner _ => ?_
  dsimp only
  split
  · exact .pure _
  · rename_i kind through
    have junction := fits.junction kind
    rw [through] at junction
    contradiction
  · exact .pure _

theorem allParts_settle (valid : c.Valid) {joins : List JoinNode}
    (h : ∀ j ∈ joins, j.Grounded c) : Settles none (joins.mapM (JoinNode.parts c)) := by
  induction joins with
  | nil => exact .pure []
  | cons j rest ih =>
    obtain ⟨here, others⟩ := List.forall_mem_cons.mp h
    rw [List.mapM_cons]
    exact .after (joinParts_settles valid here) fun part _ => (ih others).result (part :: ·)

end

structure Plan.Writable (c : Catalog) (p : Plan) : Prop where
  root : ∃ e, c.entity? p.entity = some e
  joins : ∀ j ∈ p.allJoins, j.Grounded c
  predicate : predicatesEach (Predicate.Writable c) p.predicate.toList
  having : predicatesEach (Predicate.Writable c) p.having.toList

def Plan.comparisons (p : Plan) : List Comparison :=
  p.predicate.toList.flatMap Predicate.comparisons ++ p.having.toList.flatMap Predicate.comparisons

theorem query_settles {c : Catalog} {d : Dialect} (valid : c.Valid) {p : Plan}
    (h : p.Writable c) : Settles (arrayError? d p.comparisons) (p.query c d) := by
  obtain ⟨root, found⟩ := h.root
  rw [Plan.comparisons, arrayError?_append]
  refine .after (requireEntity_settles found) fun root _ =>
    .after (allParts_settle valid h.joins) fun parts _ =>
      .bind (clause_settles valid h.predicate) fun filter _ => ?_
  exact (clause_settles valid h.having).result _

theorem comparison_isFinite {x : Comparison}
    (h : ∀ v ∈ x.operand.values, v.hasMachineNumbers = true) :
    ∀ l ∈ x.loose, l.isFinite = true := by
  have target : ∀ l ∈ x.target.expr.loose, l.isFinite = true := by
    cases x.target with
    | field field => simp [Target.expr, ColumnRef.expr]
    | aggregate a =>
      simp [Target.expr, Aggregate.expr, Sql.Expr.loose, Sql.listLoose, ColumnRef.expr,
        Sql.Loose.isFinite]
  intro l hl
  rcases List.mem_append.mp hl with hl | hl
  · exact target l hl
  · obtain ⟨v, hv, hl⟩ := List.mem_flatMap.mp hl
    exact literal_isFinite (h v hv) l hl

theorem writable_isFinite {c : Catalog} (p : Predicate) (h : p.Writable c) :
    ∀ l ∈ p.loose, l.isFinite = true := by
  cases p with
  | comparison x | qualified _ x => exact comparison_isFinite h.2
  | fragment sql scope => simp [Predicate.loose, Sql.Loose.isFinite]
  | globalPattern | logical => cases h

theorem plan_isFinite {c : Catalog} {p : Plan} (h : p.Writable c) :
    ∀ l ∈ p.loose, l.isFinite = true := by
  rw [Plan.loose, List.forall_mem_append, List.forall_mem_append]
  exact ⟨by simp [Sql.Loose.isFinite],
    predicatesLoose_each _ (predicatesEach_imp writable_isFinite _ h.predicate),
    predicatesLoose_each _ (predicatesEach_imp writable_isFinite _ h.having)⟩

theorem text_ok {d : Dialect} {q : Sql.Query} (h : ∀ l ∈ q.loose, l.isFinite = true) :
    ∃ sql, q.text d = .ok sql := by
  have faultless : ∀ t ∈ q.tokens d .lines, t.fault? = none := by
    refine q.composed d (.of_tokens (Q := (·.isFinite = true)) ?_ ?_ ?_) .lines h
    · intro t bracket
      cases t <;> first | rfl | contradiction
    · intro t fixed
      cases t <;> first | rfl | contradiction
    · intro l finite
      cases l with
      | float x => cases x <;> first | rfl | contradiction
      | _ => rfl
  refine ⟨Sql.tokensText d (q.tokens d .lines), ?_⟩
  rw [Sql.Query.text, Sql.write, List.findSome?_eq_none_iff.mpr faultless]

section

variable {c : Catalog} (valid : c.Valid) {p : Plan} (h : p.Writable c) (d : Dialect)

include valid h

theorem rowsStatement_settles : Settles (arrayError? d p.comparisons) (p.rowsStatement c d) := by
  refine .before (query_settles valid h) fun q made => ?_
  obtain ⟨sql, text⟩ := text_ok (d := d) fun l hl => plan_isFinite h l (Plan.query_loose made hl)
  rw [text]
  exact .pure sql

theorem totalStatement_settles : Settles (arrayError? d p.comparisons) (p.totalStatement c d) := by
  have pageless : p.withoutPage.Writable c := ⟨h.root, h.joins, h.predicate, h.having⟩
  exact (rowsStatement_settles valid pageless d).result (Sql.countStatement d)

end

theorem compare_writable (f : Frame) (key : String) (bound : BoundField) :
    MakesEach (·.hasMachineNumbers = true) (Predicate.Writable f.catalog)
      (f.compare key bound) := by
  intro op v p numbers h
  simp only [Frame.compare, bind_eq_ok, pure_eq_ok] at h
  obtain ⟨operand, made, rfl⟩ := h
  obtain ⟨fits, parts⟩ := Operand.ofJson_spec made
  have held : ∀ w ∈ operand.values, w.hasMachineNumbers = true := fun w hw =>
    Json.machineNumbers_hereditary.parts numbers w (parts hw)
  split <;> exact ⟨fits, held⟩

theorem fragment_writable {f : Frame} {s : Scope} {key sql : String} {p : Predicate}
    (h : f.fragment s key sql = .ok p) : p.Each (Predicate.Writable f.catalog) := by
  unfold Frame.fragment at h
  split at h
  · cases h
  · simp only at h
    split at h
    · cases h
      exact trivial
    · split at h
      · rename_i a found
        cases h
        exact (Catalog.mem_of_association? found).1
      · cases h

theorem having_compare_writable (f : Frame) (key : String) (a : Aggregate) :
    MakesEach (·.hasMachineNumbers = true) (Predicate.Writable f.catalog)
      (Having.compare f key a) := by
  intro op v p numbers h
  simp only [Having.compare, bind_eq_ok, pure_eq_ok] at h
  obtain ⟨operand, made, rfl⟩ := h
  obtain ⟨fits, parts⟩ := Operand.ofJson_spec made
  exact ⟨fits, fun w hw => Json.machineNumbers_hereditary.parts numbers w (parts hw)⟩

theorem readHaving_operands {r : Request} {aggregates : List Aggregate} {filter : Filter}
    (h : r.readHaving aggregates = .ok filter)
    (having : ∀ v, r.having = some v → v.hasMachineNumbers = true) :
    ∀ v ∈ termOperands filter, v.hasMachineNumbers = true := by
  unfold Request.readHaving at h
  split at h
  · cases h
    simp [termOperands]
  · rename_i v given
    have numbers := having v given
    unfold Having.read at h
    split at h
    · split at h
      · cases h
      · exact readTerms_operands Json.machineNumbers_hereditary _ _
          (Json.machineNumbers_hereditary.members numbers) h
    · cases h

theorem writable_of_ofRequest {c : Catalog} {policy : FragmentPolicy} {r : Request} {p : Plan}
    (bound : r.globalSearch = false) (filters : r.filters.hasMachineNumbers = true)
    (having : ∀ v, r.having = some v → v.hasMachineNumbers = true)
    (h : Plan.ofRequest c policy r = .ok p) : p.Writable c := by
  obtain ⟨root, known, h⟩ := ofRequest_eq_ok.mp h
  simp only [Plan.ofRoot, bind_eq_ok, pure_eq_ok] at h
  obtain ⟨filter, read, predicate, compiled, projection, selected, aggregates, -, explicit, -,
    conditions, readToo, condition, compiledToo, sort, -, rfl⟩ := h
  have operands : ∀ v ∈ termOperands filter, v.hasMachineNumbers = true :=
    filter_operands Json.machineNumbers_hereditary filters read
  have rooted := rooted_of_entity? known policy
  constructor
  · exact ⟨root, rooted⟩
  · have sound := ((outputDemands_sound rooted filter selected).append
      (having_demands_sound rooted conditions)).append (sortDemands_sound rooted sort)
    exact joins_grounded r sound.grounded
  · rw [Request.compileFilters, bound] at compiled
    exact filter_compile_each ⟨compare_writable _, fragment_writable⟩ operands compiled
  · exact having_compile_each (fun key a _ => having_compare_writable _ key a)
      (readHaving_operands readToo having) compiledToo

/-- Both statements of a compiled plan are there in a dialect with arrays, and in one without them
exactly when the plan compares no arrays. Otherwise both are refused at the first such comparison,
those of the predicate before those on aggregates. -/
theorem compiled_plan_renders {declarations : List Declaration} {c : Catalog}
    (built : Catalog.build declarations = .ok c) {policy : FragmentPolicy} {r : Request}
    {p : Plan} (bound : r.globalSearch = false) (filters : r.filters.hasMachineNumbers = true)
    (having : ∀ v, r.having = some v → v.hasMachineNumbers = true)
    (compiled : Plan.ofRequest c policy r = .ok p) :
    (∀ d, d = .postgres ∨ d = .duckdb ∨ (∀ x ∈ p.comparisons, x.operator.isArray = false) →
      (∃ sql, p.rowsStatement c d = .ok sql) ∧ ∃ sql, p.totalStatement c d = .ok sql) ∧
    ∀ x, p.comparisons.find? (·.operator.isArray) = some x →
      p.rowsStatement c .mysql = .error (x.arrayError .mysql) ∧
        p.totalStatement c .mysql = .error (x.arrayError .mysql) := by
  have valid := Catalog.valid_of_build built
  have writable := writable_of_ofRequest bound filters having compiled
  have rows d := rowsStatement_settles valid writable d
  have total d := totalStatement_settles valid writable d
  constructor
  · intro d able
    have none : arrayError? d p.comparisons = none := by
      unfold arrayError?
      split
      · rfl
      · rcases able with rfl | rfl | plain
        · contradiction
        · contradiction
        · simpa using plain
    have rowsHere := rows d
    have totalHere := total d
    rw [none] at rowsHere totalHere
    exact ⟨rowsHere, totalHere⟩
  · intro x first
    have error : arrayError? .mysql p.comparisons = some (x.arrayError .mysql) := by
      simp [arrayError?, Dialect.supportsArrays, first]
    have rowsHere := rows .mysql
    have totalHere := total .mysql
    rw [error] at rowsHere totalHere
    exact ⟨rowsHere, totalHere⟩

def filmRequest : Request where
  modelName := "film"
  filters := .obj [
    ("length", .obj [("between", .arr [.int 90, .float (.finite false 241 (-1))])]),
    ("language", .obj [("name", .obj [("like", .str "E%")])]),
    ("actors", .obj [("subquery", .str "actors.last_name = 'Z'")])]
  select := some ["title", "language.name"]
  page := ⟨some 10, none⟩
  sorting := none
  groupBy := []
  aggregates := some [("max", .str "length")]
  having := some (.obj [("max_length", .obj [("any", .arr [.int 100, .int 120])])])
  joinOptions := []
  globalSearch := false

theorem film_plan_renders :
    ∃ p, Plan.ofRequest filmCatalog .allow filmRequest = .ok p ∧
      (∃ sql, p.rowsStatement filmCatalog .postgres = .ok sql) ∧
      p.rowsStatement filmCatalog .mysql =
        .error (.invalidShape "max_length.any" (.arraysUnsupported .mysql)) := by
  have first : (Plan.ofRequest filmCatalog .allow filmRequest).toOption.bind
      (fun p => (p.comparisons.find? (·.operator.isArray)).map (·.arrayError .mysql)) =
        some (.invalidShape "max_length.any" (.arraysUnsupported .mysql)) := by
    decide +kernel
  have numbers : ∀ v, filmRequest.having = some v → v.hasMachineNumbers = true := by
    intro v given
    cases given
    decide
  cases compiled : Plan.ofRequest filmCatalog .allow filmRequest with
  | error e =>
    rw [compiled] at first
    cases first
  | ok p =>
    have renders := compiled_plan_renders film_build rfl (by decide) numbers compiled
    rw [compiled] at first
    obtain ⟨x, found, named⟩ := Option.map_eq_some_iff.mp first
    refine ⟨p, rfl, (renders.1 .postgres (.inl rfl)).1, ?_⟩
    rw [← named]
    exact (renders.2 x found).1

end ReadPlan
