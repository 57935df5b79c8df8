import ReadPlan.Proofs.Grouping

/-!
The columns of a plan with groups that stand outside of its aggregates. The returned ones are
grouped, whatever the request. The order and the column operands of the conditions on groups are
bound as in a plan without groups, so the statement is one of groups exactly where the request
orders and compares by columns that are grouped.
-/

namespace ReadPlan

namespace Sql

mutual

/-- What an expression mentions outside of the calls of functions. -/
def Expr.bareMentions : Expr → List Mention
  | .column table column => [.column table column]
  | .star table => [.star table]
  | .exists query => [.exists query]
  | .literal _ | .raw _ | .call .. => []
  | .array items => listBareMentions items
  | .binary left _ right => left.bareMentions ++ right.bareMentions
  | .not e | .isNull e _ | .paren e => e.bareMentions
  | .inList e values _ => e.bareMentions ++ listBareMentions values
  | .between e low high _ => e.bareMentions ++ (low.bareMentions ++ high.bareMentions)
  | .is e value _ => e.bareMentions ++ value.bareMentions
  | .quantified e _ _ array => e.bareMentions ++ array.bareMentions

def listBareMentions : List Expr → List Mention
  | [] => []
  | e :: rest => e.bareMentions ++ listBareMentions rest

end

namespace Query

def GroupsMention (q : Query) : Mention → Prop
  | .column table column => .column table column ∈ q.groupBy
  | .star _ | .exists _ => False

def GroupsOrder (q : Query) (order : OrderItem) : Prop :=
  (∃ item ∈ q.select, ∃ name, item.name = some name ∧ order.expr = .column none name) ∨
    ∀ m ∈ order.expr.bareMentions, q.GroupsMention m

/-- A query of groups has one row for each of them: outside of the aggregates it mentions the
grouping columns alone. -/
structure IsGrouped (q : Query) : Prop where
  select : ∀ item ∈ q.select, ∀ m ∈ item.expr.bareMentions, q.GroupsMention m
  having : ∀ e ∈ q.having, ∀ m ∈ e.bareMentions, q.GroupsMention m
  orderBy : ∀ order ∈ q.orderBy, q.GroupsOrder order

end Query

theorem bareMentions_gathers : Gathers Expr.bareMentions where
  binary left op right := by rw [Expr.bareMentions]
  not e := by rw [Expr.bareMentions]
  paren e := by rw [Expr.bareMentions]
  truth b := rfl

theorem listBareMentions_literals (vs : List Json) : listBareMentions (vs.map literal) = [] := by
  induction vs with
  | nil => rfl
  | cons v rest ih => rw [List.map_cons, listBareMentions, ih, literal, Expr.bareMentions,
      List.nil_append]

theorem compares_bareMentions {left e : Expr} {operand : Operand} (h : Compares left operand e) :
    e.bareMentions = left.bareMentions ++ operand.columns.map ColumnRef.mention := by
  cases h <;>
    simp [Expr.bareMentions, literal, listBareMentions_literals, Operand.columns, ColumnRef.expr,
      Expr.ofColumn, ColumnRef.mention]

end Sql

/-! Conditions on groups. -/

def Frame.BindsColumn (f : Frame) (column : ColumnRef) : Prop :=
  ∃ reference field, f.bind reference = .ok field ∧ field.column = column

/-- A condition on groups compares one of the aggregates, possibly with the column of a field. -/
def Predicate.TestsGroups (f : Frame) (aggregates : List Aggregate) : Predicate → Prop
  | .comparison x =>
    (∃ a ∈ aggregates, x.target = .aggregate a) ∧ ∀ column ∈ x.operand.columns, f.BindsColumn column
  | .logical .. | .qualified .. | .fragment .. | .globalPattern _ => False

namespace Plan

def orderColumns (p : Plan) : List ColumnRef :=
  match p.sort with
  | some ⟨.field field, _⟩ => [field.column]
  | some ⟨.aggregate _, _⟩ | none => []

def conditionColumns (p : Plan) : List ColumnRef :=
  (Predicate.comparisonsOfAll p.having.toList).flatMap (·.operand.columns)

end Plan

section

variable {f : Frame} {aggregates : List Aggregate} {c : Catalog} {d : Dialect}

theorem having_tests_groups {filter : Filter} {condition : Option Predicate}
    (h : Having.compile f aggregates filter = .ok condition) :
    predicatesEach (Predicate.TestsGroups f aggregates) condition.toList := by
  refine having_compile_each (W := fun _ => True) ?_ (fun _ _ => trivial) h
  intro key a known op v p _ made
  simp only [Having.compare, bind_eq_ok, pure_eq_ok] at made
  obtain ⟨operand, read, rfl⟩ := made
  refine ⟨⟨a, known, rfl⟩, ?_⟩
  cases operand with
  | column field =>
    obtain ⟨reference, -, bound⟩ := Operand.ofJson_column read
    simpa [Operand.columns] using ⟨reference, field, bound, rfl⟩
  | value | list | range => simp [Operand.columns]

theorem comparison_bareMentions {x : Comparison} {a : Aggregate} (target : x.target = .aggregate a)
    {e : Sql.Expr} (h : x.expr d = .ok e) :
    e.bareMentions = x.operand.columns.map ColumnRef.mention := by
  unfold Comparison.expr at h
  simp only at h
  split at h
  · cases h
  · rw [Sql.compares_bareMentions (Sql.operatorExpr_compares h), target]
    rfl

mutual

theorem predicate_bareMentions : (p : Predicate) → p.Each (Predicate.TestsGroups f aggregates) →
    ∀ {e}, p.expr c d = .ok e →
      e.bareMentions = (p.comparisons.flatMap (·.operand.columns)).map ColumnRef.mention
  | .comparison x, hp, e, h => by
    obtain ⟨⟨a, -, target⟩, -⟩ := hp
    simpa [Predicate.comparisons] using comparison_bareMentions target h
  | .logical op children, hp, e, h => by
    simp only [Predicate.expr, bind_eq_ok, pure_eq_ok] at h
    obtain ⟨es, rendered, rfl⟩ := h
    rw [Sql.bareMentions_gathers.combined]
    exact predicates_bareMentions children hp rendered
  | .qualified .., hp, _, _ | .fragment .., hp, _, _ | .globalPattern _, hp, _, _ => hp.elim

theorem predicates_bareMentions : (ps : List Predicate) →
    predicatesEach (Predicate.TestsGroups f aggregates) ps →
    ∀ {es}, Predicate.exprs c d ps = .ok es → es.flatMap Sql.Expr.bareMentions =
      ((Predicate.comparisonsOfAll ps).flatMap (·.operand.columns)).map ColumnRef.mention
  | [], _, _, h => by
    cases h
    rfl
  | p :: rest, hp, es, h => by
    simp only [Predicate.exprs, bind_eq_ok, pure_eq_ok] at h
    obtain ⟨e, here, es, others, rfl⟩ := h
    rw [List.flatMap_cons, predicate_bareMentions p hp.1 here,
      predicates_bareMentions rest hp.2 others, Predicate.comparisonsOfAll, List.flatMap_append,
      List.map_append]

end

end

/-! The clauses of a plan's query. -/

section

variable {c : Catalog} {d : Dialect} {p : Plan} {q : Sql.Query}

theorem query_clauses (h : p.query c d = .ok q) : q.groupBy = p.groupBy.map ColumnRef.expr ∧
    q.orderBy = (p.sort.map Plan.orderItem).toList ∧
    p.having.mapM (Predicate.expr c d) = .ok q.having := by
  simp only [Plan.query, bind_eq_ok, pure_eq_ok] at h
  obtain ⟨root, -, parts, -, filter, -, having, conditioned, rfl⟩ := h
  exact ⟨rfl, rfl, conditioned⟩

theorem groupsMention_iff (h : p.query c d = .ok q) (column : ColumnRef) :
    q.GroupsMention column.mention ↔ column ∈ p.groupBy := by
  obtain ⟨groups, -, -⟩ := query_clauses h
  rw [ColumnRef.mention, Sql.Query.GroupsMention, groups, List.mem_map]
  constructor
  · rintro ⟨column', member, same⟩
    cases column
    cases column'
    cases same
    exact member
  · exact fun member => ⟨column, member, rfl⟩

theorem orderColumns_grouped (h : p.query c d = .ok q)
    (grouped : ∀ order ∈ q.orderBy, q.GroupsOrder order) :
    ∀ column ∈ p.orderColumns, column ∈ p.groupBy := by
  obtain ⟨-, orderBy, -⟩ := query_clauses h
  rw [orderBy] at grouped
  rw [Plan.orderColumns]
  match sort : p.sort with
  | none | some ⟨.aggregate name, direction⟩ => simp
  | some ⟨.field field, direction⟩ =>
    rw [sort, Option.map_some, Option.toList_some, List.forall_mem_singleton] at grouped
    rw [List.forall_mem_singleton, ← groupsMention_iff h]
    rcases grouped with ⟨item, -, name, -, same⟩ | grouped
    · cases same
    · exact grouped _ (List.mem_singleton.mpr rfl)

theorem orderBy_grouped (h : p.query c d = .ok q)
    (named : ∀ order, p.sort = some order → ∀ name, order.target = .aggregate name →
      ∃ a ∈ p.aggregates, a.name = name)
    (grouped : ∀ column ∈ p.orderColumns, column ∈ p.groupBy) :
    ∀ order ∈ q.orderBy, q.GroupsOrder order := by
  obtain ⟨-, orderBy, -⟩ := query_clauses h
  rw [orderBy]
  rw [Plan.orderColumns] at grouped
  match sort : p.sort with
  | none => simp
  | some ⟨.aggregate name, direction⟩ =>
    obtain ⟨a, known, rfl⟩ := named _ sort name rfl
    obtain ⟨items, -, select⟩ := query_select h
    have returned : Plan.aggregateItem a ∈ q.select := by
      rw [select]
      exact List.mem_append_right _ (List.mem_map_of_mem known)
    rw [Option.map_some, Option.toList_some, List.forall_mem_singleton]
    exact .inl ⟨_, returned, a.name, rfl, rfl⟩
  | some ⟨.field field, direction⟩ =>
    rw [sort, List.forall_mem_singleton, ← groupsMention_iff h] at grouped
    rw [Option.map_some, Option.toList_some, List.forall_mem_singleton]
    refine .inr fun m hm => ?_
    cases List.mem_singleton.mp hm
    exact grouped

theorem having_grouped_iff {f : Frame} {aggregates : List Aggregate} (h : p.query c d = .ok q)
    (tests : predicatesEach (Predicate.TestsGroups f aggregates) p.having.toList) :
    (∀ e ∈ q.having, ∀ m ∈ e.bareMentions, q.GroupsMention m) ↔
      ∀ column ∈ p.conditionColumns, column ∈ p.groupBy := by
  obtain ⟨-, -, conditioned⟩ := query_clauses h
  rw [Plan.conditionColumns]
  cases having : p.having with
  | none =>
    rw [having] at conditioned
    cases conditioned' : q.having with
    | none => simp [Predicate.comparisonsOfAll]
    | some e =>
      rw [conditioned'] at conditioned
      cases conditioned
  | some condition =>
    rw [having] at conditioned tests
    rw [Option.mapM_some, map_eq_ok] at conditioned
    obtain ⟨e, rendered, clause⟩ := conditioned
    rw [← clause]
    have mentions := predicate_bareMentions condition tests.1 rendered
    simp only [Option.mem_def, Option.some.injEq, forall_eq', mentions, List.forall_mem_map,
      groupsMention_iff h, Option.toList_some, Predicate.comparisonsOfAll, List.append_nil]

theorem select_grouped {f : Frame} (rooted : f.Rooted) {r : Request}
    (compiled : Plan.ofRoot f r = .ok p) (groups : r.groups = true)
    (rendered : p.query f.catalog d = .ok q) :
    ∀ item ∈ q.select, ∀ m ∈ item.expr.bareMentions, q.GroupsMention m := by
  obtain ⟨demands, bound⟩ := bound_of_ofRoot rooted compiled
  obtain ⟨explicit, -, groupBy⟩ := ofRoot_groupBy compiled
  rw [if_pos groups] at groupBy
  obtain ⟨items, output, select⟩ := query_select rendered
  have grouped := Plan.groups_of_eq groupBy (outputItems_exprs rooted bound.entity output)
  rw [select, List.forall_mem_append, List.forall_mem_map]
  constructor
  · intro item returned m hm
    obtain ⟨column, member, same⟩ := grouped.covers item returned
    rw [same] at hm
    cases List.mem_singleton.mp hm
    exact (groupsMention_iff rendered column).mpr member
  · intro a _ m hm
    cases hm

end

theorem groups_of_plan {f : Frame} {r : Request} {p : Plan} (h : Plan.ofRoot f r = .ok p)
    (asked : p.groupBy ≠ [] ∨ p.aggregates ≠ []) : r.groups = true := by
  simp only [Plan.ofRoot, bind_eq_ok, pure_eq_ok] at h
  obtain ⟨filter, -, _, -, projection, -, aggregates, made, explicit, -, conditions, -, _, -, sort,
    -, rfl⟩ := h
  rcases asked with groupBy | aggregated
  · by_contra none
    exact groupBy (if_neg none)
  · have members : r.aggregateMembers ≠ [] := by
      intro none
      rw [none] at made
      cases made
      exact aggregated rfl
    simp [Request.groups, members]

/-- What a compiled plan is ordered by, and what its conditions on groups compare. -/
structure Plan.OrdersAndTests (p : Plan) (f : Frame) (r : Request) : Prop where
  order : ∀ order, p.sort = some order →
    (∃ a ∈ p.aggregates, order.target = .aggregate a.name) ∨
      ∃ s field, r.sorting = some s ∧ f.bind s.field = .ok field ∧ order.target = .field field
  conditions : predicatesEach (Predicate.TestsGroups f p.aggregates) p.having.toList

theorem ofRoot_orders_and_tests {f : Frame} {r : Request} {p : Plan}
    (h : Plan.ofRoot f r = .ok p) : p.OrdersAndTests f r := by
  simp only [Plan.ofRoot, bind_eq_ok, pure_eq_ok] at h
  obtain ⟨filter, -, _, -, projection, -, aggregates, -, explicit, -, conditions, -, condition,
    tested, sort, sorted, rfl⟩ := h
  constructor
  case order =>
    rintro order rfl
    exact sort_eq_ok sorted
  case conditions => exact having_tests_groups tested

/-- A plan with groups is ordered by an aggregate or by the field that its request orders by, and its
conditions on groups compare aggregates. What it returns beside the aggregates is grouped; its query
is one of groups if and only if the fields that it orders by and compares with are grouped, too. -/
theorem plan_query_grouped_iff {c : Catalog} {policy : FragmentPolicy} {r : Request} {p : Plan}
    (compiled : Plan.ofRequest c policy r = .ok p)
    (asked : p.groupBy ≠ [] ∨ p.aggregates ≠ []) :
    ∃ root, c.entity? r.modelName = some root ∧ p.OrdersAndTests ⟨c, root, policy⟩ r ∧
      ∀ d q, p.query c d = .ok q →
        (∀ item ∈ q.select, ∀ m ∈ item.expr.bareMentions, q.GroupsMention m) ∧
        (q.IsGrouped ↔ ∀ column ∈ p.orderColumns ++ p.conditionColumns, column ∈ p.groupBy) := by
  obtain ⟨root, known, made⟩ := ofRequest_eq_ok.mp compiled
  have groups := groups_of_plan made asked
  have parts := ofRoot_orders_and_tests made
  refine ⟨root, known, parts, fun d q rendered => ?_⟩
  have selected := select_grouped (rooted_of_entity? known policy) made groups rendered
  have tested := having_grouped_iff rendered parts.conditions
  refine ⟨selected, ?_⟩
  rw [List.forall_mem_append, ← tested]
  constructor
  · intro grouped
    exact ⟨orderColumns_grouped rendered grouped.orderBy, grouped.having⟩
  · rintro ⟨ordered, having⟩
    refine ⟨selected, having, orderBy_grouped rendered ?_ ordered⟩
    intro order sorted name target
    rcases parts.order order sorted with ⟨a, member, same⟩ | ⟨s, field, -, -, same⟩
    · cases target.symm.trans same
      exact ⟨a, member, rfl⟩
    · cases target.symm.trans same

def longestFilms (field compared : String) : Request where
  modelName := "film"
  filters := .obj []
  select := none
  page := .whole
  sorting := some ⟨field, .asc⟩
  groupBy := ["title"]
  aggregates := some [("max", .str "length")]
  having := some (.obj [("max_length", .obj [("col", .str compared)])])
  joinOptions := []
  globalSearch := false

theorem films_by_title_grouped :
    ∃ p q, Plan.ofRequest filmCatalog .reject (longestFilms "title" "title") = .ok p ∧
      p.query filmCatalog .postgres = .ok q ∧
        p.orderColumns ++ p.conditionColumns = [⟨"film", "title"⟩, ⟨"film", "title"⟩] ∧
          q.IsGrouped := by
  have runs : (Plan.ofRequest filmCatalog .reject (longestFilms "title" "title")).toOption.any
      (fun p => p.groupBy = [⟨"film", "title"⟩] &&
        p.orderColumns ++ p.conditionColumns = [⟨"film", "title"⟩, ⟨"film", "title"⟩] &&
          (p.query filmCatalog .postgres).toOption.any fun _ => true) = true := by
    decide +kernel
  obtain ⟨p, compiled, holds⟩ := exists_ok_of_any runs
  simp only [Bool.and_eq_true, decide_eq_true_eq] at holds
  obtain ⟨⟨groups, columns⟩, renders⟩ := holds
  obtain ⟨q, rendered, -⟩ := exists_ok_of_any renders
  obtain ⟨root, -, -, each⟩ := plan_query_grouped_iff compiled (.inl (by simp [groups]))
  refine ⟨p, q, compiled, rendered, columns, (each _ q rendered).2.mpr ?_⟩
  simp [columns, groups]

/-- Neither the order by the film's key nor the comparison with its length is refused, and there may
be many of both behind a title. -/
theorem films_by_key_not_grouped :
    ∃ p q, Plan.ofRequest filmCatalog .reject (longestFilms "film_id" "length") = .ok p ∧
      p.query filmCatalog .postgres = .ok q ∧ p.groupBy = [⟨"film", "title"⟩] ∧
        p.orderColumns = [⟨"film", "film_id"⟩] ∧ p.conditionColumns = [⟨"film", "length"⟩] ∧
          ¬ q.IsGrouped := by
  have runs : (Plan.ofRequest filmCatalog .reject (longestFilms "film_id" "length")).toOption.any
      (fun p => p.groupBy = [⟨"film", "title"⟩] && p.orderColumns = [⟨"film", "film_id"⟩] &&
        p.conditionColumns = [⟨"film", "length"⟩] &&
          (p.query filmCatalog .postgres).toOption.any fun _ => true) = true := by
    decide +kernel
  obtain ⟨p, compiled, holds⟩ := exists_ok_of_any runs
  simp only [Bool.and_eq_true, decide_eq_true_eq] at holds
  obtain ⟨⟨⟨groups, ordered⟩, compared⟩, renders⟩ := holds
  obtain ⟨q, rendered, -⟩ := exists_ok_of_any renders
  refine ⟨p, q, compiled, rendered, groups, ordered, compared, fun grouped => ?_⟩
  have member := orderColumns_grouped rendered grouped.orderBy ⟨"film", "film_id"⟩ (by simp [ordered])
  simp [groups] at member

end ReadPlan
