import ReadPlan.Proofs.Grouping
import ReadPlan.Proofs.JoinShape

namespace ReadPlan

/-! What the joins along one path return. -/

section

variable {f : Frame} {options : JoinOptions}

theorem joinColumns_singleton (j : JoinNode) {target : Entity}
    (known : f.catalog.entity? j.target = some target) :
    f.joinColumns [j] =
      j.projected.map (fun field => ⟨j.path, target.columnOf field⟩) ++ f.joinColumns j.nested := by
  simp only [Frame.joinColumns, flattenForest, JoinNode.flatten_eq, List.append_nil,
    List.flatMap_cons, known]

theorem joinColumns_passed {j : JoinNode} (nothing : j.projected = []) (nested : JoinForest) :
    f.joinColumns [{ j with nested }] = f.joinColumns nested := by
  simp only [Frame.joinColumns, flattenForest, JoinNode.flatten_eq, List.append_nil,
    List.flatMap_cons, nothing, List.map_nil]
  split <;> rfl

theorem graft_cons_nil (parent : String) (trail : List String) (a : Association)
    (rest : List Association) :
    ∃ j : JoinNode, JoinForest.graft options parent trail (a :: rest) [] = [j] ∧
      j.name = a.name ∧ j.path = relationAlias (trail ++ [a.name]) ∧ j.target = a.target ∧
      j.projected = [] ∧ j.nested =
        JoinForest.graft options (relationAlias (trail ++ [a.name])) (trail ++ [a.name]) rest [] :=
  ⟨_, rfl, rfl, rfl, rfl, rfl, rfl⟩

theorem updateSibling_singleton (g : JoinNode → JoinNode) {j : JoinNode} {name : String}
    (named : j.name = name) : JoinForest.updateSibling name g [j] = [g j] := by
  simp [JoinForest.updateSibling, named]

/-- Only the join at the end of the path returns a column. -/
theorem joinColumns_branch {owner : String} {steps : List Association} (more : steps ≠ [])
    {e : Entity} (known : f.catalog.entity? (Catalog.endOf owner steps) = some e) (field : String)
    (parent : String) (trail : List String) :
    f.joinColumns (JoinForest.update (JoinNode.project [field]) (steps.map (·.name))
      (JoinForest.graft options parent trail steps [])) =
        [⟨relationAlias (trail ++ steps.map (·.name)), e.columnOf field⟩] := by
  induction steps generalizing owner parent trail with
  | nil => contradiction
  | cons a rest ih =>
    obtain ⟨j, grown, name, path, target, nothing, nested⟩ :=
      graft_cons_nil parent trail a rest
    rw [grown, List.map_cons]
    cases rest with
    | nil =>
      have found : f.catalog.entity? (j.project [field]).target = some e := target ▸ known
      rw [List.map_nil, JoinForest.update, updateSibling_singleton _ name,
        joinColumns_singleton _ found]
      simp only [JoinNode.project, nothing, nested, JoinForest.graft, path]
      rfl
    | cons b rest =>
      have further : f.catalog.entity? (Catalog.endOf a.target (b :: rest)) = some e := by
        simpa [Catalog.endOf, List.getLast?_cons] using known
      have below := ih (by simp) further (relationAlias (trail ++ [a.name])) (trail ++ [a.name])
      have longer : (b :: rest).map (·.name) ≠ [] := by simp
      rw [List.append_assoc] at below
      rw [JoinForest.update.eq_3 _ _ _ _ longer, updateSibling_singleton _ name,
        joinColumns_passed nothing, nested]
      exact below

theorem demandPath_of_follow {segments fields : List String} {steps : List Association}
    (followed : f.catalog.follow f.root.name segments = .ok steps) :
    f.demandPath segments fields = if segments.isEmpty then [] else [⟨steps, fields⟩] := by
  unfold Frame.demandPath Frame.steps
  rw [followed]
  cases segments <;> rfl

theorem outputColumns_of_bind (rooted : f.Rooted) {reference : String} {bound : FieldRef}
    (h : f.bind reference = .ok bound) :
    f.outputColumns ⟨Projection.rootFields [reference], false⟩
      (JoinForest.ofDemands options f.root.name (Projection.demands f [reference])) =
        [bound.column] := by
  obtain ⟨e, x, reached, declared, rfl⟩ := bindField_eq_ok.mp h
  obtain ⟨steps, followed, known⟩ := rooted.reach_eq_ok.mp reached
  have column : e.columnOf (Reference.ofString reference).field = x.column := by
    rw [Entity.columnOf, declared]
  rw [Projection.demands, List.flatMap_singleton, demandPath_of_follow followed, Frame.relation]
  by_cases plain : (Reference.ofString reference).path = []
  · rw [plain] at followed
    cases followed
    cases known.symm.trans rooted
    simp [Frame.outputColumns, Projection.rootFields, plain, addField, JoinForest.ofDemands,
      Frame.joinColumns, flattenForest, column]
  · have further : steps ≠ [] := by
      rintro rfl
      exact plain (Catalog.names_of_follow followed).symm
    have branch := @joinColumns_branch f options f.root.name steps further e known
      (Reference.ofString reference).field f.root.name []
    rw [column, Catalog.names_of_follow followed] at branch
    simpa [Frame.outputColumns, Projection.rootFields, plain, JoinForest.ofDemands,
      JoinForest.meet, Catalog.names_of_follow followed] using branch

theorem demandPath_shape (root : String) (segments fields : List String) :
    bareForest (JoinForest.ofDemands options root (f.demandPath segments fields)) =
        bareForest (JoinForest.ofDemands options root (f.demandPath segments [])) ∧
      bareForest (JoinForest.ofDemands options root
          (f.demandPath segments fields ++ f.demandPath segments [])) =
        bareForest (JoinForest.ofDemands options root (f.demandPath segments [])) := by
  simp only [JoinForest.ofDemands_bare]
  unfold Frame.demandPath
  split
  · exact ⟨rfl, JoinForest.graft_again options root [] _⟩
  · exact ⟨rfl, rfl⟩

end

/-- Where a request may refer to a field. -/
inductive Position
  | select
  | group
  | aggregate (function : String)
  | sort (direction : Direction)
  | operand (field : String)
  | filterKey

namespace Position

def request (model reference : String) : Position → Request
  | select => { Request.ofModel model with select := some [reference] }
  | group => { Request.ofModel model with groupBy := [reference] }
  | aggregate function =>
    { Request.ofModel model with aggregates := some [(function, .str reference)] }
  | sort direction => { Request.ofModel model with sorting := some ⟨reference, direction⟩ }
  | operand field =>
    { Request.ofModel model with filters := .obj [(field, .obj [("col", .str reference)])] }
  | filterKey =>
    { Request.ofModel model with filters := .obj [(reference, .obj [("eq", .int 1)])] }

/-- Whether the position takes the reference for that of a field. -/
def Admits (root : Entity) (reference : String) : Position → Prop
  | select | group | sort _ => True
  | aggregate function => Text.isPlainName function = true
  | operand field =>
    root.hasField field = true ∧ isDotted field = false ∧ isCombinator field = false
  | filterKey => isDotted reference = true

def columns (f : Frame) (p : Plan) : Position → List ColumnRef
  | select => f.outputColumns p.projection p.joins
  | group => p.groupBy
  | aggregate _ => p.aggregates.map (·.field.column)
  | sort _ => p.sort.toList.flatMap fun s =>
    match s.target with
    | .field field => [field.column]
    | .aggregate _ => []
  | operand _ => p.comparisons.flatMap (·.operand.columns)
  | filterKey => p.comparisons.map (·.target.column)

/-- A request with the reference in the position compiles if the reference can be bound, to a plan
that has its column in the position and joins its path; else it fails as binding does. -/
structure Binds (f : Frame) (model reference : String) (p : Position) : Prop where
  refused : ∀ e, f.bind reference = .error e →
    Plan.ofRoot f (p.request model reference) = .error e
  bound : ∀ bound, f.bind reference = .ok bound →
    ∃ plan, Plan.ofRoot f (p.request model reference) = .ok plan ∧
      p.columns f plan = [bound.column] ∧
      bareForest plan.joins =
        bareForest (JoinForest.ofDemands [] f.root.name (f.demand reference))

end Position

section

variable {f : Frame} {model reference : String}

theorem having_compile_nil (f : Frame) (aggregates : List Aggregate) :
    Having.compile f aggregates [] = .ok none := by
  rw [Having.compile, Having.compileTerms]
  rfl

theorem having_demands_nil (f : Frame) : Having.demands f [] = [] := by
  rw [Having.demands]

theorem ofRoot_unfiltered {r : Request} (filters : r.filters = .obj [])
    (bound : r.globalSearch = false) (having : r.having = none) :
    Plan.ofRoot f r = do
      let projection ← Projection.ofSelect f r.effectiveSelect
      let aggregates ← r.aggregateMembers.mapM (Aggregate.ofMember f)
      let explicit ← r.groupBy.mapM f.bind
      let sort ← r.sorting.mapM (f.sort aggregates)
      let output := r.outputDemands f []
      return {
        entity := f.root.name
        projection
        predicate := none
        joins := r.joins f (output ++ f.sortDemands sort)
        groupBy := if r.groups then f.grouping explicit projection (r.joins f output) else []
        having := none
        aggregates
        sort
        page := if r.page.isWhole then none else some r.page } := by
  have read : Filter.ofJson "filters" r.filters = .ok [] := by
    rw [filters]
    rfl
  have compiled : r.compileFilters f [] = .ok none := by
    rw [Request.compileFilters, bound]
    rfl
  simp only [Plan.ofRoot, read, ok_bind, compiled, Request.readHaving, having, having_compile_nil,
    having_demands_nil, List.append_nil]

theorem outputDemands_nil (r : Request) :
    r.outputDemands f [] = Projection.demands f (r.effectiveSelect.getD []) ++
      (r.aggregateMembers.filterMap Request.referenceOf?).flatMap f.demand ++
        r.groupBy.flatMap f.demand := by
  have bare : r.filterDemands f [] = [] := ite_self _
  rw [Request.outputDemands, bare, List.nil_append]

theorem ofRoot_unfiltered_ok {r : Request} (filters : r.filters = .obj [])
    (bound : r.globalSearch = false) (having : r.having = none) {projection : Projection}
    (selected : Projection.ofSelect f r.effectiveSelect = .ok projection)
    {aggregates : List Aggregate}
    (aggregated : r.aggregateMembers.mapM (Aggregate.ofMember f) = .ok aggregates)
    {explicit : List FieldRef} (grouped : r.groupBy.mapM f.bind = .ok explicit)
    {sort : Option SortOrder} (sorted : r.sorting.mapM (f.sort aggregates) = .ok sort) :
    ∃ plan, Plan.ofRoot f r = .ok plan ∧ plan.projection = projection ∧
      plan.aggregates = aggregates ∧ plan.sort = sort ∧
      plan.joins = r.joins f (r.outputDemands f [] ++ f.sortDemands sort) := by
  rw [ofRoot_unfiltered filters bound having]
  simp only [selected, aggregated, grouped, sorted, ok_bind]
  exact ⟨_, rfl, rfl, rfl, rfl, rfl⟩

theorem ofSelect_reference {bound : FieldRef} (h : f.bind reference = .ok bound) :
    Projection.ofSelect f (some [reference]) =
      .ok ⟨Projection.rootFields [reference], false⟩ := by
  simp [Projection.ofSelect, h]

theorem projection_demands_reference (f : Frame) (reference : String) :
    Projection.demands f [reference] =
      f.demandPath (Reference.ofString reference).path [(Reference.ofString reference).field] :=
  List.flatMap_singleton _ _

theorem select_binds (rooted : f.Rooted) : Position.Binds f model reference .select := by
  constructor
  case refused =>
    intro e h
    rw [ofRoot_unfiltered rfl rfl rfl]
    simp [Position.request, Request.effectiveSelect, Projection.ofSelect, h, error_bind]
  case bound =>
    intro bound h
    let r := Position.request model reference .select
    obtain ⟨plan, made, projection, -, -, joins⟩ :=
      ofRoot_unfiltered_ok (r := r) rfl rfl rfl (ofSelect_reference h) rfl rfl rfl
    have demands : r.outputDemands f [] ++ f.sortDemands none =
        Projection.demands f [reference] := by
      simp [outputDemands_nil, r, Position.request, Request.ofModel, Request.effectiveSelect,
        Request.aggregateMembers, Frame.sortDemands]
    rw [demands] at joins
    refine ⟨plan, made, ?_, ?_⟩
    · rw [Position.columns, projection, joins]
      exact outputColumns_of_bind rooted h
    · rw [joins, projection_demands_reference]
      exact (demandPath_shape _ _ _).1

theorem group_binds (rooted : f.Rooted) : Position.Binds f model reference .group := by
  constructor
  case refused =>
    intro e h
    rw [ofRoot_unfiltered rfl rfl rfl]
    simp [Position.request, Request.ofModel, Request.effectiveSelect, Request.groups,
      Projection.ofSelect, h, error_bind]
  case bound =>
    intro bound h
    let r := Position.request model reference .group
    have grouped : r.groupBy.mapM f.bind = .ok [bound] := by
      simp [r, Position.request, h]
    obtain ⟨plan, made, projection, -, -, joins⟩ :=
      ofRoot_unfiltered_ok (r := r) rfl rfl rfl (ofSelect_reference h) rfl grouped rfl
    have demands : r.outputDemands f [] ++ f.sortDemands none =
        Projection.demands f [reference] ++ f.demand reference := by
      simp [outputDemands_nil, r, Position.request, Request.ofModel, Request.effectiveSelect,
        Request.groups, Request.aggregateMembers, Frame.sortDemands]
    rw [demands] at joins
    refine ⟨plan, made, ?_, ?_⟩
    · obtain ⟨explicit, grouped', groups⟩ := ofRoot_groupBy made
      cases grouped.symm.trans grouped'
      have columns : f.outputColumns plan.projection plan.joins = [bound.column] := by
        rw [projection, joins, Frame.outputColumns,
          joinColumns_fieldless r _ (demand_fieldless f reference)]
        exact outputColumns_of_bind rooted h
      rw [Position.columns, groups, columns]
      simp [r, Position.request, Request.groups, List.eraseDups_cons]
    · rw [joins, projection_demands_reference]
      exact (demandPath_shape _ _ _).2

theorem aggregate_binds {function : String} (plain : Text.isPlainName function = true) :
    Position.Binds f model reference (.aggregate function) := by
  let r := Position.request model reference (.aggregate function)
  constructor
  case refused =>
    intro e h
    rw [ofRoot_unfiltered rfl rfl rfl]
    simp [Position.request, Request.ofModel, Request.effectiveSelect, Request.groups,
      Request.aggregateMembers, Projection.ofSelect, Aggregate.ofMember, plain, h]
  case bound =>
    intro bound h
    have aggregated : r.aggregateMembers.mapM (Aggregate.ofMember f) =
        .ok [⟨function, bound, Aggregate.aliasOf function reference⟩] := by
      simp [r, Position.request, Request.aggregateMembers, Aggregate.ofMember, plain, h]
    obtain ⟨plan, made, -, aggregates, -, joins⟩ :=
      ofRoot_unfiltered_ok (r := r) rfl rfl rfl rfl aggregated rfl rfl
    have demands : r.outputDemands f [] ++ f.sortDemands none = f.demand reference := by
      simp [outputDemands_nil, r, Position.request, Request.ofModel, Request.effectiveSelect,
        Request.groups, Request.aggregateMembers, Request.referenceOf?, Projection.demands,
        Frame.sortDemands]
    rw [demands] at joins
    refine ⟨plan, made, ?_, ?_⟩
    · rw [Position.columns, aggregates]
      rfl
    · rw [joins]
      rfl

theorem sort_binds (direction : Direction) :
    Position.Binds f model reference (.sort direction) := by
  let r := Position.request model reference (.sort direction)
  constructor
  case refused =>
    intro e h
    rw [ofRoot_unfiltered rfl rfl rfl]
    simp [Position.request, Request.ofModel, Request.effectiveSelect, Request.groups,
      Request.aggregateMembers, Projection.ofSelect, Frame.sort, Having.aggregate?, h, ok_bind]
  case bound =>
    intro bound h
    have sorted : r.sorting.mapM (f.sort []) = .ok (some ⟨.field bound, direction⟩) := by
      simp [r, Position.request, Frame.sort, Having.aggregate?, h]
    obtain ⟨plan, made, -, -, sort, joins⟩ :=
      ofRoot_unfiltered_ok (r := r) rfl rfl rfl rfl rfl rfl sorted
    have demands : r.outputDemands f [] ++ f.sortDemands (some ⟨.field bound, direction⟩) =
        f.demand reference := by
      simp [outputDemands_nil, r, Position.request, Request.ofModel, Request.effectiveSelect,
        Request.groups, Request.aggregateMembers, Projection.demands, Frame.sortDemands,
        bind_name h]
    rw [demands] at joins
    refine ⟨plan, made, ?_, ?_⟩
    · rw [Position.columns, sort]
      rfl
    · rw [joins]
      rfl

/-! A filter of one comparison. -/

theorem dot_mem_bareToken {key : String} (dotted : isDotted key = true) :
    '.' ∈ (bareToken key).toList := by
  have within : '.' ∈ key.toList := by simpa [isDotted] using dotted
  unfold bareToken
  split
  · rename_i rest spelled
    rw [spelled] at within
    simpa using within
  · exact within

theorem ofToken?_of_isDotted {key : String} (dotted : isDotted key = true) :
    Combinator.ofToken? key = none := by
  have kept := dot_mem_bareToken dotted
  unfold Combinator.ofToken?
  split
  case h_4 => rfl
  all_goals
    rename_i spelled
    rw [spelled] at kept
    revert kept
    decide

def oneComparison (key : String) (op : Operator) (v : Json) : Filter :=
  [.field key (.operators [.compare op v])]

theorem oneComparison_compile (op : Operator) (v : Json) {key : String} {place : Place}
    (located : f.locate f.rootScope key false = .ok place)
    (field : ∀ segments, place ≠ .association segments) :
    (oneComparison key op v).compile f = do
      let bound ← f.bindPlace f.rootScope key place
      let p ← f.compare key bound op v
      return some p := by
  simp only [Filter.compile, oneComparison, compileTerms, Term.compile, Condition.compile, located,
    ok_bind, compileClauses, Clause.compile]
  cases place with
  | association segments => exact absurd rfl (field segments)
  | own | joined =>
    cases f.bindPlace f.rootScope key _ with
    | error e => rfl
    | ok bound =>
      simp only [ok_bind]
      cases f.compare key bound op v <;> rfl

theorem oneComparison_demands (op : Operator) (v : Json) {key : String} {place : Place}
    (located : f.locate f.rootScope key false = .ok place) :
    (oneComparison key op v).demands f =
      f.demandPlace place ++ (Clause.compare op v).references.flatMap f.demand := by
  simp [Filter.demands, oneComparison, termDemands, Term.demands, Condition.demands, located,
    clauseReferences]

theorem oneComparison_read (v : Json) {key token : String} {op : Operator}
    (field : Combinator.ofToken? key = none) (plain : isPlainOperator token = true)
    (known : Operator.ofToken? token = some op) (unmarked : token ≠ subqueryMarker) :
    Filter.ofJson "filters" (.obj [(key, .obj [(token, v)])]) = .ok (oneComparison key op v) := by
  have bare : Combinator.ofToken? token = none := by
    simpa [isPlainOperator, isCombinator, known] using plain
  have absent : Keyed.get? subqueryMarker [(token, v)] = none := by
    simp [Keyed.get?, unmarked]
  have operators : classify (.obj [(token, v)]) = some .operators := by
    simp [classify, plain]
  have clause (path : String) : readClause path token v = .ok (.compare op v) := by
    cases v <;> simp [readClause, bare, known]
  simp [Filter.ofJson, readTerms, field, readCondition, absent, operators, readClauses, clause,
    oneComparison, ok_bind]

section

variable {filters : Json} {filter : Filter}
  (read : Filter.ofJson "filters" filters = .ok filter)

include read

theorem ofRoot_filtered_error {e : QueryError} (h : filter.compile f = .error e) :
    Plan.ofRoot f { Request.ofModel model with filters } = .error e := by
  simp [Plan.ofRoot, read, ok_bind, Request.compileFilters, Request.ofModel, h, error_bind]

theorem ofRoot_filtered_ok {predicate : Option Predicate} (h : filter.compile f = .ok predicate) :
    ∃ plan, Plan.ofRoot f { Request.ofModel model with filters } = .ok plan ∧
      plan.predicate = predicate ∧ plan.having = none ∧
      plan.joins = JoinForest.ofDemands [] f.root.name (filter.demands f) := by
  let r : Request := { Request.ofModel model with filters }
  have parsed : Filter.ofJson "filters" r.filters = .ok filter := read
  have compiled : r.compileFilters f filter = .ok predicate := h
  have demands : r.outputDemands f filter = filter.demands f := by
    simp [r, Request.ofModel, Request.outputDemands, Request.filterDemands, Request.effectiveSelect,
      Request.groups, Request.aggregateMembers, Projection.demands]
  refine ⟨{
    entity := f.root.name
    projection := ⟨f.root.fieldNames, true⟩
    predicate
    joins := JoinForest.ofDemands [] f.root.name (filter.demands f)
    groupBy := []
    having := none
    aggregates := []
    sort := none
    page := none }, ?_, rfl, rfl, rfl⟩
  rw [Plan.ofRoot, parsed, ok_bind, compiled, ok_bind, demands]
  simp [Request.ofModel, Request.effectiveSelect, Request.groups, Request.aggregateMembers,
    Projection.ofSelect, Request.readHaving, having_compile_nil, having_demands_nil,
    Frame.sortDemands, Request.joins, Page.isWhole, Page.whole, ok_bind]

end

theorem operand_binds {field : String} (admits : (Position.operand field).Admits f.root reference) :
    Position.Binds f model reference (.operand field) := by
  obtain ⟨declared, plain, term⟩ := admits
  obtain ⟨own, found⟩ := Option.isSome_iff_exists.mp declared
  have located : f.locate f.rootScope field false = .ok (.own own) := by
    have here : f.rootScope.entity.field? field = some own := found
    simp [Frame.locate, plain, here]
  have key : Combinator.ofToken? field = none := by
    simpa [isCombinator] using term
  have known : Operator.ofToken? "col" = some .column := by decide
  have read := oneComparison_read (.str reference) key (by decide) known (by decide)
  have compiled := oneComparison_compile .column (.str reference) located (by simp)
  constructor
  case refused =>
    intro e h
    refine ofRoot_filtered_error read (Eq.trans compiled ?_)
    simp [Frame.bindPlace, Frame.compare, Operand.ofJson, Operator.shape, h, ok_bind]
  case bound =>
    intro bound h
    have made : (oneComparison field .column (.str reference)).compile f =
        .ok (some (.comparison
          ⟨.field ⟨Frame.ownName f.rootScope field, ⟨f.root.name, own.column⟩⟩, .column,
            .column bound⟩)) := by
      rw [compiled]
      simp [Frame.bindPlace, Frame.compare, Operand.ofJson, Operator.shape, h, ok_bind,
        Frame.rootScope, Frame.relation]
    obtain ⟨plan, made, predicate, having, joins⟩ := ofRoot_filtered_ok read made
    refine ⟨plan, made, ?_, ?_⟩
    · rw [Position.columns, Plan.comparisons, predicate, having]
      rfl
    · rw [joins, oneComparison_demands _ _ located]
      simp [Frame.demandPlace, Clause.references]

theorem filterKey_binds (dotted : isDotted reference = true) :
    Position.Binds f model reference .filterKey := by
  have located : f.locate f.rootScope reference false =
      .ok (.joined (Reference.ofString reference).path (Reference.ofString reference).field) := by
    simp [Frame.locate, dotted, Frame.rootScope]
  have known : Operator.ofToken? "eq" = some .eq := by decide
  have read := oneComparison_read (.int 1) (ofToken?_of_isDotted dotted) (by decide) known
    (by decide)
  have compiled := oneComparison_compile .eq (.int 1) located (by simp)
  have binding : f.bindField (Reference.ofString reference).path
      (Reference.ofString reference).field reference = f.bind reference := rfl
  constructor
  case refused =>
    intro e h
    refine ofRoot_filtered_error read (Eq.trans compiled ?_)
    simp [Frame.bindPlace, binding, h, error_bind]
  case bound =>
    intro bound h
    have made : (oneComparison reference .eq (.int 1)).compile f =
        .ok (some (.qualified (f.relation (Reference.ofString reference).path)
          ⟨.field bound, .eq, .value (.int 1)⟩)) := by
      rw [compiled]
      simp [Frame.bindPlace, binding, h, ok_bind, Frame.compare]
      rfl
    obtain ⟨plan, made, predicate, having, joins⟩ := ofRoot_filtered_ok read made
    refine ⟨plan, made, ?_, ?_⟩
    · rw [Position.columns, Plan.comparisons, predicate, having]
      rfl
    · rw [joins, oneComparison_demands _ _ located]
      simp [Frame.demandPlace, Clause.references, Frame.demand]

theorem position_binds (rooted : f.Rooted) (p : Position) (admits : p.Admits f.root reference) :
    p.Binds f model reference := by
  cases p with
  | select => exact select_binds rooted
  | group => exact group_binds rooted
  | aggregate function => exact aggregate_binds admits
  | sort direction => exact sort_binds direction
  | operand field => exact operand_binds admits
  | filterKey => exact filterKey_binds admits

end

/-! Why a reference is refused. -/

theorem Catalog.follow_error {c : Catalog} {owner : String} {names : List String} {e : QueryError}
    (h : c.follow owner names = .error e) : ∃ entity name, e = .unknownAssociation entity name := by
  induction names generalizing owner with
  | nil => cases h
  | cons name rest ih =>
    rw [follow] at h
    split at h
    · cases h
      exact ⟨owner, name, rfl⟩
    · rename_i a found
      split at h
      · rename_i e' failed
        cases h
        exact ih failed
      · cases h

/-- In a valid catalog a path fails only at one of its names. -/
theorem reach_error {f : Frame} (valid : f.catalog.Valid) {segments : List String} {e : QueryError}
    (h : f.reach segments = .error e) : ∃ entity name, e = .unknownAssociation entity name := by
  unfold Frame.reach at h
  cases followed : f.catalog.follow f.root.name segments with
  | error e' =>
    rw [followed] at h
    cases h
    exact Catalog.follow_error followed
  | ok steps =>
    rw [followed, ok_bind] at h
    split at h
    · cases h
    · rename_i a last
      have step : a ∈ f.catalog.associations :=
        Catalog.mem_of_follow followed a (List.mem_of_getLast? last)
      obtain ⟨target, known, -⟩ := (valid.fits a step).target
      rw [known] at h
      cases h

theorem bind_error {f : Frame} (valid : f.catalog.Valid) {reference : String} {e : QueryError}
    (h : f.bind reference = .error e) :
    ∃ entity name, e = .unknownField entity name ∨ e = .unknownAssociation entity name := by
  simp only [Frame.bind, Frame.bindField] at h
  cases reached : f.reach (Reference.ofString reference).path with
  | error e' =>
    rw [reached] at h
    cases h
    obtain ⟨entity, name, rfl⟩ := reach_error valid reached
    exact ⟨entity, name, .inr rfl⟩
  | ok owner =>
    rw [reached, ok_bind] at h
    split at h
    · cases h
      exact ⟨_, _, .inl rfl⟩
    · cases h

/-- Wherever a request refers to a field, a reference is refused for the same reason, or it means
the same column and joins the same relations. -/
theorem reference_means_one_column {declarations : List Declaration} {c : Catalog}
    (built : Catalog.build declarations = .ok c) {model : String} {root : Entity}
    (known : c.entity? model = some root) (policy : FragmentPolicy) (reference : String) :
    (∃ e, (∃ entity name, e = .unknownField entity name ∨ e = .unknownAssociation entity name) ∧
      ∀ p : Position, p.Admits root reference →
        Plan.ofRequest c policy (p.request model reference) = .error e) ∨
    ∃ column joins, ∀ p : Position, p.Admits root reference →
      ∃ plan, Plan.ofRequest c policy (p.request model reference) = .ok plan ∧
        p.columns ⟨c, root, policy⟩ plan = [column] ∧ bareForest plan.joins = joins := by
  let f : Frame := ⟨c, root, policy⟩
  have rooted : f.Rooted := by
    rwa [Frame.Rooted, Catalog.name_of_entity? known]
  have compiles (p : Position) :
      Plan.ofRequest c policy (p.request model reference) =
        Plan.ofRoot f (p.request model reference) := by
    have name : (p.request model reference).modelName = model := by
      cases p <;> rfl
    rw [Plan.ofRequest, name, known]
  cases h : f.bind reference with
  | error e =>
    refine .inl ⟨e, bind_error (Catalog.valid_of_build built) h, fun p admits => ?_⟩
    rw [compiles]
    exact (position_binds rooted p admits).refused e h
  | ok bound =>
    let joins := bareForest (JoinForest.ofDemands [] root.name (f.demand reference))
    refine .inr ⟨bound.column, joins, fun p admits => ?_⟩
    rw [compiles]
    exact (position_binds rooted p admits).bound bound h

theorem film_language_name_means_one_column :
    ∃ joins, ∀ p : Position, p.Admits filmEntity "language.name" →
      ∃ plan, Plan.ofRequest filmCatalog .reject (p.request "film" "language.name") = .ok plan ∧
        p.columns ⟨filmCatalog, filmEntity, .reject⟩ plan = [⟨"language", "name"⟩] ∧
          bareForest plan.joins = joins := by
  have found : filmCatalog.entity? "film" = some filmEntity := by decide
  have selects : (Plan.ofRequest filmCatalog .reject
      (Position.request "film" "language.name" .select)).toOption.any (fun plan =>
        Position.columns ⟨filmCatalog, filmEntity, .reject⟩ plan .select =
          [⟨"language", "name"⟩]) = true := by
    decide +kernel
  obtain ⟨selected, made, column⟩ := exists_ok_of_any selects
  rcases reference_means_one_column film_build found .reject "language.name" with
    ⟨e, -, fails⟩ | ⟨column', joins, means⟩
  · rw [fails .select trivial] at made
    cases made
  · obtain ⟨plan, made', columns, -⟩ := means .select trivial
    cases made.symm.trans made'
    cases columns.symm.trans (of_decide_eq_true column)
    exact ⟨joins, means⟩

end ReadPlan
