import ReadPlan.Proofs.PlanJoins

namespace ReadPlan

/-- The parts of a plan that its filters have no say in. -/
structure PlanRest where
  projection : Projection
  aggregates : List Aggregate
  explicit : List FieldRef
  having : Filter
  condition : Option Predicate
  sort : Option SortOrder

namespace PlanRest

def ofRequest (f : Frame) (r : Request) : Except QueryError PlanRest := do
  let projection ← Projection.ofSelect f r.effectiveSelect
  let aggregates ← r.aggregateMembers.mapM (Aggregate.ofMember f)
  let explicit ← r.groupBy.mapM f.bind
  let having ← r.readHaving aggregates
  let condition ← Having.compile f aggregates having
  let sort ← r.sorting.mapM (f.sort aggregates)
  return ⟨projection, aggregates, explicit, having, condition, sort⟩

def plan (f : Frame) (r : Request) (filter : Filter) (predicate : Option Predicate)
    (rest : PlanRest) : Plan :=
  let output := r.outputDemands f filter
  { entity := f.root.name
    projection := rest.projection
    predicate
    joins := r.joins f (output ++ Having.demands f rest.having ++ f.sortDemands rest.sort)
    groupBy :=
      if r.groups then f.grouping rest.explicit rest.projection (r.joins f output) else []
    having := rest.condition
    aggregates := rest.aggregates
    sort := rest.sort
    page := if r.page.isWhole then none else some r.page }

def demands (f : Frame) (r : Request) (rest : PlanRest) : List Demand :=
  Projection.demands f (r.effectiveSelect.getD []) ++
    (r.aggregateMembers.filterMap Request.referenceOf?).flatMap f.demand ++
    r.groupBy.flatMap f.demand ++ Having.demands f rest.having ++ f.sortDemands rest.sort

theorem plan_joins (f : Frame) (r : Request) (filter : Filter) (predicate : Option Predicate)
    (rest : PlanRest) : (rest.plan f r filter predicate).joins =
      r.joins f (r.filterDemands f filter ++ rest.demands f r) := by
  simp only [plan, demands, Request.outputDemands, List.append_assoc]

theorem demands_sound {f : Frame} (rooted : f.Rooted) {r : Request} {rest : PlanRest}
    (made : ofRequest f r = .ok rest) : Sound f (rest.demands f r) := by
  simp only [ofRequest, bind_eq_ok, pure_eq_ok] at made
  obtain ⟨projection, selected, _, -, _, -, _, -, _, -, _, -, rfl⟩ := made
  have columns (references : List String) : Sound f (references.flatMap f.demand) :=
    ReadPlan.demands_sound rooted references
  have selects := projection_demands_sound rooted selected
  exact (((selects.append (columns _)).append (columns _)).append
    (having_demands_sound rooted _)).append (sortDemands_sound rooted _)

end PlanRest

theorem Request.filterDemands_sound {f : Frame} (rooted : f.Rooted) (r : Request)
    (filter : Filter) : Sound f (r.filterDemands f filter) := by
  unfold Request.filterDemands
  split
  · exact .nil f
  · exact termDemands_sound rooted _ _

theorem PlanRest.all_sound {f : Frame} (rooted : f.Rooted) {r : Request} (filter : Filter)
    {rest : PlanRest} (made : ofRequest f r = .ok rest) :
    Sound f (r.filterDemands f filter ++ rest.demands f r) :=
  (r.filterDemands_sound rooted filter).append (demands_sound rooted made)

/-- The filters are compiled first, and a plan is put together from what they give and the rest. -/
theorem ofRoot_eq (f : Frame) (r : Request) (filters : Json) :
    Plan.ofRoot f { r with filters } = do
      let filter ← Filter.ofJson "filters" filters
      let predicate ← r.compileFilters f filter
      let rest ← PlanRest.ofRequest f r
      return rest.plan f r filter predicate := by
  simp only [PlanRest.ofRequest, bind_assoc, pure_bind]
  rfl

theorem ofRequest_filters {c : Catalog} {r : Request} {root : Entity}
    (known : c.entity? r.modelName = some root) (policy : FragmentPolicy) (filters : Json) :
    Plan.ofRequest c policy { r with filters } = do
      let filter ← Filter.ofJson "filters" filters
      let predicate ← r.compileFilters ⟨c, root, policy⟩ filter
      let rest ← PlanRest.ofRequest ⟨c, root, policy⟩ r
      return rest.plan ⟨c, root, policy⟩ r filter predicate := by
  rw [← ofRoot_eq]
  simp only [Plan.ofRequest, known]

theorem stages_of_ofRequest {c : Catalog} {policy : FragmentPolicy} {r : Request} {p : Plan}
    (h : Plan.ofRequest c policy r = .ok p) : ∃ root filter rest,
      c.entity? r.modelName = some root ∧ Filter.ofJson "filters" r.filters = .ok filter ∧
        r.compileFilters ⟨c, root, policy⟩ filter = .ok p.predicate ∧
          PlanRest.ofRequest ⟨c, root, policy⟩ r = .ok rest ∧
            p = rest.plan ⟨c, root, policy⟩ r filter p.predicate := by
  obtain ⟨root, known, -⟩ := ofRequest_eq_ok.mp h
  simp only [ofRequest_filters known policy r.filters, bind_eq_ok, pure_eq_ok] at h
  obtain ⟨filter, read, predicate, compiled, rest, made, rfl⟩ := h
  exact ⟨root, filter, rest, known, read, compiled, made, rfl⟩

end ReadPlan
