import ReadPlan.Proofs.DottedNames
import ReadPlan.Proofs.FilterStage
import ReadPlan.Proofs.FilterTruth
import ReadPlan.Proofs.Grouping
import ReadPlan.Proofs.KeyPaths

namespace ReadPlan

/-- The keys of the terms; those under combinators are left out. -/
def topKeys (terms : List Term) : List String :=
  terms.filterMap fun
    | .field key _ => some key
    | .logical .. => none

theorem namedFields_eq (e : Entity) (terms : List Term) :
    namedFields e terms = (topKeys terms).filter e.hasField := by
  induction terms with
  | nil => rfl
  | cons t rest ih =>
    simp only [namedFields, topKeys] at ih
    cases t with
    | logical => simpa [namedFields, topKeys] using ih
    | field key condition =>
      by_cases declared : e.hasField key = true
      · simp [namedFields, topKeys, declared, ih]
      · simp [namedFields, topKeys, declared, ih]

structure PartnerFilter where
  segments : List String
  terms : List Term

section

variable (f : Frame)

mutual

def Term.partnerFilters (s : Scope) : Term → List PartnerFilter
  | .logical _ children => partnerFiltersOfAll s children
  | .field key condition => condition.partnerFilters s key

def Condition.partnerFilters (s : Scope) (key : String) : Condition → List PartnerFilter
  | .subquery _ | .operators _ | .scalar _ => []
  | .nested terms =>
    match f.partnerScope? s key with
    | none => []
    | some partner => ⟨partner.segments, terms⟩ :: partnerFilters partner terms

def partnerFilters (s : Scope) : List Term → List PartnerFilter
  | [] => []
  | t :: rest => t.partnerFilters s ++ partnerFilters s rest

def partnerFiltersOfAll (s : Scope) : List (List Term) → List PartnerFilter
  | [] => []
  | terms :: rest => partnerFilters s terms ++ partnerFiltersOfAll s rest

end

end

/-- The fields of a target that its filters name, the chain being that of its join. -/
def filteredAt (chain : List String) (target : Entity) (filters : List PartnerFilter) :
    List String :=
  (filters.filter (·.segments = chain)).flatMap fun a => (topKeys a.terms).filter target.hasField

/-- The fields that are selected through a chain of associations. -/
def selectedAt (chain : List String) (entries : List String) : List String :=
  ((entries.map Reference.ofString).filter (·.path = chain)).map (·.field)

theorem filteredAt_append (chain : List String) (target : Entity)
    (first more : List PartnerFilter) :
    filteredAt chain target (first ++ more) =
      filteredAt chain target first ++ filteredAt chain target more := by
  simp [filteredAt]

section

variable {f : Frame}

theorem returnedAt_append (trail : List String) (ds es : List Demand) :
    returnedAt trail (ds ++ es) = returnedAt trail ds ++ returnedAt trail es :=
  List.flatMap_append

theorem projected_of_demands {r : Request} {demands : List Demand} (sound : Sound f demands)
    {trail : List String} {j : JoinNode}
    (found : JoinForest.find? trail (r.joins f demands) = some j) :
    j.projected = (returnedAt trail demands).eraseDups := by
  rw [(joins_mirror r sound).projected_eq found, Registration.returned_afterAll, List.flatMap_map]
  rfl

end

theorem returnedAt_fieldless (chain : List String) {demands : List Demand}
    (fieldless : Fieldless demands) : returnedAt chain demands = [] := by
  rw [returnedAt, List.flatMap_eq_nil_iff]
  intro d hd
  simp [Demand.registration, fieldless d hd]

theorem demandPlace_fieldless (f : Frame) (place : Place) : Fieldless (f.demandPlace place) := by
  cases place with
  | joined segments field => exact fun d hd => (Frame.mem_demandPath.mp hd).2.2
  | _ => simp [Frame.demandPlace, Fieldless]

/-- A filter under an association demands its join and what its terms demand behind it; any other
nested filter returns nothing. -/
theorem nested_demands (f : Frame) (s : Scope) (key : String) (terms : List Term) :
    (∃ partner, f.partnerScope? s key = some partner ∧
      f.reach partner.segments = .ok partner.entity ∧
        (Condition.nested terms).demands f s key =
          f.demandPath partner.segments (namedFields partner.entity terms) ++
            termDemands f partner terms) ∨
    (f.partnerScope? s key = none ∧ Fieldless ((Condition.nested terms).demands f s key)) := by
  rw [Condition.demands, Frame.partnerScope?]
  cases f.locate s key true with
  | error e => exact .inr ⟨rfl, by simp [Fieldless]⟩
  | ok place =>
    cases place with
    | association segments =>
      cases reached : f.reach segments with
      | error e => exact .inr ⟨by simp [reached, Except.toOption], by simp [reached, Fieldless]⟩
      | ok e =>
        refine .inl ⟨⟨e, segments⟩, ?_, reached, ?_⟩
        · simp [reached, Except.toOption]
        · simp [reached]
    | own | joined => exact .inr ⟨rfl, demandPlace_fieldless f _⟩

section

variable {f : Frame} {chain : List String} {target : Entity}

theorem returnedAt_demandPath (joined : chain ≠ []) (reached : f.reach chain = .ok target)
    (segments fields : List String) :
    returnedAt chain (f.demandPath segments fields) = if segments = chain then fields else [] := by
  by_cases here : segments = chain
  · subst here
    simp only [Frame.reach, bind_eq_ok] at reached
    obtain ⟨steps, followed, -⟩ := reached
    have steps_eq : f.steps segments = .ok steps := Frame.steps_eq_ok.mpr ⟨joined, followed⟩
    simp [returnedAt, Frame.demandPath, steps_eq, Demand.registration,
      Catalog.names_of_follow followed]
  · rw [if_neg here, returnedAt, List.flatMap_eq_nil_iff]
    intro d hd
    obtain ⟨-, followed, -⟩ := Frame.mem_demandPath.mp hd
    simp [Demand.registration, Catalog.names_of_follow followed, here]

theorem returnedAt_selected (joined : chain ≠ []) (reached : f.reach chain = .ok target)
    (entries : List String) :
    returnedAt chain (Projection.demands f entries) = selectedAt chain entries := by
  induction entries with
  | nil => rfl
  | cons entry rest ih =>
    rw [Projection.demands, List.flatMap_cons, returnedAt_append,
      returnedAt_demandPath joined reached]
    rw [Projection.demands] at ih
    by_cases here : (Reference.ofString entry).path = chain
    · simp [selectedAt, here, ih]
    · simp [selectedAt, here, ih]

-- In each case the demand of the association comes before those of the filter behind it.
mutual

theorem returnedAt_terms (joined : chain ≠ []) (reached : f.reach chain = .ok target)
    (s : Scope) : (terms : List Term) → returnedAt chain (termDemands f s terms) =
      filteredAt chain target (partnerFilters f s terms)
  | [] => rfl
  | t :: rest => by
    rw [termDemands, partnerFilters, returnedAt_append, filteredAt_append,
      returnedAt_term joined reached s t, returnedAt_terms joined reached s rest]

theorem returnedAt_term (joined : chain ≠ []) (reached : f.reach chain = .ok target) (s : Scope) :
    (t : Term) → returnedAt chain (t.demands f s) =
      filteredAt chain target (t.partnerFilters f s)
  | .logical _ children => returnedAt_filters joined reached s children
  | .field key condition => returnedAt_condition joined reached s key condition

theorem returnedAt_filters (joined : chain ≠ []) (reached : f.reach chain = .ok target)
    (s : Scope) : (filters : List (List Term)) → returnedAt chain (filterDemands f s filters) =
      filteredAt chain target (partnerFiltersOfAll f s filters)
  | [] => rfl
  | terms :: rest => by
    rw [filterDemands, partnerFiltersOfAll, returnedAt_append, filteredAt_append,
      returnedAt_terms joined reached s terms, returnedAt_filters joined reached s rest]

theorem returnedAt_condition (joined : chain ≠ []) (reached : f.reach chain = .ok target)
    (s : Scope) (key : String) : (condition : Condition) →
      returnedAt chain (condition.demands f s key) =
        filteredAt chain target (condition.partnerFilters f s key)
  | .subquery _ | .scalar _ => rfl
  | .operators clauses => by
    rw [Condition.demands]
    split
    · rfl
    · rename_i place _
      have fieldless := (demandPlace_fieldless f place).append
        (references_fieldless f (clauseReferences clauses))
      exact returnedAt_fieldless chain fieldless
  | .nested terms => by
    rw [Condition.partnerFilters]
    obtain ⟨partner, found, there, demanded⟩ | ⟨none, fieldless⟩ := nested_demands f s key terms
    · have behind := returnedAt_terms joined reached partner terms
      rw [demanded, returnedAt_append, returnedAt_demandPath joined reached, behind, found]
      by_cases here : partner.segments = chain
      · have same : partner.entity = target := by
          rw [here, reached] at there
          exact (Except.ok.inj there).symm
        simp [filteredAt, here, same, namedFields_eq]
      · simp [filteredAt, here]
    · rw [returnedAt_fieldless chain fieldless, none]
      rfl

end

theorem reach_of_join (valid : f.catalog.Valid) (rooted : f.Rooted) {r : Request}
    {demands : List Demand} (sound : Sound f demands) {j : JoinNode}
    (found : JoinForest.find? chain (r.joins f demands) = some j) :
    ∃ target, f.reach chain = .ok target ∧ f.catalog.entity? j.target = some target := by
  have tree := joins_mirror r sound
  obtain ⟨-, _, registered, further, whole⟩ :=
    (tree.isSome_iff chain).mp (Option.isSome_of_eq_some found)
  obtain ⟨d, hd, rfl⟩ := List.mem_map.mp registered
  have followed := (sound d hd).followed
  rw [show d.steps.map (·.name) = chain ++ further from whole.symm] at followed
  obtain ⟨steps, _, begun, -, -⟩ := Catalog.follow_append_eq_ok.mp followed
  obtain ⟨target, reached⟩ := reach_of_follow valid rooted begun
  obtain ⟨_, again, known⟩ := rooted.reach_eq_ok.mp reached
  cases begun.symm.trans again
  have ends : j.target = Catalog.endOf f.root.name steps := tree.target_eq found begun
  exact ⟨target, reached, ends ▸ known⟩

theorem rest_returnedAt (joined : chain ≠ []) (reached : f.reach chain = .ok target) (r : Request)
    (rest : PlanRest) :
    returnedAt chain (rest.demands f r) = selectedAt chain (r.effectiveSelect.getD []) := by
  have aggregates := references_fieldless f (r.aggregateMembers.filterMap Request.referenceOf?)
  have groups := aggregates.append (references_fieldless f r.groupBy)
  have conditions := groups.append (having_demands_fieldless f rest.having)
  have fieldless := conditions.append (sortDemands_fieldless f rest.sort)
  rw [PlanRest.demands]
  simp only [List.append_assoc] at fieldless ⊢
  rw [returnedAt_append, returnedAt_fieldless chain fieldless, List.append_nil,
    returnedAt_selected joined reached]

end

end ReadPlan
