import ReadPlan.Plan.OfRequest
import ReadPlan.Proofs.CatalogBuild
import ReadPlan.Proofs.JoinChains
import ReadPlan.Proofs.JoinForest

namespace ReadPlan

theorem Catalog.mem_of_follow {c : Catalog} {owner : String} {names : List String}
    {steps : List Association} (h : c.follow owner names = .ok steps) :
    ∀ a ∈ steps, a ∈ c.associations := by
  induction names generalizing owner steps with
  | nil =>
    cases h
    simp
  | cons name rest ih =>
    rw [follow] at h
    split at h
    · cases h
    · rename_i a found
      split at h
      · cases h
      · rename_i more followed
        cases h
        exact List.forall_mem_cons.mpr ⟨(mem_of_association? found).1, ih followed⟩

def Grounded (c : Catalog) (demands : List Demand) : Prop :=
  ∀ d ∈ demands, ∀ a ∈ d.steps, a ∈ c.associations

def Frame.Rooted (f : Frame) : Prop :=
  f.catalog.entity? f.root.name = some f.root

/-- The steps are followed from the root, and the fields are declared where they end. -/
structure Demand.Sound (f : Frame) (d : Demand) : Prop where
  followed : f.catalog.follow f.root.name (d.steps.map (·.name)) = .ok d.steps
  declared : ∀ field ∈ d.fields, ∃ e,
    f.catalog.entity? (Catalog.endOf f.root.name d.steps) = some e ∧ e.hasField field = true

def Sound (f : Frame) (demands : List Demand) : Prop :=
  ∀ d ∈ demands, d.Sound f

theorem Catalog.name_of_entity? {c : Catalog} {name : String} {e : Entity}
    (h : c.entity? name = some e) : e.name = name := by
  simpa using List.find?_some h

section

variable {f : Frame}

theorem Sound.grounded {ds : List Demand} (h : Sound f ds) : Grounded f.catalog ds :=
  fun d hd => Catalog.mem_of_follow (h d hd).followed

theorem Sound.nil (f : Frame) : Sound f [] := by
  simp [Sound]

theorem Sound.append {ds es : List Demand} (hd : Sound f ds) (he : Sound f es) :
    Sound f (ds ++ es) :=
  List.forall_mem_append.mpr ⟨hd, he⟩

theorem Sound.flatMap {α : Type} {g : α → List Demand} {xs : List α}
    (h : ∀ x ∈ xs, Sound f (g x)) : Sound f (xs.flatMap g) := by
  intro d hm
  obtain ⟨x, hx, hm⟩ := List.mem_flatMap.mp hm
  exact h x hx d hm

theorem Frame.Rooted.reach_eq_ok (rooted : f.Rooted) {segments : List String} {e : Entity} :
    f.reach segments = .ok e ↔ ∃ steps, f.catalog.follow f.root.name segments = .ok steps ∧
      f.catalog.entity? (Catalog.endOf f.root.name steps) = some e := by
  simp only [Frame.reach, bind_eq_ok]
  refine exists_congr fun steps => and_congr_right fun _ => ?_
  unfold Catalog.endOf
  cases steps.getLast? with
  | none =>
    rw [Frame.Rooted] at rooted
    simp [pure_eq_ok, rooted]
  | some a => cases h : f.catalog.entity? a.target <;> simp [h, pure_eq_ok]

theorem bindField_eq_ok {segments : List String} {field name : String} {bound : FieldRef} :
    f.bindField segments field name = .ok bound ↔ ∃ e x, f.reach segments = .ok e ∧
      e.field? field = some x ∧ bound = ⟨name, ⟨f.relation segments, x.column⟩⟩ := by
  simp only [Frame.bindField, bind_eq_ok]
  constructor
  · rintro ⟨e, reached, made⟩
    split at made
    · cases made
    · rename_i x declared
      cases made
      exact ⟨e, x, reached, declared, rfl⟩
  · rintro ⟨e, x, reached, declared, rfl⟩
    exact ⟨e, reached, by rw [declared]; rfl⟩

theorem aggregate_ofMember_eq_ok {member : String × Json} {a : Aggregate} :
    Aggregate.ofMember f member = .ok a ↔ Text.isPlainName member.1 = true ∧
      ∃ reference bound, member.2 = .str reference ∧ f.bind reference = .ok bound ∧
        a = ⟨member.1, bound, Aggregate.aliasOf member.1 reference⟩ := by
  obtain ⟨function, v⟩ := member
  unfold Aggregate.ofMember
  cases Text.isPlainName function with
  | false => simp
  | true =>
    cases v with
    | str reference => simp [map_eq_ok, eq_comm (b := a)]
    | _ => simp

theorem demandPath_sound (rooted : f.Rooted) {segments fields : List String}
    (declared : ∀ field ∈ fields, ∃ e, f.reach segments = .ok e ∧ e.hasField field = true) :
    Sound f (f.demandPath segments fields) := by
  intro d hd
  obtain ⟨-, followed, rfl⟩ := Frame.mem_demandPath.mp hd
  refine ⟨by rwa [Catalog.names_of_follow followed], fun field hf => ?_⟩
  obtain ⟨e, reached, has⟩ := declared field hf
  obtain ⟨_, again, found⟩ := rooted.reach_eq_ok.mp reached
  cases followed.symm.trans again
  exact ⟨e, found, has⟩

theorem demand_sound (rooted : f.Rooted) (reference : String) : Sound f (f.demand reference) :=
  demandPath_sound rooted (by simp)

theorem demands_sound (rooted : f.Rooted) (references : List String) :
    Sound f (references.flatMap f.demand) :=
  .flatMap fun reference _ => demand_sound rooted reference

theorem demandPlace_sound (rooted : f.Rooted) (place : Place) : Sound f (f.demandPlace place) := by
  cases place with
  | joined segments field => exact demandPath_sound rooted (by simp)
  | _ => exact .nil f

theorem mem_namedFields {e : Entity} {terms : Filter} {field : String}
    (h : field ∈ namedFields e terms) : e.hasField field = true := by
  obtain ⟨t, -, kept⟩ := List.mem_filterMap.mp h
  cases t with
  | logical => cases kept
  | field key condition =>
    simp only [Option.ite_none_right_eq_some, Option.some.injEq] at kept
    exact kept.2 ▸ kept.1

mutual

theorem termDemands_sound (rooted : f.Rooted) (s : Scope) :
    (terms : List Term) → Sound f (termDemands f s terms)
  | [] => .nil f
  | t :: rest => .append (t.demands_sound rooted s) (termDemands_sound rooted s rest)

theorem Term.demands_sound (rooted : f.Rooted) (s : Scope) :
    (t : Term) → Sound f (t.demands f s)
  | .logical _ children => filterDemands_sound rooted s children
  | .field key condition => condition.demands_sound rooted s key

theorem filterDemands_sound (rooted : f.Rooted) (s : Scope) :
    (filters : List (List Term)) → Sound f (filterDemands f s filters)
  | [] => .nil f
  | terms :: rest => .append (termDemands_sound rooted s terms) (filterDemands_sound rooted s rest)

theorem Condition.demands_sound (rooted : f.Rooted) (s : Scope) (key : String) :
    (condition : Condition) → Sound f (condition.demands f s key)
  | .subquery _ | .scalar _ => .nil f
  | .operators clauses => by
    rw [Condition.demands]
    split
    · exact .nil f
    · exact .append (demandPlace_sound rooted _) (ReadPlan.demands_sound rooted _)
  | .nested terms => by
    rw [Condition.demands]
    split
    · exact .nil f
    · split
      · exact .nil f
      · rename_i e reached
        refine .append (demandPath_sound rooted fun field named => ?_)
          (termDemands_sound rooted _ terms)
        exact ⟨e, reached, mem_namedFields named⟩
    · exact demandPlace_sound rooted _

end

def Condition.references : Condition → List String
  | .operators clauses => clauseReferences clauses
  | .subquery _ | .nested _ | .scalar _ => []

mutual

def Having.references : List Term → List String
  | [] => []
  | .logical _ children :: rest => Having.filterReferences children ++ Having.references rest
  | .field _ condition :: rest => condition.references ++ Having.references rest

def Having.filterReferences : List (List Term) → List String
  | [] => []
  | terms :: rest => Having.references terms ++ Having.filterReferences rest

end

mutual

theorem having_demands_eq : (terms : List Term) →
    Having.demands f terms = (Having.references terms).flatMap f.demand
  | [] => by
    rw [Having.demands, Having.references, List.flatMap_nil]
  | .logical _ children :: rest => by
    rw [Having.demands, Having.references, List.flatMap_append, having_demandsOfFilters_eq children,
      having_demands_eq rest]
  | .field _ condition :: rest => by
    have others := having_demands_eq rest
    cases condition <;> simp [Having.demands, Having.references, Condition.references, others]

theorem having_demandsOfFilters_eq : (filters : List (List Term)) →
    Having.demandsOfFilters f filters = (Having.filterReferences filters).flatMap f.demand
  | [] => by
    rw [Having.demandsOfFilters, Having.filterReferences, List.flatMap_nil]
  | terms :: rest => by
    rw [Having.demandsOfFilters, Having.filterReferences, List.flatMap_append,
      having_demands_eq terms, having_demandsOfFilters_eq rest]

end

theorem having_demands_sound (rooted : f.Rooted) (terms : List Term) :
    Sound f (Having.demands f terms) :=
  having_demands_eq terms ▸ demands_sound rooted (Having.references terms)

theorem projection_demands_sound (rooted : f.Rooted) {select : Option (List String)}
    {projection : Projection} (h : Projection.ofSelect f select = .ok projection) :
    Sound f (Projection.demands f (select.getD [])) := by
  cases select with
  | none => exact .nil f
  | some entries =>
    simp only [Projection.ofSelect, bind_eq_ok] at h
    obtain ⟨_, fields, -⟩ := h
    refine .flatMap fun entry he => demandPath_sound rooted fun field hf => ?_
    cases List.mem_singleton.mp hf
    obtain ⟨bound, made⟩ := result_of_mapM fields entry he
    obtain ⟨e, x, reached, declared, -⟩ := bindField_eq_ok.mp made
    exact ⟨e, reached, by rw [Entity.hasField, declared]; rfl⟩

theorem outputDemands_sound (rooted : f.Rooted) {r : Request} (filter : Filter)
    {projection : Projection} (h : Projection.ofSelect f r.effectiveSelect = .ok projection) :
    Sound f (r.outputDemands f filter) := by
  have filters : Sound f (r.filterDemands f filter) := by
    unfold Request.filterDemands
    split
    · exact .nil f
    · exact termDemands_sound rooted _ _
  exact .append (.append (.append filters (projection_demands_sound rooted h))
    (demands_sound rooted _)) (demands_sound rooted _)

theorem sortDemands_sound (rooted : f.Rooted) (s : Option SortOrder) :
    Sound f (f.sortDemands s) := by
  unfold Frame.sortDemands
  split
  · exact demand_sound rooted _
  · exact .nil f

end

structure JoinNode.Grounded (c : Catalog) (j : JoinNode) : Prop where
  association : j.association ∈ c.associations
  target : j.target = j.association.target

theorem JoinNode.grounded_stable (c : Catalog) : JoinForest.Stable (JoinNode.Grounded c) where
  nested _ h := ⟨h.association, h.target⟩
  project _ h := ⟨h.association, h.target⟩

theorem joins_grounded {f : Frame} (r : Request) {demands : List Demand}
    (h : Grounded f.catalog demands) :
    JoinForest.Each (JoinNode.Grounded f.catalog) (r.joins f demands) :=
  JoinForest.ofDemands_each (JoinNode.grounded_stable f.catalog) f.root.name
    fun d hd a ha _ _ => ⟨h d hd a ha, rfl⟩

theorem joins_mirror {f : Frame} (r : Request) {demands : List Demand} (h : Sound f demands) :
    JoinForest.Mirrors f.catalog r.joinOptions (.ofRoot f.root.name)
      (demands.map Demand.registration) (r.joins f demands) :=
  JoinForest.ofDemands_mirrors fun d hd => (h d hd).followed

theorem ofRequest_eq_ok {c : Catalog} {policy : FragmentPolicy} {r : Request} {p : Plan} :
    Plan.ofRequest c policy r = .ok p ↔ ∃ root, c.entity? r.modelName = some root ∧
      Plan.ofRoot ⟨c, root, policy⟩ r = .ok p := by
  unfold Plan.ofRequest
  cases c.entity? r.modelName <;> simp

theorem rooted_of_entity? {c : Catalog} {name : String} {root : Entity}
    (known : c.entity? name = some root) (policy : FragmentPolicy) :
    Frame.Rooted ⟨c, root, policy⟩ := by
  rwa [Frame.Rooted, Catalog.name_of_entity? known]

/-- The joins of a plan are the tree of some paths from its root. -/
theorem plan_joins_mirror {c : Catalog} {policy : FragmentPolicy} {r : Request} {p : Plan}
    (h : Plan.ofRequest c policy r = .ok p) :
    ∃ rs, JoinForest.Mirrors c r.joinOptions (.ofRoot p.entity) rs p.joins := by
  obtain ⟨root, known, h⟩ := ofRequest_eq_ok.mp h
  have rooted := rooted_of_entity? known policy
  simp only [Plan.ofRoot, bind_eq_ok, pure_eq_ok] at h
  obtain ⟨filter, -, -, -, projection, selected, -, -, -, -, conditions, -, -, -, sort, -, rfl⟩ := h
  exact ⟨_, joins_mirror r (((outputDemands_sound rooted filter selected).append
    (having_demands_sound rooted conditions)).append (sortDemands_sound rooted sort))⟩

end ReadPlan
