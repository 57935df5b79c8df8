import ReadPlan.Proofs.OperatorExpr
import ReadPlan.Proofs.PlanJoins
import ReadPlan.Proofs.PredicateLeaves

namespace ReadPlan

/-- The column of a declared field at the end of a path that is demanded. -/
def Frame.Covers (f : Frame) (demands : List Demand) (column : ColumnRef) : Prop :=
  ∃ segments e x, Leads demands segments ∧ f.reach segments = .ok e ∧ x ∈ e.fields ∧
    column = ⟨f.relation segments, x.column⟩

theorem Entity.columnOf_declared {e : Entity} {field : String} (h : e.hasField field = true) :
    ∃ x ∈ e.fields, x.column = e.columnOf field := by
  obtain ⟨x, found⟩ := Option.isSome_iff_exists.mp h
  exact ⟨x, List.mem_of_find?_eq_some found, by rw [columnOf, found]⟩

theorem Entity.hasField_of_mem {e : Entity} {field : String} (h : field ∈ e.fieldNames) :
    e.hasField field = true := by
  obtain ⟨x, hx, rfl⟩ := List.mem_map.mp h
  exact List.find?_isSome.mpr ⟨x, hx, by simp⟩

section

variable {f : Frame} {demands : List Demand}

theorem Frame.Covers.mono {more : List Demand} (within : demands ⊆ more) {column : ColumnRef}
    (h : f.Covers demands column) : f.Covers more column := by
  obtain ⟨segments, e, x, leads, rest⟩ := h
  exact ⟨segments, e, x, leads.mono within, rest⟩

theorem root_covers {field : String} (h : f.root.hasField field = true) :
    f.Covers demands ⟨f.root.name, f.root.columnOf field⟩ := by
  obtain ⟨x, hx, same⟩ := Entity.columnOf_declared h
  exact ⟨[], f.root, x, .inl rfl, rfl, hx, by rw [same]; rfl⟩

theorem bindField_covers {segments : List String} {field name : String} {bound : FieldRef}
    (h : f.bindField segments field name = .ok bound)
    (within : f.demandPath segments [] ⊆ demands) : f.Covers demands bound.column := by
  obtain ⟨e, x, reached, declared, rfl⟩ := bindField_eq_ok.mp h
  exact ⟨segments, e, x, leads_of_demandPath reached within, reached,
    List.mem_of_find?_eq_some declared, rfl⟩

theorem bind_covers {reference : String} {bound : FieldRef} (h : f.bind reference = .ok bound)
    (within : f.demand reference ⊆ demands) : f.Covers demands bound.column :=
  bindField_covers h within

theorem locate_own {s : Scope} {key : String} {nested : Bool} {field : Field}
    (h : f.locate s key nested = .ok (.own field)) : field ∈ s.entity.fields := by
  unfold Frame.locate at h
  split at h
  · simp only at h
    split at h
    · simp only [bind_eq_ok] at h
      obtain ⟨owner, -, h⟩ := h
      split at h <;> cases h
    · cases h
  · split at h
    · rename_i found
      cases h
      exact List.mem_of_find?_eq_some found
    · split at h
      · cases h
      · split at h <;> cases h

theorem bindPlace_covers {s : Scope} (stands : s.Stands f demands) {key : String} {place : Place}
    (located : f.locate s key false = .ok place) {bound : BoundField}
    (h : f.bindPlace s key place = .ok bound) (within : f.demandPlace place ⊆ demands) :
    f.Covers demands bound.field.column := by
  cases place with
  | own field =>
    cases h
    exact ⟨s.segments, s.entity, field, stands.leads, stands.reached, locate_own located, rfl⟩
  | joined segments field =>
    simp only [Frame.bindPlace, bind_eq_ok, pure_eq_ok] at h
    obtain ⟨bound, made, rfl⟩ := h
    exact bindField_covers made within
  | association segments => cases h

end

/-! The columns of a predicate, leaf by leaf. -/

def Target.column : Target → ColumnRef
  | field f => f.column
  | aggregate a => a.field.column

def Operand.columns : Operand → List ColumnRef
  | .column field => [field.column]
  | .value _ | .list _ | .range .. => []

def Comparison.columns (x : Comparison) : List ColumnRef :=
  x.target.column :: x.operand.columns

/-- Everything that a leaf refers to is covered; a condition on a partner stands in the scope of the
relation that owns the association. -/
def Predicate.Covered (f : Frame) (demands : List Demand) : Predicate → Prop
  | .comparison x | .qualified _ x => ∀ column ∈ x.columns, f.Covers demands column
  | .fragment _ (.field field) => f.Covers demands field.column
  | .fragment _ (.exists source a) =>
    ∃ s : Scope, s.Stands f demands ∧ source = f.relation s.segments ∧ a.source = s.entity.name ∧
      a ∈ f.catalog.associations
  | .globalPattern _ | .logical .. => True

def Predicate.IsCoveredComparison (f : Frame) (demands : List Demand) : Predicate → Prop
  | .comparison x => ∀ column ∈ x.columns, f.Covers demands column
  | _ => False

section

variable {f : Frame} {demands : List Demand}

theorem operand_covers {path : String} {op : Operator} {v : Json} {operand : Operand}
    (made : Operand.ofJson f path op v = .ok operand)
    (within : ∀ r ∈ (Clause.compare op v).references, f.demand r ⊆ demands) :
    ∀ column ∈ operand.columns, f.Covers demands column := by
  cases operand with
  | column field =>
    obtain ⟨reference, given, bound⟩ := Operand.ofJson_column made
    rw [given] at within
    simpa [Operand.columns] using bind_covers bound (within reference (List.mem_singleton.mpr rfl))
  | _ => simp [Operand.columns]

theorem origin_covered {W : Json → Prop} {p : Predicate} (h : f.Origin demands W p) :
    p.Covered f demands := by
  rcases h with ⟨stands, located, bound, placed, -, referred, made⟩ | ⟨stands, made⟩
  · simp only [Frame.compare, bind_eq_ok, pure_eq_ok] at made
    obtain ⟨operand, read, rfl⟩ := made
    have target := bindPlace_covers stands located bound placed
    have operands := operand_covers read referred
    split <;> exact List.forall_mem_cons.mpr ⟨target, operands⟩
  · simp only [Frame.fragment] at made
    split at made
    · cases made
    · split at made
      · rename_i field declared
        cases made
        exact ⟨_, _, field, stands.leads, stands.reached, List.mem_of_find?_eq_some declared, rfl⟩
      · split at made
        · rename_i a found
          cases made
          obtain ⟨known, owner⟩ := Catalog.mem_of_association? found
          exact ⟨_, stands, rfl, owner, known⟩
        · cases made

theorem having_compare_covered {key : String} {a : Aggregate}
    (covered : f.Covers demands a.field.column) {op : Operator} {v : Json} {p : Predicate}
    (referred : ∀ r ∈ (Clause.compare op v).references, f.demand r ⊆ demands)
    (made : Having.compare f key a op v = .ok p) :
    p.Each (Predicate.IsCoveredComparison f demands) := by
  simp only [Having.compare, bind_eq_ok, pure_eq_ok] at made
  obtain ⟨operand, read, rfl⟩ := made
  exact List.forall_mem_cons.mpr ⟨covered, operand_covers read referred⟩

/-! The other parts of a request. -/

theorem aggregates_covered {r : Request} {aggregates : List Aggregate}
    (h : r.aggregateMembers.mapM (Aggregate.ofMember f) = .ok aggregates)
    (within : (r.aggregateMembers.filterMap Request.referenceOf?).flatMap f.demand ⊆ demands) :
    ∀ a ∈ aggregates, f.Covers demands a.field.column := by
  intro a ha
  obtain ⟨⟨function, v⟩, hm, made⟩ := source_of_mapM h a ha
  obtain ⟨-, reference, bound, given, binds, rfl⟩ := aggregate_ofMember_eq_ok.mp made
  refine bind_covers binds (demand_subset within reference ?_)
  refine List.mem_filterMap.mpr ⟨_, hm, ?_⟩
  rw [show v = .str reference from given]
  rfl

theorem explicit_covered {references : List String} {explicit : List FieldRef}
    (h : references.mapM f.bind = .ok explicit) (within : references.flatMap f.demand ⊆ demands) :
    ∀ field ∈ explicit, f.Covers demands field.column := by
  intro field hf
  obtain ⟨reference, hr, made⟩ := source_of_mapM h field hf
  exact bind_covers made (demand_subset within reference hr)

theorem rootFields_eq (entries : List String) :
    Projection.rootFields entries =
      (((entries.map Reference.ofString).filter (·.path.isEmpty)).map (·.field)).eraseDups :=
  (eraseDups_append [] _).symm

theorem mem_rootFields {entries : List String} {field : String} :
    field ∈ Projection.rootFields entries ↔
      ∃ entry ∈ entries, Reference.ofString entry = ⟨[], field⟩ := by
  simp only [rootFields_eq, List.mem_eraseDups, List.mem_map, List.mem_filter, List.isEmpty_iff]
  constructor
  · rintro ⟨r, ⟨⟨entry, he, rfl⟩, none⟩, rfl⟩
    exact ⟨entry, he, by rw [← none]⟩
  · rintro ⟨entry, he, split⟩
    exact ⟨⟨[], field⟩, ⟨⟨entry, he, split⟩, rfl⟩, rfl⟩

theorem projection_declared {select : Option (List String)} {projection : Projection}
    (h : Projection.ofSelect f select = .ok projection) :
    ∀ field ∈ projection.fields, f.root.hasField field = true := by
  intro field hf
  cases select with
  | none =>
    cases h
    exact Entity.hasField_of_mem hf
  | some entries =>
    simp only [Projection.ofSelect, bind_eq_ok, pure_eq_ok] at h
    obtain ⟨_, bound, rfl⟩ := h
    obtain ⟨entry, he, split⟩ := mem_rootFields.mp hf
    obtain ⟨bound, made⟩ := result_of_mapM bound entry he
    simp only [Frame.bind, split, bindField_eq_ok] at made
    obtain ⟨e, x, reached, declared, -⟩ := made
    cases reached
    rw [Entity.hasField, declared]
    rfl

theorem Registration.mem_returned {rs : List Registration} {field : String} :
    field ∈ Registration.returned rs ↔ ∃ r ∈ rs, r.names = [] ∧ field ∈ r.fields := by
  simp [Registration.returned, and_assoc]

theorem join_covers (rooted : f.Rooted) (r : Request) (sound : Sound f demands) {j : JoinNode}
    (hj : j ∈ flattenForest (r.joins f demands)) {field : String} (hf : field ∈ j.projected) :
    ∃ e, f.catalog.entity? j.target = some e ∧
      f.Covers demands ⟨j.path, e.columnOf field⟩ := by
  have tree := joins_mirror r sound
  obtain ⟨chain, found⟩ := tree.exists_chain hj
  rw [tree.projected_eq found, Registration.mem_returned] at hf
  obtain ⟨⟨_, fields⟩, member, rfl, named⟩ := hf
  obtain ⟨d, hd, same⟩ := List.mem_map.mp (Registration.mem_afterAll.mp member)
  obtain ⟨names, rfl⟩ := Registration.mk.inj same
  rw [List.append_nil] at names
  obtain ⟨followed, declared⟩ := sound d hd
  obtain ⟨e, known, has⟩ := declared field named
  rw [names] at followed
  obtain ⟨x, hx, column⟩ := Entity.columnOf_declared has
  have more := JoinForest.ne_nil_of_find? found
  have target : j.target = Catalog.endOf f.root.name d.steps := tree.target_eq found followed
  have path : j.path = f.relation chain := by
    rw [tree.path_of_root found, Frame.relation, if_neg (by simpa using more)]
  exact ⟨e, target ▸ known, chain, e, x, .inr ⟨d, hd, names ▸ List.prefix_refl _⟩,
    rooted.reach_eq_ok.mpr ⟨_, followed, known⟩, hx, by rw [path, column]⟩

theorem join_of_leads (rooted : f.Rooted) (r : Request) (sound : Sound f demands)
    {segments : List String} (joined : segments ≠ []) (leads : Leads demands segments) {e : Entity}
    (reached : f.reach segments = .ok e) : ∃ j ∈ flattenForest (r.joins f demands),
      j.path = relationAlias segments ∧ j.target = e.name := by
  obtain ⟨steps, followed, known⟩ := rooted.reach_eq_ok.mp reached
  obtain ⟨d, hd, begins⟩ := leads.resolve_left joined
  have tree := joins_mirror r sound
  have present := (tree.isSome_iff segments).mpr
    ⟨joined, d.registration, List.mem_map_of_mem hd, begins⟩
  obtain ⟨j, found⟩ := Option.isSome_iff_exists.mp present
  have target : j.target = Catalog.endOf f.root.name steps := tree.target_eq found followed
  exact ⟨j, JoinForest.mem_flatten_of_find? found, tree.path_of_root found,
    by rw [target, Catalog.name_of_entity? known]⟩

theorem distinctColumns_eq (columns : List ColumnRef) :
    distinctColumns columns = columns.eraseDups :=
  (eraseDups_append [] columns).symm

theorem grouping_covered (rooted : f.Rooted) (r : Request) (sound : Sound f demands)
    {explicit : List FieldRef} (bound : ∀ field ∈ explicit, f.Covers demands field.column)
    {projection : Projection}
    (declared : ∀ field ∈ projection.fields, f.root.hasField field = true) :
    ∀ column ∈ f.grouping explicit projection (r.joins f demands), f.Covers demands column := by
  intro column hc
  rw [Frame.grouping, distinctColumns_eq, List.mem_eraseDups] at hc
  rcases List.mem_append.mp hc with hc | hc
  · rcases List.mem_append.mp hc with hc | hc
    · obtain ⟨field, hf, rfl⟩ := List.mem_map.mp hc
      exact bound field hf
    · obtain ⟨field, hf, rfl⟩ := List.mem_map.mp hc
      exact root_covers (declared field hf)
  · obtain ⟨j, hj, hc⟩ := List.mem_flatMap.mp hc
    split at hc
    · cases hc
    · rename_i e known
      obtain ⟨field, hf, rfl⟩ := List.mem_map.mp hc
      obtain ⟨e', known', covered⟩ := join_covers rooted r sound hj hf
      cases known.symm.trans known'
      exact covered

end

/-- What the renderer relies on: the root and the joins provide every column of the plan. -/
structure Plan.BoundIn (p : Plan) (f : Frame) (r : Request) (demands : List Demand) : Prop where
  rooted : f.Rooted
  entity : p.entity = f.root.name
  joins : p.joins = r.joins f demands
  sound : Sound f demands
  fields : ∀ field ∈ p.projection.fields, f.root.hasField field = true
  predicate : predicatesEach (Predicate.Covered f demands) p.predicate.toList
  groupBy : ∀ column ∈ p.groupBy, f.Covers demands column
  having : predicatesEach (Predicate.IsCoveredComparison f demands) p.having.toList
  aggregates : ∀ a ∈ p.aggregates, f.Covers demands a.field.column
  sort : ∀ s, p.sort = some s →
    (∃ a ∈ p.aggregates, s.target = .aggregate a.name) ∨
      ∃ field : FieldRef, s.target = .field field ∧ f.Covers demands field.column

theorem globalSearch_covered {f : Frame} {demands : List Demand} (filter : Filter) :
    predicatesEach (Predicate.Covered f demands) filter.globalSearch.toList := by
  refine combine_each .or (predicatesEach_iff.mpr fun p hp => ?_)
  obtain ⟨v, -, rfl⟩ := List.mem_map.mp hp
  trivial

theorem sort_eq_ok {f : Frame} {aggregates : List Aggregate} {s : Option Sorting}
    {order : SortOrder} (h : s.mapM (f.sort aggregates) = .ok (some order)) :
    (∃ a ∈ aggregates, order.target = .aggregate a.name) ∨
      ∃ asked bound, s = some asked ∧ f.bind asked.field = .ok bound ∧
        order.target = .field bound := by
  cases s with
  | none => cases h
  | some s =>
    rw [Option.mapM_some, map_eq_ok] at h
    obtain ⟨order, made, same⟩ := h
    cases same
    unfold Frame.sort at made
    split at made
    · rename_i named
      cases made
      rw [Bool.and_eq_true] at named
      obtain ⟨a, found⟩ := Option.isSome_iff_exists.mp named.2
      have name : a.name = s.field := by simpa using List.find?_some found
      exact .inl ⟨a, List.mem_of_find?_eq_some found, by rw [name]⟩
    · simp only [bind_eq_ok, pure_eq_ok] at made
      obtain ⟨bound, made, rfl⟩ := made
      exact .inr ⟨s, bound, rfl, made, rfl⟩

theorem bind_name {f : Frame} {reference : String} {bound : FieldRef}
    (h : f.bind reference = .ok bound) : bound.name = reference := by
  obtain ⟨e, x, -, -, rfl⟩ := bindField_eq_ok.mp h
  rfl

theorem outputDemands_subset {f : Frame} {r : Request} {filter : Filter} {demands : List Demand}
    (within : r.outputDemands f filter ⊆ demands) :
    r.filterDemands f filter ⊆ demands ∧
      (r.aggregateMembers.filterMap Request.referenceOf?).flatMap f.demand ⊆ demands ∧
        r.groupBy.flatMap f.demand ⊆ demands := by
  simp only [Request.outputDemands, List.append_subset] at within
  exact ⟨within.1.1.1, within.1.2, within.2⟩

theorem compileFilters_covered {f : Frame} {r : Request} {filter : Filter}
    {predicate : Option Predicate} {demands : List Demand}
    (compiled : r.compileFilters f filter = .ok predicate)
    (within : r.filterDemands f filter ⊆ demands) :
    predicatesEach (Predicate.Covered f demands) predicate.toList := by
  unfold Request.compileFilters at compiled
  unfold Request.filterDemands at within
  split at compiled
  · cases compiled
    exact globalSearch_covered filter
  · rename_i bare
    rw [if_neg bare] at within
    exact predicatesEach_imp (fun _ => origin_covered) _
      (filter_compile_origin within (W := fun _ => True) (fun _ _ => trivial) compiled)

theorem having_covered {f : Frame} {aggregates : List Aggregate} {conditions : Filter}
    {condition : Option Predicate} {demands : List Demand}
    (bound : ∀ a ∈ aggregates, f.Covers demands a.field.column)
    (compiled : Having.compile f aggregates conditions = .ok condition)
    (within : Having.demands f conditions ⊆ demands) :
    predicatesEach (Predicate.IsCoveredComparison f demands) condition.toList := by
  refine having_compile_demanding (W := fun _ => True) ?_ within (fun _ _ => trivial) compiled
  intro key a ha op v p _ referred made
  exact having_compare_covered (bound a ha) referred made

theorem sort_covered {f : Frame} {aggregates : List Aggregate} {sorting : Option Sorting}
    {sort : Option SortOrder} (sorted : sorting.mapM (f.sort aggregates) = .ok sort) :
    ∀ s, sort = some s → (∃ a ∈ aggregates, s.target = .aggregate a.name) ∨
      ∃ field : FieldRef, s.target = .field field ∧ f.Covers (f.sortDemands sort) field.column := by
  rintro ⟨target, direction⟩ rfl
  rcases sort_eq_ok sorted with named | ⟨asked, bound, -, made, same⟩
  · exact .inl named
  · dsimp only at same
    subst same
    refine .inr ⟨bound, rfl, bind_covers made ?_⟩
    rw [Frame.sortDemands, bind_name made]
    exact List.Subset.refl _

theorem bound_of_ofRoot {f : Frame} (rooted : f.Rooted) {r : Request} {p : Plan}
    (h : Plan.ofRoot f r = .ok p) : ∃ demands, p.BoundIn f r demands := by
  simp only [Plan.ofRoot, bind_eq_ok, pure_eq_ok] at h
  obtain ⟨filter, -, predicate, compiled, projection, selected, aggregates, aggregated, explicit,
    bound, conditions, -, condition, compiledToo, sort, sorted, rfl⟩ := h
  -- the grouping is bound before the conditions on groups and the order demand their joins
  let output := r.outputDemands f filter
  let demands := output ++ Having.demands f conditions ++ f.sortDemands sort
  have output_within : output ⊆ demands := by
    intro d hd
    exact List.mem_append_left _ (List.mem_append_left _ hd)
  have having_within : Having.demands f conditions ⊆ demands := by
    intro d hd
    exact List.mem_append_left _ (List.mem_append_right _ hd)
  have output_sound : Sound f output := outputDemands_sound rooted filter selected
  have declared := projection_declared selected
  obtain ⟨filtered, aggregate, -⟩ := outputDemands_subset output_within
  have aggregates_bound := aggregates_covered aggregated aggregate
  refine ⟨demands, ?_⟩
  constructor
  case rooted => exact rooted
  case entity => rfl
  case joins => rfl
  case sound =>
    exact (output_sound.append (having_demands_sound rooted conditions)).append
      (sortDemands_sound rooted sort)
  case fields => exact declared
  case predicate => exact compileFilters_covered compiled filtered
  case groupBy =>
    show ∀ column ∈ (if r.groups then _ else _), _
    split
    · obtain ⟨-, -, groups⟩ := outputDemands_subset (List.Subset.refl output)
      intro column hc
      have covered :=
        grouping_covered rooted r output_sound (explicit_covered bound groups) declared column hc
      exact Frame.Covers.mono output_within covered
    · simp
  case having => exact having_covered aggregates_bound compiledToo having_within
  case aggregates => exact aggregates_bound
  case sort =>
    intro s given
    refine (sort_covered sorted s given).imp id ?_
    rintro ⟨field, target, covered⟩
    exact ⟨field, target, covered.mono (List.subset_append_right _ _)⟩

theorem bound_of_ofRequest {c : Catalog} {policy : FragmentPolicy} {r : Request} {p : Plan}
    (h : Plan.ofRequest c policy r = .ok p) :
    ∃ f demands, f.catalog = c ∧ p.BoundIn f r demands := by
  obtain ⟨root, known, h⟩ := ofRequest_eq_ok.mp h
  obtain ⟨demands, bound⟩ := bound_of_ofRoot (rooted_of_entity? known policy) h
  exact ⟨_, demands, rfl, bound⟩

end ReadPlan
