import ReadPlan.Proofs.BoundColumns
import ReadPlan.Proofs.PlanRendering
import ReadPlan.Proofs.StatementScope

namespace ReadPlan

/-! The grouping is made before the conditions on groups and the order demand their joins. Such a
demand returns no field, so the columns of the joins are the same before and after it. -/

section

variable (f : Frame)

theorem joinColumns_append (forest more : JoinForest) :
    f.joinColumns (forest ++ more) = f.joinColumns forest ++ f.joinColumns more := by
  induction forest with
  | nil => rfl
  | cons j rest ih =>
    simp only [Frame.joinColumns, List.cons_append, flattenForest, List.flatMap_append] at ih ⊢
    rw [ih, List.append_assoc]

theorem joinColumns_regrown {j : JoinNode} {nested : JoinForest}
    (same : f.joinColumns nested = f.joinColumns j.nested) :
    f.joinColumns [{ j with nested }] = f.joinColumns [j] := by
  simp only [Frame.joinColumns, flattenForest, JoinNode.flatten_eq, List.append_nil,
    List.flatMap_cons] at same ⊢
  rw [same]

theorem joinColumns_updateSibling (name : String) {g : JoinNode → JoinNode}
    (same : ∀ j, f.joinColumns [g j] = f.joinColumns [j]) (forest : JoinForest) :
    f.joinColumns (forest.updateSibling name g) = f.joinColumns forest := by
  induction forest with
  | nil => rfl
  | cons j rest ih =>
    have split (k : JoinNode) (others : JoinForest) :
        f.joinColumns (k :: others) = f.joinColumns [k] ++ f.joinColumns others :=
      joinColumns_append f [k] others
    rw [JoinForest.updateSibling]
    split
    · rw [split, same, ← split]
    · rw [split, ih, ← split]

theorem joinColumns_graft (options : JoinOptions) (parent : String) (trail : List String)
    (steps : List Association) (forest : JoinForest) :
    f.joinColumns (forest.graft options parent trail steps) = f.joinColumns forest := by
  induction steps generalizing parent trail forest with
  | nil => rfl
  | cons a rest ih =>
    have grown (j : JoinNode) : f.joinColumns [{ j with
        nested := JoinForest.graft options j.path (trail ++ [a.name]) rest j.nested }] =
          f.joinColumns [j] :=
      joinColumns_regrown f (ih _ _ _)
    have bare : f.joinColumns [JoinForest.sprout options parent (trail ++ [a.name]) a] = [] := by
      simp only [Frame.joinColumns, flattenForest, JoinNode.flatten_eq, JoinForest.sprout,
        List.append_nil, List.flatMap_singleton, List.map_nil]
      split <;> rfl
    simp only [JoinForest.graft]
    split
    · exact joinColumns_updateSibling f a.name grown forest
    · rw [joinColumns_append, grown, bare, List.append_nil]

end

/-- The demands return no field of their own. -/
def Fieldless (demands : List Demand) : Prop :=
  ∀ d ∈ demands, d.fields = []

section

variable {f : Frame}

theorem demand_fieldless (f : Frame) (reference : String) : Fieldless (f.demand reference) :=
  fun _ hd => (Frame.mem_demandPath.mp hd).2.2

theorem references_fieldless (f : Frame) (references : List String) :
    Fieldless (references.flatMap f.demand) := by
  intro d hd
  obtain ⟨reference, -, hd⟩ := List.mem_flatMap.mp hd
  exact demand_fieldless f reference d hd

theorem having_demands_fieldless (f : Frame) (terms : List Term) :
    Fieldless (Having.demands f terms) :=
  having_demands_eq terms ▸ references_fieldless f (Having.references terms)

theorem sortDemands_fieldless (f : Frame) (s : Option SortOrder) :
    Fieldless (f.sortDemands s) := by
  unfold Frame.sortDemands
  split
  · exact demand_fieldless f _
  · simp [Fieldless]

theorem Fieldless.append {ds es : List Demand} (hd : Fieldless ds) (he : Fieldless es) :
    Fieldless (ds ++ es) :=
  List.forall_mem_append.mpr ⟨hd, he⟩

theorem joinColumns_fieldless (r : Request) (demands : List Demand) {more : List Demand}
    (fieldless : Fieldless more) :
    f.joinColumns (r.joins f (demands ++ more)) = f.joinColumns (r.joins f demands) := by
  have run (forest : JoinForest) :
      f.joinColumns (more.foldl (.meet r.joinOptions f.root.name) forest) =
        f.joinColumns forest := by
    induction more generalizing forest with
    | nil => rfl
    | cons d rest ih =>
      obtain ⟨here, others⟩ := List.forall_mem_cons.mp fieldless
      have nothing (j : JoinNode) : j.project [] = j := by
        cases j
        rfl
      rw [List.foldl_cons, ih others, JoinForest.meet, here, JoinForest.update_same nothing,
        joinColumns_graft]
  rw [Request.joins, JoinForest.ofDemands, List.foldl_append]
  exact run _

def Frame.outputColumns (f : Frame) (projection : Projection) (forest : JoinForest) :
    List ColumnRef :=
  projection.fields.map (fun field => ⟨f.root.name, f.root.columnOf field⟩) ++ f.joinColumns forest

theorem grouping_eq (explicit : List FieldRef) (projection : Projection) (forest : JoinForest) :
    f.grouping explicit projection forest =
      (explicit.map (·.column) ++ f.outputColumns projection forest).eraseDups := by
  rw [Frame.grouping, distinctColumns_eq, Frame.outputColumns, List.append_assoc]

end

namespace Plan

def outputItems (c : Catalog) (p : Plan) : Except QueryError (List Sql.SelectItem) := do
  let root ← c.requireEntity p.entity
  let parts ← p.allJoins.mapM (JoinNode.parts c)
  return p.projection.fields.map (rootItem root) ++ parts.flatMap (·.1)

end Plan

theorem query_select {c : Catalog} {d : Dialect} {p : Plan} {q : Sql.Query}
    (h : p.query c d = .ok q) : ∃ items, p.outputItems c = .ok items ∧
      q.select = items ++ p.aggregates.map Plan.aggregateItem := by
  simp only [Plan.query, bind_eq_ok, pure_eq_ok] at h
  obtain ⟨root, found, parts, joined, _, -, _, -, rfl⟩ := h
  refine ⟨p.projection.fields.map (Plan.rootItem root) ++ parts.flatMap (·.1), ?_, rfl⟩
  simp only [Plan.outputItems, found, joined, ok_bind]
  rfl

section

variable {f : Frame} {p : Plan} {items : List Sql.SelectItem}

theorem parts_exprs {joins : List JoinNode} {parts : List (List Sql.SelectItem × List Sql.Join)}
    (h : joins.mapM (JoinNode.parts f.catalog) = .ok parts) :
    (parts.flatMap (·.1)).map (·.expr) = (joins.flatMap fun j =>
      match f.catalog.entity? j.target with
      | none => []
      | some target => j.projected.map fun field =>
        (⟨j.path, target.columnOf field⟩ : ColumnRef)).map ColumnRef.expr := by
  rw [List.map_flatMap, List.map_flatMap]
  refine flatMap_of_mapM ?_ h
  intro j part here
  simp only [JoinNode.parts, bind_eq_ok, pure_eq_ok, Catalog.requireEntity_eq_ok] at here
  obtain ⟨target, found, joins, -, rfl⟩ := here
  rw [found, JoinNode.selectItems, List.map_map, List.map_map]
  rfl

theorem outputItems_exprs (rooted : f.Rooted) (entity : p.entity = f.root.name)
    (h : p.outputItems f.catalog = .ok items) :
    items.map (·.expr) = (f.outputColumns p.projection p.joins).map ColumnRef.expr := by
  simp only [Plan.outputItems, bind_eq_ok, pure_eq_ok, Catalog.requireEntity_eq_ok] at h
  obtain ⟨root, found, parts, joined, rfl⟩ := h
  rw [entity, rooted] at found
  cases found
  rw [List.map_append, parts_exprs joined, Frame.outputColumns, List.map_append, List.map_map,
    List.map_map]
  rfl

end

/-- The output of a plan that can be written is there, whether or not its conditions can be. -/
theorem outputItems_total {c : Catalog} (valid : c.Valid) {p : Plan} {root : Entity}
    (known : c.entity? p.entity = some root) (joins : ∀ j ∈ p.allJoins, j.Grounded c) :
    ∃ items, p.outputItems c = .ok items := by
  have settles : Settles none (p.outputItems c) :=
    .after (requireEntity_settles known) fun _ _ => .after (allParts_settle valid joins) fun _ _ =>
      .pure _
  exact settles

/-- How a plan groups: `explicit` are the columns that the request groups by, and `items` is the
output beside the aggregates. -/
structure Plan.Groups (p : Plan) (explicit : List ColumnRef) (items : List Sql.SelectItem) :
    Prop where
  nodup : p.groupBy.Nodup
  named : explicit.eraseDups <+: p.groupBy
  covers : ∀ item ∈ items, ∃ column ∈ p.groupBy, item.expr = column.expr
  only : ∀ column ∈ p.groupBy, column ∈ explicit ∨ ∃ item ∈ items, item.expr = column.expr

theorem Plan.groups_of_eq {p : Plan} {explicit output : List ColumnRef}
    {items : List Sql.SelectItem} (groups : p.groupBy = (explicit ++ output).eraseDups)
    (exprs : items.map (·.expr) = output.map ColumnRef.expr) : p.Groups explicit items := by
  have mem {column : ColumnRef} : column ∈ p.groupBy ↔ column ∈ explicit ∨ column ∈ output := by
    rw [groups, List.mem_eraseDups, List.mem_append]
  constructor
  case nodup =>
    exact groups ▸ eraseDups_nodup _
  case named =>
    rw [groups, List.eraseDups_append]
    exact List.prefix_append _ _
  case covers =>
    intro item hi
    have hi : item.expr ∈ output.map ColumnRef.expr := exprs ▸ List.mem_map_of_mem hi
    obtain ⟨column, hc, same⟩ := List.mem_map.mp hi
    exact ⟨column, mem.mpr (.inr hc), same.symm⟩
  case only =>
    intro column hc
    refine (mem.mp hc).imp_right fun hc => ?_
    have hc : column.expr ∈ items.map (·.expr) := exprs ▸ List.mem_map_of_mem hc
    exact List.mem_map.mp hc

theorem ofRoot_groupBy {f : Frame} {r : Request} {p : Plan} (h : Plan.ofRoot f r = .ok p) :
    ∃ explicit, r.groupBy.mapM f.bind = .ok explicit ∧ p.groupBy =
      if r.groups then (explicit.map (·.column) ++ f.outputColumns p.projection p.joins).eraseDups
      else [] := by
  simp only [Plan.ofRoot, bind_eq_ok, pure_eq_ok] at h
  obtain ⟨filter, -, _, -, projection, -, _, -, explicit, bound, conditions, -, _, -, sort, -,
    rfl⟩ := h
  refine ⟨explicit, bound, ?_⟩
  have later := (having_demands_fieldless f conditions).append (sortDemands_fieldless f sort)
  dsimp only
  rw [grouping_eq, Frame.outputColumns, Frame.outputColumns, List.append_assoc,
    joinColumns_fieldless r _ later]

/-- A plan groups by what its request names and by its own output, or, if the request asks for no
groups, by nothing. -/
theorem compiled_plan_groups {declarations : List Declaration} {c : Catalog}
    (built : Catalog.build declarations = .ok c) {policy : FragmentPolicy} {r : Request} {p : Plan}
    (compiled : Plan.ofRequest c policy r = .ok p) :
    ∃ root explicit items, c.entity? r.modelName = some root ∧
      r.groupBy.mapM (Frame.bind ⟨c, root, policy⟩) = .ok explicit ∧
      p.outputItems c = .ok items ∧
      (∀ d q, p.query c d = .ok q → q.select = items ++ p.aggregates.map Plan.aggregateItem) ∧
      (r.groupBy = [] ∧ r.aggregateMembers = [] → p.groupBy = []) ∧
      (r.groupBy ≠ [] ∨ r.aggregateMembers ≠ [] → p.Groups (explicit.map (·.column)) items) := by
  unfold Plan.ofRequest at compiled
  split at compiled
  · cases compiled
  · rename_i root found
    have rooted : Frame.Rooted ⟨c, root, policy⟩ := by
      rwa [Frame.Rooted, Catalog.name_of_entity? found]
    obtain ⟨demands, bound⟩ := bound_of_ofRoot rooted compiled
    obtain ⟨explicit, named, groups⟩ := ofRoot_groupBy compiled
    have known : c.entity? p.entity = some root := by
      rw [bound.entity]
      exact rooted
    have joined : ∀ j ∈ p.allJoins, j.Grounded c := by
      rw [Plan.allJoins, bound.joins]
      exact joins_grounded r bound.sound.grounded
    obtain ⟨items, output⟩ := outputItems_total (Catalog.valid_of_build built) known joined
    refine ⟨root, explicit, items, found, named, output, ?_, ?_, ?_⟩
    · intro d q rendered
      obtain ⟨items', output', select⟩ := query_select rendered
      cases output.symm.trans output'
      exact select
    · rintro ⟨none, bare⟩
      simpa [Request.groups, none, bare] using groups
    · intro asked
      have asks : r.groups = true := by simpa [Request.groups] using asked
      rw [if_pos asks] at groups
      exact Plan.groups_of_eq groups (outputItems_exprs rooted bound.entity output)

theorem film_plan_groups :
    ∃ p, Plan.ofRequest filmCatalog .allow groupedRequest = .ok p ∧
      p.groupBy = [⟨"language", "name"⟩, ⟨"film", "title"⟩, ⟨"actors", "last_name"⟩] ∧
      ∃ items, p.outputItems filmCatalog = .ok items ∧ p.Groups [⟨"language", "name"⟩] items := by
  have runs : (Plan.ofRequest filmCatalog .allow groupedRequest).toOption.any (fun p =>
      p.groupBy = [⟨"language", "name"⟩, ⟨"film", "title"⟩, ⟨"actors", "last_name"⟩]) = true := by
    decide +kernel
  obtain ⟨p, compiled, groups⟩ := exists_ok_of_any runs
  obtain ⟨root, explicit, items, found, named, output, -, -, covered⟩ :=
    compiled_plan_groups film_build compiled
  cases found
  cases named
  exact ⟨p, compiled, of_decide_eq_true groups, items, output, covered (.inl (by decide))⟩

end ReadPlan
