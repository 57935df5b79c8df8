import ReadPlan.Proofs.BoundColumns
import ReadPlan.Proofs.Mentions
import ReadPlan.Proofs.RelationAliases

namespace ReadPlan

namespace Plan

/-- The names of the relations of a plan, each with the entity that it holds rows of. -/
def relations (p : Plan) : List (String × String) :=
  (p.entity, p.entity) :: p.allJoins.map fun j => (j.path, j.target)

/-- The column is that of a declared field of the relation's entity. -/
def Provides (c : Catalog) (p : Plan) (table column : String) : Prop :=
  ∃ name e x, (table, name) ∈ p.relations ∧ c.entity? name = some e ∧ x ∈ e.fields ∧
    x.column = column

/-- The query is that of a fragment in the filter of the plan, which is a condition on a partner of
the relation `source` under the association. -/
def Asks (c : Catalog) (p : Plan) (source : String) (a : Association) (q : Sql.Query) : Prop :=
  ∃ filter ∈ p.predicate, ∃ sql, .fragment sql (.exists source a) ∈ filter.leaves ∧
    c.fragmentExpr sql (.exists source a) = .ok (.exists q)

/-- A filter mentions columns of the plan, and queries under `EXISTS`, each that of a fragment.
Besides its own relations such a query mentions the one whose partners the fragment is about. -/
def InFilter (c : Catalog) (p : Plan) : Sql.Mention → Prop
  | .exists q =>
    ∃ source a, p.Asks c source a q ∧ a ∈ c.associations ∧ (source, a.source) ∈ p.relations ∧
      a.name ∈ q.aliases ∧ ∀ m ∈ q.mentions, m.Names fun table column =>
        table ∈ q.aliases ∨ table = source ∧ p.Provides c table column
  | m => m.Names (p.Provides c)

structure Scopes (c : Catalog) (p : Plan) (q : Sql.Query) : Prop where
  joins : ∃ root, q.source = some root ∧ Sql.joinsScoped [root.alias] q.joins
  introduced : ∀ relation ∈ p.relations, relation.1 ∈ q.aliases
  select : ∀ item ∈ q.select, ∀ m ∈ item.expr.mentions, m.Names (p.Provides c)
  filter : ∀ e ∈ q.filter, ∀ m ∈ e.mentions, p.InFilter c m
  groupBy : ∀ e ∈ q.groupBy, ∀ m ∈ e.mentions, m.Names (p.Provides c)
  having : ∀ e ∈ q.having, ∀ m ∈ e.mentions, m.Names (p.Provides c)
  /-- An unqualified name is that of an aggregate in the selection. -/
  orderBy : ∀ item ∈ q.orderBy, (∀ m ∈ item.expr.mentions, m.Names (p.Provides c)) ∨
    ∃ a ∈ p.aggregates, item.expr = .column none a.name ∧ aggregateItem a ∈ q.select

end Plan

/-! The order of the joins. -/

def ParentsFirst : (known : List String) → List JoinNode → Prop
  | _, [] => True
  | known, j :: rest => j.parent ∈ known ∧ ParentsFirst (j.path :: known) rest

theorem ParentsFirst.weaken {known more : List String} (within : known ⊆ more)
    {joins : List JoinNode} (h : ParentsFirst known joins) : ParentsFirst more joins := by
  induction joins generalizing known more with
  | nil => trivial
  | cons j rest ih => exact ⟨within h.1, ih (List.cons_subset_cons j.path within) h.2⟩

theorem ParentsFirst.append {known : List String} {before after : List JoinNode}
    (first : ParentsFirst known before) (second : ParentsFirst known after) :
    ParentsFirst known (before ++ after) := by
  induction before generalizing known with
  | nil => exact second
  | cons j rest ih => exact ⟨first.1, ih first.2 (second.weaken (List.subset_cons_self _ _))⟩

section

variable {c : Catalog} {options : JoinOptions}

mutual

theorem JoinNode.parentsFirst : (j : JoinNode) → ∀ {l rs known}, j.Mirrors c options l rs →
    l.parent ∈ known → ParentsFirst known j.flatten
  | ⟨name, path, parent, target, association, required, projected, nested⟩, _, _, _, h, above => by
    obtain ⟨spells, -, below⟩ := JoinNode.mirrors_iff.mp h
    exact ⟨spells.parent ▸ above, forest_parentsFirst nested below.each List.mem_cons_self⟩

theorem forest_parentsFirst : (forest : List JoinNode) → ∀ {l rs known},
    (∀ j ∈ forest, j.Mirrors c options l rs) → l.parent ∈ known →
      ParentsFirst known (flattenForest forest)
  | [], _, _, _, _, _ => trivial
  | j :: rest, _, _, _, each, above => by
    obtain ⟨here, others⟩ := List.forall_mem_cons.mp each
    exact (j.parentsFirst here above).append (forest_parentsFirst rest others above)

end

theorem sqlJoins_scoped {j : JoinNode} {target : Entity} {joins : List Sql.Join}
    (h : j.sqlJoins c target = .ok joins) {known : List String} (above : j.parent ∈ known) :
    Sql.joinsScoped known joins := by
  simp only [JoinNode.sqlJoins, bind_eq_ok] at h
  obtain ⟨owner, -, h⟩ := h
  split at h <;> cases h <;>
    simp [Sql.joinsScoped, Sql.Expr.equals, Sql.Expr.ofColumn, Sql.Expr.mentions,
      Sql.Mention.Names, Sql.TableRef.alias, Entity.tableRef, Junction.tableRef, above]

theorem parts_scoped {joins : List JoinNode}
    {parts : List (List Sql.SelectItem × List Sql.Join)}
    (h : joins.mapM (JoinNode.parts c) = .ok parts) {known : List String}
    (ordered : ParentsFirst known joins) : Sql.joinsScoped known (parts.flatMap (·.2)) := by
  induction joins generalizing known parts with
  | nil =>
    cases h
    trivial
  | cons j rest ih =>
    obtain ⟨part, more, here, others, rfl⟩ := mapM_cons_eq_ok.mp h
    simp only [JoinNode.parts, bind_eq_ok, pure_eq_ok] at here
    obtain ⟨target, -, joins, made, rfl⟩ := here
    refine Sql.joinsScoped_append (sqlJoins_scoped made ordered.1) (ih others ?_)
    refine ordered.2.weaken (List.cons_subset.mpr ⟨?_, List.subset_append_right _ _⟩)
    rw [JoinNode.sqlJoins_aliases made]
    simp [JoinNode.aliases]

end

/-! What the expressions of predicates mention. -/

def ColumnRef.mention (column : ColumnRef) : Sql.Mention :=
  .column (some column.table) column.column

theorem ColumnRef.expr_mentions (column : ColumnRef) : column.expr.mentions = [column.mention] :=
  rfl

theorem Target.expr_mentions (t : Target) : t.expr.mentions = [t.column.mention] := by
  cases t <;> rfl

namespace Sql

theorem listMentions_literals (vs : List Json) : listMentions (vs.map literal) = [] := by
  rw [listMentions_eq_flatMap, List.flatMap_map]
  exact List.flatMap_eq_nil_iff.mpr fun _ _ => rfl

theorem compares_mentions {left e : Expr} {operand : Operand} (h : Compares left operand e) :
    e.mentions = left.mentions ++ operand.columns.map ColumnRef.mention := by
  cases h <;>
    simp [Expr.mentions, literal, listMentions_literals, Operand.columns, ColumnRef.expr_mentions]

end Sql

theorem Comparison.expr_mentions {d : Dialect} {x : Comparison} {e : Sql.Expr}
    (h : x.expr d = .ok e) : e.mentions = x.columns.map ColumnRef.mention := by
  unfold Comparison.expr at h
  simp only at h
  split at h
  · cases h
  · rw [Sql.compares_mentions (Sql.operatorExpr_compares h), Target.expr_mentions]
    rfl

/-- A condition on a partner mentions, besides its own relations, the column that the owner is
joined by. -/
theorem existsQuery_mentions {c : Catalog} {source : String} {a : Association} {q : Sql.Query}
    (h : c.existsQuery source a = .ok q) (sql : String) :
    ∃ owner, c.entity? a.source = some owner ∧
      a.name ∈ (q.addFilter (.paren (.raw sql))).aliases ∧
      ∀ m ∈ (q.addFilter (.paren (.raw sql))).mentions, m.Names fun table column =>
        table ∈ (q.addFilter (.paren (.raw sql))).aliases ∨
          table = source ∧ column = owner.columnOf a.sourceKey := by
  simp only [Catalog.existsQuery, bind_eq_ok] at h
  obtain ⟨owner, found, target, -, h⟩ := h
  refine ⟨owner, Catalog.requireEntity_eq_ok.mp found, ?_⟩
  split at h <;> cases h <;>
    simp [Sql.Query.mentions, Sql.Query.addFilter, Sql.Query.empty, Sql.Query.aliases,
      Sql.Expr.equals, Sql.Expr.ofColumn, Sql.Expr.mentions, Sql.Mention.Names,
      Sql.TableRef.alias, Entity.tableRef, Junction.tableRef]

section

variable {c : Catalog} {d : Dialect} {P : Predicate → Prop} {Q : Sql.Mention → Prop}

mutual

theorem predicate_mentions : (p : Predicate) →
    (∀ leaf ∈ p.leaves, (∀ op ps, leaf ≠ .logical op ps) → ∀ {e}, leaf.expr c d = .ok e →
      ∀ m ∈ e.mentions, Q m) → ∀ {e}, p.expr c d = .ok e → ∀ m ∈ e.mentions, Q m
  | .comparison _, each, _, h | .qualified .., each, _, h | .fragment .., each, _, h
  | .globalPattern _, each, _, h => each _ List.mem_cons_self (by simp) h
  | .logical op children, each, _, h => by
    simp only [Predicate.expr, bind_eq_ok, pure_eq_ok] at h
    obtain ⟨es, rendered, rfl⟩ := h
    rw [Sql.mentions_gathers.combined]
    exact predicates_mention children each rendered

theorem predicates_mention : (ps : List Predicate) →
    (∀ leaf ∈ predicateLeaves ps, (∀ op ps, leaf ≠ .logical op ps) → ∀ {e}, leaf.expr c d = .ok e →
      ∀ m ∈ e.mentions, Q m) → ∀ {es}, Predicate.exprs c d ps = .ok es →
        ∀ m ∈ es.flatMap Sql.Expr.mentions, Q m
  | [], _, _, h => by
    cases h
    simp
  | p :: rest, each, _, h => by
    obtain ⟨first, others⟩ := List.forall_mem_append.mp each
    simp only [Predicate.exprs, bind_eq_ok, pure_eq_ok] at h
    obtain ⟨e, here, es, more, rfl⟩ := h
    rw [List.flatMap_cons, List.forall_mem_append]
    exact ⟨predicate_mentions p first here, predicates_mention rest others more⟩

end

theorem clause_mentions {predicate : Option Predicate}
    (leaf : ∀ p ∈ predicate, ∀ leaf ∈ p.leaves, P leaf → (∀ op ps, leaf ≠ .logical op ps) →
      ∀ {e}, leaf.expr c d = .ok e → ∀ m ∈ e.mentions, Q m)
    (each : predicatesEach P predicate.toList) {clause : Option Sql.Expr}
    (h : predicate.mapM (Predicate.expr c d) = .ok clause) : ∀ e ∈ clause, ∀ m ∈ e.mentions, Q m := by
  cases predicate with
  | none =>
    cases h
    simp
  | some predicate =>
    rw [Option.mapM_some, map_eq_ok] at h
    obtain ⟨e, rendered, rfl⟩ := h
    rintro _ ⟨⟩
    refine predicate_mentions predicate (fun l hl => ?_) rendered
    exact leaf predicate rfl l hl (predicate.each_of_mem_leaves each.1 l hl)

end

section

variable {f : Frame} {r : Request} {demands : List Demand} {p : Plan}

theorem Plan.BoundIn.relation_mem (bound : p.BoundIn f r demands) {segments : List String}
    {e : Entity} (leads : Leads demands segments) (reached : f.reach segments = .ok e) :
    (f.relation segments, e.name) ∈ p.relations := by
  by_cases none : segments = []
  · subst none
    cases reached
    simp [Plan.relations, bound.entity, Frame.relation]
  · obtain ⟨j, joined, path, target⟩ := join_of_leads bound.rooted r bound.sound none leads reached
    rw [← bound.joins] at joined
    have name : f.relation segments = j.path := by simp [Frame.relation, none, path]
    rw [name, ← target]
    exact List.mem_cons_of_mem _ (List.mem_map_of_mem (f := fun j => (j.path, j.target)) joined)

theorem entity?_of_reach (rooted : f.Rooted) {segments : List String} {e : Entity}
    (reached : f.reach segments = .ok e) : f.catalog.entity? e.name = some e := by
  obtain ⟨steps, -, known⟩ := rooted.reach_eq_ok.mp reached
  rwa [Catalog.name_of_entity? known]

theorem Plan.BoundIn.provides (bound : p.BoundIn f r demands) {column : ColumnRef}
    (h : f.Covers demands column) : p.Provides f.catalog column.table column.column := by
  obtain ⟨segments, e, x, leads, reached, hx, rfl⟩ := h
  exact ⟨e.name, e, x, bound.relation_mem leads reached, entity?_of_reach bound.rooted reached, hx,
    rfl⟩

theorem Plan.BoundIn.provides_key (bound : p.BoundIn f r demands) (valid : f.catalog.Valid)
    {s : Scope} (reach : s.Stands f demands) {a : Association} (owns : a.source = s.entity.name)
    (known : a ∈ f.catalog.associations) :
    p.Provides f.catalog (f.relation s.segments) (s.entity.columnOf a.sourceKey) := by
  obtain ⟨owner, found, declared⟩ := (valid.fits a known).source
  rw [owns, entity?_of_reach bound.rooted reach.reached] at found
  cases found
  obtain ⟨x, hx, column⟩ := Entity.columnOf_declared declared
  rw [← column]
  exact bound.provides ⟨s.segments, s.entity, x, reach.leads, reach.reached, hx, rfl⟩

theorem covered_mentions (valid : f.catalog.Valid) (bound : p.BoundIn f r demands) {d : Dialect}
    {filter leaf : Predicate} (filters : filter ∈ p.predicate) (stands : leaf ∈ filter.leaves)
    (covered : leaf.Covered f demands) (plain : ∀ op ps, leaf ≠ .logical op ps) {e : Sql.Expr}
    (h : leaf.expr f.catalog d = .ok e) : ∀ m ∈ e.mentions, p.InFilter f.catalog m := by
  cases leaf with
  | comparison x | qualified _ x =>
    rw [Comparison.expr_mentions h]
    intro m hm
    obtain ⟨column, hc, rfl⟩ := List.mem_map.mp hm
    exact bound.provides (covered column hc)
  | fragment sql scope =>
    cases scope with
    | field field =>
      cases h
      intro m hm
      cases List.mem_singleton.mp hm
      exact bound.provides covered
    | «exists» source a =>
      have rendered := h
      obtain ⟨s, reach, rfl, owns, known⟩ := covered
      simp only [Predicate.expr, Catalog.fragmentExpr, bind_eq_ok, pure_eq_ok] at h
      obtain ⟨q, made, rfl⟩ := h
      obtain ⟨owner, found, partner, mentions⟩ := existsQuery_mentions made sql
      have same : owner = s.entity := by
        rw [owns, entity?_of_reach bound.rooted reach.reached] at found
        exact (Option.some.inj found).symm
      subst same
      intro m hm
      cases List.mem_singleton.mp hm
      refine ⟨f.relation s.segments, a, ⟨filter, filters, sql, stands, rendered⟩, known,
        owns ▸ bound.relation_mem reach.leads reach.reached, partner,
        fun m hm => (mentions m hm).imp ?_⟩
      rintro table column (inside | ⟨rfl, rfl⟩)
      · exact .inl inside
      · exact .inr ⟨rfl, bound.provides_key valid reach owns known⟩
  | globalPattern pattern => cases h
  | logical op ps => exact absurd rfl (plain op ps)

theorem covered_comparison_mentions (bound : p.BoundIn f r demands) {d : Dialect}
    {leaf : Predicate} {e : Sql.Expr} (covered : leaf.IsCoveredComparison f demands)
    (h : leaf.expr f.catalog d = .ok e) : ∀ m ∈ e.mentions, m.Names (p.Provides f.catalog) := by
  cases leaf with
  | comparison x =>
    rw [Comparison.expr_mentions h]
    intro m hm
    obtain ⟨column, hc, rfl⟩ := List.mem_map.mp hm
    exact bound.provides (covered column hc)
  | _ => cases covered

theorem parts_mentions (bound : p.BoundIn f r demands)
    {parts : List (List Sql.SelectItem × List Sql.Join)}
    (h : p.allJoins.mapM (JoinNode.parts f.catalog) = .ok parts) :
    ∀ item ∈ parts.flatMap (·.1), ∀ m ∈ item.expr.mentions, m.Names (p.Provides f.catalog) := by
  intro item hi
  obtain ⟨part, hp, hi⟩ := List.mem_flatMap.mp hi
  obtain ⟨j, hj, made⟩ := source_of_mapM h part hp
  simp only [JoinNode.parts, bind_eq_ok, pure_eq_ok] at made
  obtain ⟨target, found, joins, -, rfl⟩ := made
  obtain ⟨field, hf, rfl⟩ := List.mem_map.mp hi
  intro m hm
  cases List.mem_singleton.mp hm
  rw [Plan.allJoins, bound.joins] at hj
  obtain ⟨e, known, covered⟩ := join_covers bound.rooted r bound.sound hj hf
  cases known.symm.trans (Catalog.requireEntity_eq_ok.mp found)
  exact bound.provides covered

end

/-- Whatever a request asks for, the query of its plan refers only to what is in scope. -/
theorem compiled_query_scoped {declarations : List Declaration} {c : Catalog}
    (built : Catalog.build declarations = .ok c) {policy : FragmentPolicy} {r : Request} {p : Plan}
    (compiled : Plan.ofRequest c policy r = .ok p) {d : Dialect} {q : Sql.Query}
    (rendered : p.query c d = .ok q) : p.Scopes c q := by
  obtain ⟨f, demands, rfl, bound⟩ := bound_of_ofRequest compiled
  have valid := Catalog.valid_of_build built
  have aliases := query_aliases rendered
  simp only [Plan.query, bind_eq_ok, pure_eq_ok] at rendered
  obtain ⟨root, found, parts, joined, filter, filtered, having, conditioned, rfl⟩ := rendered
  have root_eq : root = f.root := by
    rw [Catalog.requireEntity, bound.entity, bound.rooted] at found
    cases found
    rfl
  subst root_eq
  have tree := joins_mirror r bound.sound
  constructor
  case joins =>
    refine ⟨_, rfl, parts_scoped joined ?_⟩
    rw [Plan.allJoins, bound.joins]
    refine forest_parentsFirst _ tree.each ?_
    simp [Level.ofRoot, Entity.tableRef, Sql.TableRef.alias]
  case introduced =>
    rw [aliases]
    refine List.forall_mem_cons.mpr ⟨List.mem_cons_self, List.forall_mem_map.mpr fun j hj => ?_⟩
    exact List.mem_cons_of_mem _ (List.mem_flatMap.mpr ⟨j, hj, by simp [JoinNode.aliases]⟩)
  case select =>
    intro item hi
    rcases List.mem_append.mp hi with hi | hi
    · rcases List.mem_append.mp hi with hi | hi
      · obtain ⟨field, hf, rfl⟩ := List.mem_map.mp hi
        intro m hm
        cases List.mem_singleton.mp hm
        exact bound.provides (root_covers (bound.fields field hf))
      · exact parts_mentions bound joined item hi
    · obtain ⟨a, ha, rfl⟩ := List.mem_map.mp hi
      intro m hm
      cases List.mem_singleton.mp hm
      exact bound.provides (bound.aggregates a ha)
  case filter =>
    exact clause_mentions (fun _ given _ stands => covered_mentions valid bound given stands)
      bound.predicate filtered
  case groupBy =>
    intro e he
    obtain ⟨column, hc, rfl⟩ := List.mem_map.mp he
    intro m hm
    cases List.mem_singleton.mp hm
    exact bound.provides (bound.groupBy column hc)
  case having =>
    exact clause_mentions (fun _ _ _ _ covered _ => covered_comparison_mentions bound covered)
      bound.having conditioned
  case orderBy =>
    intro item hi
    have sorted : ∃ s, p.sort = some s ∧ Plan.orderItem s = item := by simpa using hi
    obtain ⟨s, given, rfl⟩ := sorted
    rcases bound.sort s given with ⟨a, ha, target⟩ | ⟨field, target, covered⟩
    · rw [Plan.orderItem, target]
      exact .inr ⟨a, ha, rfl, List.mem_append_right _ (List.mem_map_of_mem ha)⟩
    · rw [Plan.orderItem, target]
      refine .inl fun m hm => ?_
      cases List.mem_singleton.mp hm
      exact bound.provides covered

def groupedRequest : Request where
  modelName := "film"
  filters := .obj [
    ("language", .obj [("name", .obj [("like", .str "E%")])]),
    ("length", .obj [("col", .str "language.language_id")]),
    ("actors", .obj [("subquery", .str "actors.last_name = 'Z'")])]
  select := some ["title", "actors.last"]
  page := .whole
  sorting := some ⟨"max_length", .desc⟩
  groupBy := ["language.name"]
  aggregates := some [("max", .str "length")]
  having := some (.obj [("max_length", .obj [("gt", .int 100)])])
  joinOptions := []
  globalSearch := false

theorem film_query_scoped :
    ∃ p q, Plan.ofRequest filmCatalog .allow groupedRequest = .ok p ∧
      p.query filmCatalog .postgres = .ok q ∧ p.Scopes filmCatalog q := by
  have runs : (Plan.ofRequest filmCatalog .allow groupedRequest).toOption.any (fun p =>
      (p.query filmCatalog .postgres).toOption.any fun _ => true) = true := by
    decide +kernel
  obtain ⟨p, compiled, renders⟩ := exists_ok_of_any runs
  obtain ⟨q, rendered, -⟩ := exists_ok_of_any renders
  exact ⟨p, q, compiled, rendered, compiled_query_scoped film_build compiled rendered⟩

end ReadPlan
