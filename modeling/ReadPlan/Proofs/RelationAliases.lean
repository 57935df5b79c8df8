import ReadPlan.Proofs.DottedNames
import ReadPlan.Proofs.Mentions
import ReadPlan.Proofs.PlanJoins
import Mathlib.Data.List.Perm.Basic

/-!
Which relations of a statement share a name. An alias is a chain of names, and chains of names that
do not hold the separator are told apart by their aliases. What is left to clash then is a first
join named like the root entity and a join named like the junction table of the join above it.
-/

namespace ReadPlan

/-- A name that does not hold the separator of aliases. -/
def IsSegment (name : String) : Prop :=
  ¬ ['-', '>'] <:+: name.toList

/-- Separators cannot overlap: one ends before the next begins. -/
theorem arrow_apart {w u v : List Char} (h : '-' :: '>' :: u = w ++ '-' :: '>' :: v) :
    w = [] ∨ ['-', '>'] <:+: w := by
  match w with
  | [] => exact .inl rfl
  | [a] => simp at h
  | a :: b :: rest =>
    simp only [List.cons_append, List.cons.injEq] at h
    obtain ⟨rfl, rfl, -⟩ := h
    exact .inr ⟨[], rest, rfl⟩

theorem arrow_split {a b u v : List Char} (ha : ¬ ['-', '>'] <:+: a) (hb : ¬ ['-', '>'] <:+: b)
    (h : a ++ '-' :: '>' :: u = b ++ '-' :: '>' :: v) : a = b ∧ u = v := by
  rcases List.append_eq_append_iff.mp h with ⟨w, rfl, same⟩ | ⟨w, rfl, same⟩
  · rcases arrow_apart same with rfl | within
    · simpa [eq_comm] using same
    · exact absurd (within.trans (List.suffix_append a w).isInfix) hb
  · rcases arrow_apart same with rfl | within
    · simpa [eq_comm] using same
    · exact absurd (within.trans (List.suffix_append b w).isInfix) ha

theorem relationAlias_cons_toList {x : String} {rest : List String} (more : rest ≠ []) :
    (relationAlias (x :: rest)).toList =
      x.toList ++ '-' :: '>' :: (relationAlias rest).toList := by
  rw [relationAlias, chain_cons more]
  simp [relationAlias]

theorem relationAlias_inj {xs ys : List String} (hx : ∀ x ∈ xs, IsSegment x)
    (hy : ∀ y ∈ ys, IsSegment y) (nx : xs ≠ []) (ny : ys ≠ [])
    (h : relationAlias xs = relationAlias ys) : xs = ys := by
  have single {x y : String} {rest : List String} (segment : IsSegment x) (more : rest ≠ [])
      (same : relationAlias [x] = relationAlias (y :: rest)) : False := by
    have texts := congrArg String.toList same
    rw [relationAlias_cons_toList more] at texts
    refine segment ⟨y.toList, (relationAlias rest).toList, ?_⟩
    simpa [relationAlias, chain] using texts.symm
  induction xs generalizing ys with
  | nil => contradiction
  | cons x rest ih =>
    obtain ⟨first, others⟩ := List.forall_mem_cons.mp hx
    cases ys with
    | nil => contradiction
    | cons y rest' =>
      obtain ⟨first', others'⟩ := List.forall_mem_cons.mp hy
      by_cases last : rest = [] <;> by_cases last' : rest' = []
      · subst last last'
        exact congrArg (fun z => [z]) h
      · subst last
        exact (single first last' h).elim
      · subst last'
        exact (single first' last h.symm).elim
      · have texts := congrArg String.toList h
        rw [relationAlias_cons_toList last, relationAlias_cons_toList last'] at texts
        obtain ⟨heads, tails⟩ := arrow_split first first' texts
        rw [String.toList_inj.mp heads, ih others others' last last' (String.toList_inj.mp tails)]

namespace JoinNode

def junction? (j : JoinNode) : Option Junction :=
  if j.association.kind = .belongsToMany then j.association.through else none

def aliases (j : JoinNode) : List String :=
  (j.junction?.map j.junctionAlias).toList ++ [j.path]

theorem sqlJoins_aliases {c : Catalog} {j : JoinNode} {target : Entity} {joins : List Sql.Join}
    (h : j.sqlJoins c target = .ok joins) : joins.map (·.table.alias) = j.aliases := by
  simp only [sqlJoins, bind_eq_ok] at h
  obtain ⟨owner, -, h⟩ := h
  unfold aliases junction?
  split at h
  · rename_i kind through
    cases h
    simp [kind, through, Junction.tableRef, Entity.tableRef, Sql.TableRef.alias]
  · cases h
  · rename_i many _
    cases h
    have none : (if j.association.kind = .belongsToMany then j.association.through else none) =
        none := by
      by_cases kind : j.association.kind = .belongsToMany
      · cases through : j.association.through with
        | none => simp
        | some t => exact (many t kind through).elim
      · simp [kind]
    simp [none, Entity.tableRef, Sql.TableRef.alias]

end JoinNode

theorem parts_aliases {c : Catalog} {joins : List JoinNode}
    {parts : List (List Sql.SelectItem × List Sql.Join)}
    (h : joins.mapM (JoinNode.parts c) = .ok parts) :
    (parts.flatMap (·.2)).map (·.table.alias) = joins.flatMap JoinNode.aliases := by
  rw [List.map_flatMap]
  refine flatMap_of_mapM ?_ h
  intro j part here
  simp only [JoinNode.parts, bind_eq_ok, pure_eq_ok] at here
  obtain ⟨target, -, joins, made, rfl⟩ := here
  exact JoinNode.sqlJoins_aliases made

theorem query_aliases {c : Catalog} {d : Dialect} {p : Plan} {q : Sql.Query}
    (h : p.query c d = .ok q) : q.aliases = p.entity :: p.allJoins.flatMap JoinNode.aliases := by
  simp only [Plan.query, bind_eq_ok, pure_eq_ok] at h
  obtain ⟨root, found, parts, joined, -, -, -, -, rfl⟩ := h
  have name : root.name = p.entity :=
    Catalog.name_of_entity? (Catalog.requireEntity_eq_ok.mp found)
  rw [← parts_aliases joined, ← name]
  simp [Sql.Query.aliases, Entity.tableRef, Sql.TableRef.alias, Function.comp_def]

def junctionChain? (p : List String × JoinNode) : Option (List String) :=
  p.2.junction?.map fun t => p.1 ++ [t.table]

/-- The chains that the aliases of a join are made of. -/
def aliasChains (p : List String × JoinNode) : List (List String) :=
  (junctionChain? p).toList ++ [p.1]

section

variable {c : Catalog} {options : JoinOptions} {root : String} {rs : List Registration}
  {forest : JoinForest}

open JoinForest

theorem aliases_eq_chains (tree : Mirrors c options (.ofRoot root) rs forest) {chain : List String}
    {j : JoinNode} (found : find? chain forest = some j) :
    j.aliases = (aliasChains (chain, j)).map relationAlias := by
  have more := ne_nil_of_find? found
  have path := tree.path_of_root found
  have junction (t : Junction) : j.junctionAlias t = relationAlias (chain ++ [t.table]) := by
    rw [JoinNode.junctionAlias, path, relationAlias, relationAlias, chain_concat more]
  unfold JoinNode.aliases aliasChains junctionChain?
  cases j.junction? with
  | none => simp [path]
  | some t => simp [path, junction]

theorem flatten_aliases (tree : Mirrors c options (.ofRoot root) rs forest) :
    (flattenForest forest).flatMap JoinNode.aliases =
      ((forestChained forest).flatMap aliasChains).map relationAlias := by
  rw [← forestChained_joins, List.flatMap_map, List.map_flatMap]
  refine List.flatMap_congr fun p hp => ?_
  exact aliases_eq_chains tree (tree.mem_chained.mp hp)

theorem mem_chains (tree : Mirrors c options (.ofRoot root) rs forest) {chain : List String} :
    chain ∈ (forestChained forest).map (·.1) ↔ (find? chain forest).isSome = true := by
  rw [List.mem_map, Option.isSome_iff_exists]
  constructor
  · rintro ⟨⟨chain, j⟩, hp, rfl⟩
    exact ⟨j, tree.mem_chained.mp hp⟩
  · rintro ⟨j, found⟩
    exact ⟨(chain, j), tree.mem_chained.mpr found, rfl⟩

theorem root_mem_aliasChains (tree : Mirrors c options (.ofRoot root) rs forest) :
    [root] ∈ (forestChained forest).flatMap aliasChains ↔ root ∈ forest.map (·.name) := by
  have top : (find? [root] forest).isSome = true ↔ root ∈ forest.map (·.name) := by
    rw [tree.names, ← tree.find?_isSome]
    rfl
  rw [← top, ← mem_chains tree, List.mem_flatMap, List.mem_map]
  refine exists_congr fun p => and_congr_right fun hp => ?_
  obtain ⟨chain, j⟩ := p
  have more := ne_nil_of_find? (tree.mem_chained.mp hp)
  unfold aliasChains junctionChain?
  cases j.junction? with
  | none => simp [eq_comm]
  | some t =>
    have longer : [root] ≠ chain ++ [t.table] := by
      intro same
      have length := congrArg List.length same
      exact more (List.length_eq_zero_iff.mp (by simpa using length))
    simp [longer, eq_comm]

/-- The chain of a junction table is that of a join when a join of that name follows. -/
theorem find?_junction {chain : List String} {j : JoinNode} (found : find? chain forest = some j)
    (table : String) :
    (find? (chain ++ [table]) forest).isSome = true ↔ table ∈ j.nested.map (·.name) := by
  rw [find?_concat, children_of_find? found, List.find?_isSome]
  simp

theorem junctionChains_nodup (tree : Mirrors c options (.ofRoot root) rs forest) :
    ((forestChained forest).filterMap junctionChain?).Nodup := by
  have distinct := forestChained_nodup forest tree.each tree.nodup
  refine List.pairwise_filterMap.mpr ((List.pairwise_map.mp distinct).imp ?_)
  intro p p' apart chain first chain' second same
  obtain ⟨t, -, rfl⟩ := Option.map_eq_some_iff.mp first
  obtain ⟨t', -, rfl⟩ := Option.map_eq_some_iff.mp second
  exact apart (List.append_inj_left' same rfl)

theorem aliasChains_nodup_iff (tree : Mirrors c options (.ofRoot root) rs forest) :
    ([root] :: (forestChained forest).flatMap aliasChains).Nodup ↔
      root ∉ forest.map (·.name) ∧
        ∀ j ∈ flattenForest forest, ∀ t, j.junction? = some t →
          t.table ∉ j.nested.map (·.name) := by
  have distinct := forestChained_nodup forest tree.each tree.nodup
  have perm : List.Perm
      ((forestChained forest).filterMap junctionChain? ++ (forestChained forest).map (·.1))
      ((forestChained forest).flatMap aliasChains) := by
    rw [List.filterMap_eq_flatMap_toList, List.map_eq_flatMap]
    exact List.flatMap_append_perm _ _ _
  rw [List.nodup_cons, root_mem_aliasChains tree, ← perm.nodup_iff, List.nodup_append']
  refine and_congr_right fun _ => ?_
  constructor
  · rintro ⟨-, -, apart⟩ j hj t given follows
    obtain ⟨chain, found⟩ := tree.exists_chain hj
    refine apart (List.mem_filterMap.mpr ⟨_, tree.mem_chained.mpr found, ?_⟩)
      ((mem_chains tree).mpr ((find?_junction found t.table).mpr follows))
    simp [junctionChain?, given]
  · intro apart
    refine ⟨junctionChains_nodup tree, distinct, ?_⟩
    intro chain first second
    obtain ⟨⟨above, j⟩, hp, made⟩ := List.mem_filterMap.mp first
    obtain ⟨t, given, rfl⟩ := Option.map_eq_some_iff.mp made
    have found := tree.mem_chained.mp hp
    exact apart j (mem_flatten_of_find? found) t given
      ((find?_junction found t.table).mp ((mem_chains tree).mp second))

end

/-- No name that goes into an alias of the plan holds the separator. -/
def Plan.Segmented (p : Plan) : Prop :=
  IsSegment p.entity ∧
    ∀ j ∈ p.allJoins, IsSegment j.name ∧ ∀ t ∈ j.junction?, IsSegment t.table

instance (p : Plan) : Decidable p.Segmented :=
  inferInstanceAs (Decidable (¬ _ ∧ ∀ j ∈ _, ¬ _ ∧ ∀ t ∈ _, ¬ _))

/-- Where no name holds the separator, every join is found by its path, and two relations of the
statement go by one name only if a first join is named like the root, or a join like the junction
table of the join above it. -/
theorem aliases_nodup_iff {c : Catalog} {policy : FragmentPolicy} {r : Request} {p : Plan}
    (compiled : Plan.ofRequest c policy r = .ok p) (segmented : p.Segmented) {d : Dialect}
    {q : Sql.Query} (rendered : p.query c d = .ok q) :
    (∀ j ∈ p.allJoins, p.join? j.path = some j) ∧
      (q.aliases.Nodup ↔ p.entity ∉ p.joins.map (·.name) ∧
        ∀ j ∈ p.allJoins, ∀ t ∈ j.junction?, t.table ∉ j.nested.map (·.name)) := by
  obtain ⟨rs, tree⟩ := plan_joins_mirror compiled
  obtain ⟨root, joins⟩ := segmented
  have segments {chain : List String} {j : JoinNode} (hp : (chain, j) ∈ forestChained p.joins) :
      chain ≠ [] ∧ ∀ name ∈ chain, IsSegment name := by
    have found := tree.mem_chained.mp hp
    constructor
    · rintro rfl
      cases found
    · intro name hn
      obtain ⟨k, hk, rfl⟩ := tree.names_of_find? found name hn
      exact (joins k hk).1
  have distinct := forestChained_nodup p.joins tree.each tree.nodup
  constructor
  · have paths : (p.allJoins.map (·.path)).Nodup := by
      have spelled : p.allJoins.map (·.path) =
          ((forestChained p.joins).map (·.1)).map relationAlias := by
        rw [Plan.allJoins, ← forestChained_joins, List.map_map, List.map_map]
        refine List.map_congr_left fun ⟨chain, j⟩ hp => ?_
        simpa [Level.ofRoot] using tree.path_eq (tree.mem_chained.mp hp)
      rw [spelled]
      refine List.Nodup.map_on ?_ distinct
      intro chain hc chain' hc' same
      obtain ⟨⟨_, j⟩, hp, rfl⟩ := List.mem_map.mp hc
      obtain ⟨⟨_, j'⟩, hp', rfl⟩ := List.mem_map.mp hc'
      exact relationAlias_inj (segments hp).2 (segments hp').2 (segments hp).1 (segments hp').1 same
    intro j hj
    exact find?_of_nodup paths hj
  · have spelled : q.aliases =
        ([p.entity] :: (forestChained p.joins).flatMap aliasChains).map relationAlias := by
      rw [query_aliases rendered, List.map_cons, ← flatten_aliases tree]
      rfl
    have named : ∀ chain ∈ [p.entity] :: (forestChained p.joins).flatMap aliasChains,
        chain ≠ [] ∧ ∀ name ∈ chain, IsSegment name := by
      refine List.forall_mem_cons.mpr ⟨⟨by simp, by simpa using root⟩, fun chain hc => ?_⟩
      obtain ⟨⟨above, j⟩, hp, hc⟩ := List.mem_flatMap.mp hc
      obtain ⟨more, each⟩ := segments hp
      rcases List.mem_append.mp hc with hc | hc
      · obtain ⟨t, given, rfl⟩ := Option.map_eq_some_iff.mp (Option.mem_toList.mp hc)
        have table := (joins j (JoinForest.mem_flatten_of_find? (tree.mem_chained.mp hp))).2 t given
        refine ⟨by simp, fun name hn => ?_⟩
        rcases List.mem_append.mp hn with hn | hn
        · exact each name hn
        · exact List.mem_singleton.mp hn ▸ table
      · cases List.mem_singleton.mp hc
        exact ⟨more, each⟩
    rw [spelled]
    refine Iff.trans ?_ (aliasChains_nodup_iff tree)
    constructor
    · exact List.Nodup.of_map _
    · intro nodup
      refine nodup.map_on fun chain hc chain' hc' same => ?_
      exact relationAlias_inj (named chain hc).2 (named chain' hc').2 (named chain hc).1
        (named chain' hc').1 same

def castRequest : Request :=
  { Request.ofModel "film" with select := some ["title", "actors.last", "language.name"] }

theorem film_aliases_nodup :
    ∃ p q, Plan.ofRequest filmCatalog .allow castRequest = .ok p ∧
      p.query filmCatalog .postgres = .ok q ∧ q.aliases.Nodup ∧
      ∀ j ∈ p.allJoins, p.join? j.path = some j := by
  have checks : (Plan.ofRequest filmCatalog .allow castRequest).toOption.any (fun p =>
      decide (p.Segmented ∧ p.entity ∉ p.joins.map (·.name) ∧
        ∀ j ∈ p.allJoins, ∀ t ∈ j.junction?, t.table ∉ j.nested.map (·.name)) &&
      (p.query filmCatalog .postgres).toOption.any fun _ => true) = true := by
    decide +kernel
  obtain ⟨p, compiled, checks⟩ := exists_ok_of_any checks
  obtain ⟨apart, renders⟩ := Bool.and_eq_true_iff.mp checks
  obtain ⟨segmented, apart⟩ := of_decide_eq_true apart
  obtain ⟨q, rendered, -⟩ := exists_ok_of_any renders
  obtain ⟨found, nodup⟩ := aliases_nodup_iff compiled segmented rendered
  exact ⟨p, q, compiled, rendered, nodup.mpr apart, found⟩

/-- An association whose name is the path of another one's target. -/
def arrowDeclarations : List Declaration :=
  let plain (name : String) (fields : List String) : Declaration :=
    .entity ⟨name, name, none, "id", fields.map Field.plain⟩
  let owns (source name target : String) : Declaration :=
    .association source ⟨name, source, target, .belongsTo, "id", "id", none⟩
  [plain "r" ["id"], plain "x" ["id"], plain "y" ["id", "f"], plain "z" ["id", "g"],
    owns "r" "a" "x", owns "x" "b" "y", owns "r" "a->b" "z"]

def arrowRequest : Request :=
  { Request.ofModel "r" with select := some ["a.b.f", "a->b.g"] }

/-- Without that condition names clash: two joins go by `a->b`, and its columns are looked up in the
first of them. -/
theorem arrow_aliases_clash :
    ∃ c p q, Catalog.build arrowDeclarations = .ok c ∧
      Plan.ofRequest c .reject arrowRequest = .ok p ∧ p.query c .postgres = .ok q ∧
      ¬ q.aliases.Nodup ∧
      ∃ j ∈ p.allJoins, (p.join? j.path).map (·.target) ≠ some j.target := by
  have checks : (Catalog.build arrowDeclarations).toOption.any (fun c =>
      (Plan.ofRequest c .reject arrowRequest).toOption.any fun p =>
        (p.query c .postgres).toOption.any fun q =>
          decide (¬ q.aliases.Nodup ∧
            ∃ j ∈ p.allJoins, (p.join? j.path).map (·.target) ≠ some j.target)) = true := by
    decide +kernel
  obtain ⟨c, built, checks⟩ := exists_ok_of_any checks
  obtain ⟨p, compiled, checks⟩ := exists_ok_of_any checks
  obtain ⟨q, rendered, checks⟩ := exists_ok_of_any checks
  exact ⟨c, p, q, built, compiled, rendered, of_decide_eq_true checks⟩

end ReadPlan
