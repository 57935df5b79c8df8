import ReadPlan.Proofs.BoundColumns
import ReadPlan.Proofs.RelationAliases

/-!
Which columns of an output share a name. A root field goes by its own name, a joined field by the
path to it, and an aggregate by its function and its field. Names of different kinds, and those of
two aggregates, may be the same text.
-/

namespace ReadPlan

namespace Sql

def SelectItem.outputName? : SelectItem → Option String
  | ⟨_, some name⟩ => some name
  | ⟨.column _ column, none⟩ => some column
  | ⟨_, none⟩ => none

end Sql

def Aggregate.outputName (a : Aggregate) : String :=
  aliasOf a.function a.field.name

namespace Plan

def joinedNames (p : Plan) : List String :=
  p.allJoins.flatMap fun j => j.projected.map j.outputName

def outputNames (p : Plan) : List String :=
  p.projection.fields ++ p.joinedNames ++ p.aggregates.map (·.outputName)

/-- No two names of an output are the same text. -/
structure NamesApart (p : Plan) : Prop where
  joined : p.joinedNames.Nodup
  fields : ∀ field ∈ p.projection.fields, field ∉ p.joinedNames
  aggregates : ∀ a ∈ p.aggregates,
    a.outputName ∉ p.projection.fields ∧ a.outputName ∉ p.joinedNames
  /-- No function goes on with an underscore where another one ends, on a field that makes up for
  the difference. -/
  functions : ∀ a ∈ p.aggregates, ∀ b ∈ p.aggregates, ∀ middle,
    b.function = a.function ++ "_" ++ middle → a.field.name ≠ middle ++ "_" ++ b.field.name

end Plan

/-- Neither the separator of aliases nor a dot stands in the names that the output names of a join
are made of. -/
structure JoinNode.PlainNames (j : JoinNode) : Prop where
  segment : IsSegment j.name
  undotted : isDotted j.name = false
  fields : ∀ field ∈ j.projected, isDotted field = false

/-! What a query selects. -/

section

variable {c : Catalog} {d : Dialect} {p : Plan} {q : Sql.Query}

theorem rootItem_outputName (root : Entity) (field : String) :
    (Plan.rootItem root field).outputName? = some field := by
  unfold Plan.rootItem
  by_cases same : root.columnOf field = field
  · simp [same, Sql.SelectItem.outputName?, Sql.Expr.ofColumn]
  · simp [same, Sql.SelectItem.outputName?]

theorem parts_outputNames {joins : List JoinNode}
    {parts : List (List Sql.SelectItem × List Sql.Join)}
    (h : joins.mapM (JoinNode.parts c) = .ok parts) :
    (parts.flatMap (·.1)).map (·.outputName?) =
      (joins.flatMap fun j => j.projected.map j.outputName).map some := by
  rw [List.map_flatMap, List.map_flatMap]
  refine flatMap_of_mapM ?_ h
  intro j part here
  simp only [JoinNode.parts, bind_eq_ok, pure_eq_ok] at here
  obtain ⟨target, -, joins, -, rfl⟩ := here
  rw [JoinNode.selectItems, List.map_map, List.map_map]
  rfl

theorem query_outputNames (named : ∀ a ∈ p.aggregates, a.name = a.outputName)
    (h : p.query c d = .ok q) : q.select.map (·.outputName?) = p.outputNames.map some := by
  simp only [Plan.query, bind_eq_ok, pure_eq_ok] at h
  obtain ⟨root, -, parts, joined, -, -, -, -, rfl⟩ := h
  have fields : (p.projection.fields.map (Plan.rootItem root)).map (·.outputName?) =
      p.projection.fields.map some := by
    rw [List.map_map]
    exact List.map_congr_left fun field _ => rootItem_outputName root field
  have aggregates : (p.aggregates.map Plan.aggregateItem).map (·.outputName?) =
      (p.aggregates.map (·.outputName)).map some := by
    rw [List.map_map, List.map_map]
    exact List.map_congr_left fun a ha => congrArg some (named a ha)
  simp only [List.map_append, fields, parts_outputNames joined, aggregates, Plan.outputNames]
  rfl

end

/-! Joined fields. -/

namespace JoinNode

theorem dotted_append {cs rest : List Char} (segment : ¬ ['-', '>'] <:+: cs)
    (apart : rest.head? ≠ some '>') : dotted (cs ++ rest) = cs ++ dotted rest := by
  induction cs with
  | nil => rfl
  | cons c cs ih =>
    have shorter : ¬ ['-', '>'] <:+: cs := by
      intro within
      exact segment (within.trans (List.suffix_cons c cs).isInfix)
    rw [List.cons_append, dotted.eq_2, ih shorter, List.cons_append]
    rintro more rfl arrow
    cases cs with
    | nil =>
      rw [List.nil_append] at arrow
      exact apart (by rw [arrow]; rfl)
    | cons _ cs =>
      cases arrow
      exact segment ⟨[], cs, rfl⟩

theorem dotted_relationAlias {chain : List String} (segments : ∀ name ∈ chain, IsSegment name) :
    dotted (relationAlias chain).toList = (dottedPath chain).toList := by
  induction chain with
  | nil => rfl
  | cons name rest ih =>
    obtain ⟨first, others⟩ := List.forall_mem_cons.mp segments
    by_cases last : rest = []
    · subst last
      have alone : dotted (name.toList ++ []) = name.toList ++ dotted [] :=
        dotted_append first (by simp)
      simpa [relationAlias, dottedPath, chain, dotted] using alone
    · rw [relationAlias_cons_toList last, dotted_append first (by simp), dotted.eq_1, ih others,
        dottedPath_cons_toList last]

theorem outputName_eq {j : JoinNode} {chain : List String} (path : j.path = relationAlias chain)
    (more : chain ≠ []) (segments : ∀ name ∈ chain, IsSegment name) (field : String) :
    j.outputName field = dottedPath (chain ++ [field]) := by
  rw [outputName, path, dotted_relationAlias segments, String.ofList_toList, dottedPath,
    dottedPath, chain_concat more]

end JoinNode

section

variable {c : Catalog} {options : JoinOptions} {root : String} {rs : List Registration}
  {forest : JoinForest}

open JoinForest

def fieldChainsOf (forest : JoinForest) : List (List String) :=
  (forestChained forest).flatMap fun p => p.2.projected.map fun field => p.1 ++ [field]

theorem fieldChainsOf_nodup (tree : Mirrors c options (.ofRoot root) rs forest) :
    (fieldChainsOf forest).Nodup := by
  have distinct := List.pairwise_map.mp (forestChained_nodup forest tree.each tree.nodup)
  refine List.nodup_flatMap.mpr ⟨?_, distinct.imp ?_⟩
  · rintro ⟨chain, j⟩ hp
    have once : j.projected.Nodup := by
      rw [tree.projected_eq (tree.mem_chained.mp hp)]
      exact Registration.returned_nodup _
    exact once.map fun _ _ same => List.singleton_injective (List.append_cancel_left same)
  · rintro ⟨chain, j⟩ ⟨chain', j'⟩ apart names first second
    obtain ⟨field, -, rfl⟩ := List.mem_map.mp first
    obtain ⟨field', -, same⟩ := List.mem_map.mp second
    exact apart (List.append_inj_left' same rfl).symm

/-- Where no name holds the separator, the output names are the names on the way joined by dots. -/
theorem outputNames_of_joins (tree : Mirrors c options (.ofRoot root) rs forest)
    (segments : ∀ j ∈ flattenForest forest, IsSegment j.name) :
    ((flattenForest forest).flatMap fun j => j.projected.map j.outputName) =
      (fieldChainsOf forest).map dottedPath := by
  rw [← forestChained_joins, List.flatMap_map, fieldChainsOf, List.map_flatMap]
  refine List.flatMap_congr ?_
  rintro ⟨chain, j⟩ hp
  have found := tree.mem_chained.mp hp
  have named : ∀ name ∈ chain, IsSegment name := by
    intro name hn
    obtain ⟨k, hk, rfl⟩ := tree.names_of_find? found name hn
    exact segments k hk
  rw [List.map_map]
  refine List.map_congr_left fun field _ => ?_
  exact JoinNode.outputName_eq (tree.path_of_root found) (ne_nil_of_find? found) named field

theorem fieldChainsOf_undotted (tree : Mirrors c options (.ofRoot root) rs forest)
    (plain : ∀ j ∈ flattenForest forest, j.PlainNames) :
    ∀ names ∈ fieldChainsOf forest, names ≠ [] ∧ ∀ name ∈ names, isDotted name = false := by
  intro names hn
  obtain ⟨⟨chain, j⟩, hp, hn⟩ := List.mem_flatMap.mp hn
  obtain ⟨field, hf, rfl⟩ := List.mem_map.mp hn
  have found := tree.mem_chained.mp hp
  refine ⟨by simp, List.forall_mem_append.mpr ⟨?_, ?_⟩⟩
  · intro name hn
    obtain ⟨k, hk, rfl⟩ := tree.names_of_find? found name hn
    exact (plain k hk).undotted
  · have returned := (plain j (mem_flatten_of_find? found)).fields field hf
    simpa using returned

theorem outputNames_of_joins_nodup (tree : Mirrors c options (.ofRoot root) rs forest)
    (plain : ∀ j ∈ flattenForest forest, j.PlainNames) :
    ((flattenForest forest).flatMap fun j => j.projected.map j.outputName).Nodup := by
  rw [outputNames_of_joins tree fun j hj => (plain j hj).segment]
  refine (fieldChainsOf_nodup tree).map_on ?_
  intro xs hx ys hy same
  obtain ⟨more, undotted⟩ := fieldChainsOf_undotted tree plain xs hx
  obtain ⟨more', undotted'⟩ := fieldChainsOf_undotted tree plain ys hy
  exact dottedPath_inj undotted undotted' more more' same

end

/-! Aggregates. -/

namespace Aggregate

theorem aliasOf_toList (function field : String) :
    (aliasOf function field).toList = function.toList ++ '_' :: field.toList := by
  simp [aliasOf]

/-- Two functions on two fields go by one name when an underscore in a longer function, or one in a
longer field, is taken for the one between them. -/
theorem aliasOf_eq_iff {f g x y : String} (differ : f ≠ g) :
    aliasOf f x = aliasOf g y ↔
      (∃ middle, g = f ++ "_" ++ middle ∧ x = middle ++ "_" ++ y) ∨
        ∃ middle, f = g ++ "_" ++ middle ∧ y = middle ++ "_" ++ x := by
  have longer {f g x y : String} {w : List Char} (differ : f ≠ g)
      (function : g.toList = f.toList ++ w) (field : '_' :: x.toList = w ++ '_' :: y.toList) :
      ∃ middle, g = f ++ "_" ++ middle ∧ x = middle ++ "_" ++ y := by
    cases w with
    | nil =>
      rw [List.append_nil, String.toList_inj] at function
      exact absurd function.symm differ
    | cons _ w =>
      obtain ⟨rfl, further⟩ := List.cons.inj field
      refine ⟨String.ofList w, ?_, ?_⟩
      · rw [← String.toList_inj, function]
        simp
      · rw [← String.toList_inj, further]
        simp
  constructor
  · intro same
    have texts := congrArg String.toList same
    rw [aliasOf_toList, aliasOf_toList] at texts
    rcases List.append_eq_append_iff.mp texts with ⟨w, function, field⟩ | ⟨w, function, field⟩
    · exact .inl (longer differ function field)
    · exact .inr (longer (Ne.symm differ) function field)
  · rintro (⟨middle, rfl, rfl⟩ | ⟨middle, rfl, rfl⟩) <;> simp [aliasOf, String.append_assoc]

theorem outputNames_nodup_iff {aggregates : List Aggregate}
    (distinct : (aggregates.map (·.function)).Nodup) :
    (aggregates.map (·.outputName)).Nodup ↔ ∀ a ∈ aggregates, ∀ b ∈ aggregates, ∀ middle,
      b.function = a.function ++ "_" ++ middle → a.field.name ≠ middle ++ "_" ++ b.field.name := by
  constructor
  · intro apart a ha b hb middle function field
    have names : a.outputName = b.outputName := by
      rw [outputName, outputName, function, field]
      simp [aliasOf, String.append_assoc]
    have same : a = b := List.inj_on_of_nodup_map apart ha hb names
    subst same
    have length := congrArg String.length function
    simp only [String.length_append] at length
    have underscore : "_".length = 1 := rfl
    omega
  · intro apart
    refine distinct.of_map.map_on ?_
    intro a ha b hb same
    by_cases function : a.function = b.function
    · exact List.inj_on_of_nodup_map distinct ha hb function
    · rcases (aliasOf_eq_iff function).mp same with ⟨middle, longer, rest⟩ | ⟨middle, longer, rest⟩
      · exact absurd rest (apart a ha b hb middle longer)
      · exact absurd rest (apart b hb a ha middle longer)

section

variable {f : Frame} {members : Json.Members} {aggregates : List Aggregate}
  (h : members.mapM (ofMember f) = .ok aggregates)

include h

theorem name_of_members : ∀ a ∈ aggregates, a.name = a.outputName := by
  intro a ha
  obtain ⟨member, -, made⟩ := source_of_mapM h a ha
  obtain ⟨-, reference, bound, -, binds, rfl⟩ := aggregate_ofMember_eq_ok.mp made
  rw [outputName, bind_name binds]

theorem functions_of_members : aggregates.map (·.function) = members.map (·.1) := by
  refine map_of_mapM ?_ h
  intro member a made
  obtain ⟨-, _, _, -, -, rfl⟩ := aggregate_ofMember_eq_ok.mp made
  rfl

end

end Aggregate

theorem projection_nodup {f : Frame} (distinct : f.root.fieldNames.Nodup)
    {select : Option (List String)} {projection : Projection}
    (h : Projection.ofSelect f select = .ok projection) : projection.fields.Nodup := by
  cases select with
  | none =>
    cases h
    exact distinct
  | some entries =>
    simp only [Projection.ofSelect, bind_eq_ok, pure_eq_ok] at h
    obtain ⟨_, -, rfl⟩ := h
    rw [rootFields_eq]
    exact eraseDups_nodup _

namespace Plan

theorem nodup_iff_namesApart {p : Plan} (fields : p.projection.fields.Nodup)
    (functions : (p.aggregates.map (·.function)).Nodup) : p.outputNames.Nodup ↔ p.NamesApart := by
  rw [outputNames, List.nodup_append', List.nodup_append',
    Aggregate.outputNames_nodup_iff functions]
  constructor
  · rintro ⟨⟨-, joined, apart⟩, functions, aggregates⟩
    constructor
    case joined => exact joined
    case fields => exact fun field hf => apart hf
    case aggregates =>
      intro a ha
      have unused : a.outputName ∉ p.projection.fields ++ p.joinedNames := by
        intro used
        exact aggregates used (List.mem_map_of_mem ha)
      rwa [List.mem_append, not_or] at unused
    case functions => exact functions
  · intro apart
    refine ⟨⟨fields, apart.joined, fun field hf => apart.fields field hf⟩, apart.functions, ?_⟩
    intro name used again
    obtain ⟨a, ha, rfl⟩ := List.mem_map.mp again
    obtain ⟨field, joined⟩ := apart.aggregates a ha
    exact (List.mem_append.mp used).elim field joined

end Plan

theorem parts_of_ofRequest {c : Catalog} {policy : FragmentPolicy} {r : Request} {p : Plan}
    (compiled : Plan.ofRequest c policy r = .ok p) : ∃ root, c.entity? r.modelName = some root ∧
      Projection.ofSelect ⟨c, root, policy⟩ r.effectiveSelect = .ok p.projection ∧
        r.aggregateMembers.mapM (Aggregate.ofMember ⟨c, root, policy⟩) = .ok p.aggregates := by
  obtain ⟨root, known, compiled⟩ := ofRequest_eq_ok.mp compiled
  simp only [Plan.ofRoot, bind_eq_ok, pure_eq_ok] at compiled
  obtain ⟨_, -, _, -, projection, selected, aggregates, made, _, -, _, -, _, -, _, -, rfl⟩ :=
    compiled
  exact ⟨root, known, selected, made⟩

/-- How far the columns of an output are told by their names, in the rows statement as in the
query that the count statement counts. -/
theorem plan_outputNames_nodup_iff {declarations : List Declaration} {c : Catalog}
    (built : Catalog.build declarations = .ok c) {policy : FragmentPolicy} {r : Request}
    (distinct : (r.aggregateMembers.map (·.1)).Nodup) {p : Plan}
    (compiled : Plan.ofRequest c policy r = .ok p) :
    (∀ d q, p.query c d = .ok q ∨ p.withoutPage.query c d = .ok q →
        q.select.map (·.outputName?) = p.outputNames.map some) ∧
      (p.outputNames.Nodup ↔ p.NamesApart) ∧
      ((∀ j ∈ p.allJoins, j.PlainNames) → p.joinedNames.Nodup) ∧
      (p.outputNames.Nodup → ∀ key a,
        Having.aggregate? p.aggregates key = some a ↔ a ∈ p.aggregates ∧ a.outputName = key) := by
  obtain ⟨root, known, selected, made⟩ := parts_of_ofRequest compiled
  have named := Aggregate.name_of_members made
  refine ⟨?_, ?_, ?_, ?_⟩
  · rintro d q (rows | all)
    · exact query_outputNames named rows
    · have same : p.withoutPage.outputNames = p.outputNames := rfl
      rw [← same]
      exact query_outputNames named all
  · have valid := Catalog.valid_of_build built
    have root_fields := valid.fields root (List.mem_of_find?_eq_some known)
    have functions : (p.aggregates.map (·.function)).Nodup := by
      rwa [Aggregate.functions_of_members made]
    exact Plan.nodup_iff_namesApart (projection_nodup root_fields selected) functions
  · obtain ⟨rs, tree⟩ := plan_joins_mirror compiled
    exact outputNames_of_joins_nodup tree
  · intro apart key a
    have names : (p.aggregates.map (·.name)).Nodup := by
      rw [List.map_congr_left named]
      exact (List.nodup_append'.mp apart).2.1
    refine (find?_eq_some_of_nodup names).trans (and_congr_right fun ha => ?_)
    rw [named a ha]

def longestRequest : Request :=
  { Request.ofModel "film" with
    select := some ["title", "language.name"]
    aggregates := some [("max", .str "length"), ("min", .str "language.name")] }

theorem longest_names_apart :
    ∃ p, Plan.ofRequest filmCatalog .reject longestRequest = .ok p ∧
      p.outputNames = ["title", "language.name", "max_length", "min_language.name"] ∧
      p.NamesApart := by
  have runs : (Plan.ofRequest filmCatalog .reject longestRequest).toOption.any (fun p =>
      p.outputNames = ["title", "language.name", "max_length", "min_language.name"]) = true := by
    decide +kernel
  obtain ⟨p, compiled, names⟩ := exists_ok_of_any runs
  have names := of_decide_eq_true names
  obtain ⟨-, apart, -, -⟩ := plan_outputNames_nodup_iff film_build (by decide) compiled
  refine ⟨p, compiled, names, apart.mp ?_⟩
  rw [names]
  decide

def deviationDeclarations : List Declaration :=
  [.entity ⟨"city", "city", none, "id", [.plain "id", .plain "pop_size", .plain "size"]⟩]

def deviationRequest : Request :=
  { Request.ofModel "city" with
    aggregates := some [("stddev", .str "pop_size"), ("stddev_pop", .str "size")]
    having := some (.obj [("stddev_pop_size", .obj [("gt", .int 1)])]) }

/-- Two columns are returned as `stddev_pop_size`, and the condition on it is one on the first. -/
theorem deviation_names_clash :
    ∃ c p q, Catalog.build deviationDeclarations = .ok c ∧
      Plan.ofRequest c .reject deviationRequest = .ok p ∧ p.query c .postgres = .ok q ∧
      q.select.map (·.outputName?) = [some "stddev_pop_size", some "stddev_pop_size"] ∧
      ∃ a ∈ p.aggregates, Having.aggregate? p.aggregates a.name ≠ some a := by
  have checks : (Catalog.build deviationDeclarations).toOption.any (fun c =>
      (Plan.ofRequest c .reject deviationRequest).toOption.any fun p =>
        (p.query c .postgres).toOption.any fun q =>
          decide (q.select.map (·.outputName?) = [some "stddev_pop_size", some "stddev_pop_size"] ∧
            ∃ a ∈ p.aggregates, Having.aggregate? p.aggregates a.name ≠ some a)) = true := by
    decide +kernel
  obtain ⟨c, built, checks⟩ := exists_ok_of_any checks
  obtain ⟨p, compiled, checks⟩ := exists_ok_of_any checks
  obtain ⟨q, rendered, checks⟩ := exists_ok_of_any checks
  exact ⟨c, p, q, built, compiled, rendered, of_decide_eq_true checks⟩

end ReadPlan
