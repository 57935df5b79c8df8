import ReadPlan.Plan.Basic

namespace ReadPlan

def Junction.toJson (j : Junction) : Json :=
  .obj <|
    [("table", .str j.table)] ++ Json.optionalMember "schema" Json.str j.schema ++
      [("source_fk", .str j.sourceKey), ("target_fk", .str j.targetKey)]

def Association.toJson (a : Association) : Json :=
  .obj <|
    [("alias", .str a.name), ("source", .str a.source), ("target", .str a.target),
      ("kind", .str a.kind.name), ("source_key", .str a.sourceKey),
      ("target_key", .str a.targetKey)] ++
      Json.optionalMember "through" Junction.toJson a.through

def ColumnRef.toJson (c : ColumnRef) : Json :=
  .obj [("table", .str c.table), ("column", .str c.column)]

def FieldRef.toJson (f : FieldRef) : Json :=
  .obj [("name", .str f.name), ("column", f.column.toJson)]

def Aggregate.toJson (a : Aggregate) : Json :=
  .obj [("function", .str a.function), ("field", a.field.toJson), ("alias", .str a.name)]

def Target.toJson : Target → Json
  | field f => .obj [("field", f.toJson)]
  | aggregate a => .obj [("aggregate", a.toJson)]

def Operand.toJson : Operand → Json
  | value v => .obj [("value", v)]
  | list items => .obj [("list", .arr items)]
  | range low high => .obj [("range", .arr [low, high])]
  | column f => .obj [("column", f.toJson)]

def Comparison.members (c : Comparison) : Json.Members :=
  [("target", c.target.toJson), ("operator", .str c.operator.token),
    ("operand", c.operand.toJson)]

def FragmentScope.toJson : FragmentScope → Json
  | field f => .obj [("field", f.toJson)]
  | .exists source a =>
    .obj [("exists", .obj [("source", .str source), ("association", a.toJson)])]

namespace Predicate

mutual

def toJson : Predicate → Json
  | .comparison c => .obj (("kind", .str "comparison") :: c.members)
  | .logical op children =>
    .obj [("kind", .str "logical"), ("op", .str op.token), ("children", .arr (toJsons children))]
  | .qualified relation c =>
    .obj [("kind", .str "association_qualified"), ("alias", .str relation),
      ("comparison", .obj c.members)]
  | .fragment sql scope =>
    .obj [("kind", .str "raw_subquery"), ("sql", .str sql), ("scope", scope.toJson)]
  | .globalPattern pattern => .obj [("kind", .str "global_pattern"), ("pattern", .str pattern)]

def toJsons : List Predicate → List Json
  | [] => []
  | p :: rest => p.toJson :: toJsons rest

end

end Predicate

namespace JoinNode

mutual

def toJson : JoinNode → Json
  | ⟨name, path, parent, target, association, required, projected, nested⟩ =>
    .obj [("alias", .str name), ("path", .str path), ("parent", .str parent),
      ("target_entity", .str target), ("association", association.toJson),
      ("required", .bool required), ("projected_fields", Json.ofStrings projected),
      ("nested", .arr (toJsons nested))]

def toJsons : List JoinNode → List Json
  | [] => []
  | j :: rest => j.toJson :: toJsons rest

end

end JoinNode

def JoinForest.toJson (forest : JoinForest) : Json :=
  .arr (JoinNode.toJsons forest)

def SortTarget.toJson : SortTarget → Json
  | field f => .obj [("field", f.toJson)]
  | aggregate name => .obj [("aggregate", .str name)]

def SortOrder.toJson (s : SortOrder) : Json :=
  .obj [("target", s.target.toJson), ("direction", .str s.direction.name)]

def Plan.toJson (p : Plan) : Json :=
  .obj [
    ("entity", .str p.entity),
    ("projection", .obj [("fields", Json.ofStrings p.projection.fields),
      ("wildcard", .bool p.projection.wildcard)]),
    ("predicate", Json.ofOption Predicate.toJson p.predicate),
    ("joins", p.joins.toJson),
    ("group_by", .arr (p.groupBy.map ColumnRef.toJson)),
    ("having", Json.ofOption Predicate.toJson p.having),
    ("aggregates", .arr (p.aggregates.map Aggregate.toJson)),
    ("sort", Json.ofOption SortOrder.toJson p.sort),
    ("pagination", Json.ofOption Page.toJson p.page)]

end ReadPlan
