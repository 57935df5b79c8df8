import ReadPlan.Error
import ReadPlan.Catalog.Basic
import ReadPlan.Plan.Document

namespace ReadPlan

inductive TreeMarker
  | depthLimit | cycle
  deriving DecidableEq

def TreeMarker.text : TreeMarker → String
  | depthLimit => "Depth limit reached"
  | cycle => "Cycle detected"

inductive SchemaTree
  | marker (name : String) (marker : TreeMarker)
  | node (name : String) (fields : List String) (branches : List (Association × SchemaTree))

namespace SchemaTree

/-- `trail` holds the entities from the root to the parent. -/
def grow (c : Catalog) (trail : List String) (entity : String) : Nat → SchemaTree
  | 0 => .marker entity .depthLimit
  | depth + 1 =>
    match c.entity? entity with
    | none => .marker entity .depthLimit
    | some e =>
      .node e.name e.fieldNames <| (c.associationsOf entity).map fun a =>
        (a, if (trail ++ [entity]).contains a.target then .marker a.target .cycle
          else grow c (trail ++ [entity]) a.target depth)

def marker? : SchemaTree → Option TreeMarker
  | .marker _ m => some m
  | .node .. => none

def branches : SchemaTree → List (Association × SchemaTree)
  | .marker .. => []
  | .node _ _ bs => bs

def branchMembers (a : Association) : Json.Members :=
  [("alias", .str a.name), ("kind", .str a.kind.name), ("sourceKey", .str a.sourceKey),
    ("targetKey", .str a.targetKey)] ++ Json.optionalMember "through" Junction.toJson a.through

mutual

/-- A marker stands in the place of the associations, and there are no fields beside it. -/
def members : SchemaTree → Json.Members
  | .marker name m => [("name", .str name), ("associations", .str m.text)]
  | .node name fields branches =>
    [("name", .str name), ("fields", Json.ofStrings fields),
      ("associations", .arr (branchJsons branches))]

def branchJsons : List (Association × SchemaTree) → List Json
  | [] => []
  | (a, t) :: rest => .obj (branchMembers a ++ t.members) :: branchJsons rest

end

def toJson (t : SchemaTree) : Json :=
  .obj t.members

end SchemaTree

namespace Catalog

def tree (c : Catalog) (entity : String) (depth : Nat) : Except QueryError SchemaTree :=
  if c.contains entity then .ok (SchemaTree.grow c [] entity depth)
  else .error (.entityNotFound entity)

def forest (c : Catalog) (depth : Nat) : List SchemaTree :=
  c.entities.map fun e => SchemaTree.grow c [] e.name depth

end Catalog

end ReadPlan
