import ReadPlan.Catalog.Basic
import ReadPlan.Reference

namespace ReadPlan

structure JoinNode where
  name : String
  path : String
  parent : String
  target : String
  association : Association
  required : Bool
  projected : List String
  nested : List JoinNode

abbrev JoinForest := List JoinNode

mutual

def JoinNode.flatten : JoinNode → List JoinNode
  | ⟨name, path, parent, target, association, required, projected, nested⟩ =>
    ⟨name, path, parent, target, association, required, projected, nested⟩ ::
      flattenForest nested

def flattenForest : List JoinNode → List JoinNode
  | [] => []
  | j :: rest => j.flatten ++ flattenForest rest

end

namespace JoinForest

def find? : List String → JoinForest → Option JoinNode
  | [], _ => none
  | [name], forest => List.find? (fun j : JoinNode => j.name == name) forest
  | name :: rest, forest =>
    match List.find? (fun j : JoinNode => j.name == name) forest with
    | some j => find? rest j.nested
    | none => none

def updateSibling (name : String) (f : JoinNode → JoinNode) : JoinForest → JoinForest
  | [] => []
  | j :: rest => if j.name == name then f j :: rest else j :: updateSibling name f rest

def update (f : JoinNode → JoinNode) : List String → JoinForest → JoinForest
  | [], forest => forest
  | [name], forest => updateSibling name f forest
  | name :: rest, forest =>
    updateSibling name (fun j => { j with nested := update f rest j.nested }) forest

end JoinForest

end ReadPlan
