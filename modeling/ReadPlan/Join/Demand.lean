import ReadPlan.Join.Node
import ReadPlan.Request.Basic

/-!
What the parts of a request demand of the joins. Every part that follows associations demands a join
for each step, once per name and parent; the forest is what the demands leave, one after the other.
-/

namespace ReadPlan

/-- The associations followed from the root, and the fields of the last target to return. -/
structure Demand where
  steps : List Association
  fields : List String
  deriving DecidableEq

def addField (fields : List String) (field : String) : List String :=
  if fields.contains field then fields else fields ++ [field]

def JoinNode.project (fields : List String) (j : JoinNode) : JoinNode :=
  { j with projected := fields.foldl addField j.projected }

namespace JoinForest

/-- A join that was not there; `trail` holds the names up to its own. -/
def sprout (options : JoinOptions) (parent : String) (trail : List String) (a : Association) :
    JoinNode where
  name := a.name
  path := relationAlias trail
  parent := parent
  target := a.target
  association := a
  required := (JoinStrength.lookup options (dottedPath trail) a.name).isRequired
  projected := []
  nested := []

/-- Follows the steps and adds the joins that are missing at the end of their siblings. A join that
is there stays as it was. -/
def graft (options : JoinOptions) :
    (parent : String) → (trail : List String) → List Association → JoinForest → JoinForest
  | _, _, [], forest => forest
  | parent, trail, a :: rest, forest =>
    let here := trail ++ [a.name]
    let grow (j : JoinNode) : JoinNode :=
      { j with nested := graft options j.path here rest j.nested }
    if forest.any (·.name == a.name) then updateSibling a.name grow forest
    else forest ++ [grow (sprout options parent here a)]

def meet (options : JoinOptions) (root : String) (forest : JoinForest) (d : Demand) : JoinForest :=
  update (JoinNode.project d.fields) (d.steps.map (·.name)) (graft options root [] d.steps forest)

def ofDemands (options : JoinOptions) (root : String) (demands : List Demand) : JoinForest :=
  demands.foldl (meet options root) []

end JoinForest

end ReadPlan
