import ReadPlan.Page
import ReadPlan.Json.Basic

namespace ReadPlan

structure Sorting where
  field : String
  direction : Direction
  deriving DecidableEq

inductive JoinStrength
  | inner | left
  deriving DecidableEq

/-- Strengths by dotted association path or by the bare name of an association, in the order of
these keys. -/
abbrev JoinOptions := List (String × JoinStrength)

namespace JoinStrength

def name : JoinStrength → String
  | inner => "INNER"
  | left => "LEFT"

def isRequired : JoinStrength → Bool
  | inner => true
  | left => false

/-- The entry for the path decides, then the one for the name; without either the join is left. -/
def lookup (options : JoinOptions) (path name : String) : JoinStrength :=
  ((Keyed.get? path options).or (Keyed.get? name options)).getD left

end JoinStrength

structure Request where
  modelName : String
  filters : Json
  select : Option (List String)
  page : Page
  sorting : Option Sorting
  groupBy : List String
  aggregates : Option Json.Members
  having : Option Json
  joinOptions : JoinOptions
  globalSearch : Bool

def Request.ofModel (name : String) : Request where
  modelName := name
  filters := .obj []
  select := none
  page := .whole
  sorting := none
  groupBy := []
  aggregates := none
  having := none
  joinOptions := []
  globalSearch := false

end ReadPlan
