import ReadPlan.Json.Basic
import ReadPlan.Operator
import ReadPlan.Page
import ReadPlan.Join.Node

/-!
Read plans: everything a statement needs, with every field bound to a column of a named relation.
The root relation is named by its entity and a joined one by the associations that lead to it.
-/

namespace ReadPlan

structure ColumnRef where
  table : String
  column : String
  deriving DecidableEq

/-- A field as the request wrote it, and its column. -/
structure FieldRef where
  name : String
  column : ColumnRef
  deriving DecidableEq

structure Aggregate where
  function : String
  field : FieldRef
  name : String
  deriving DecidableEq

inductive Target
  | field (field : FieldRef)
  | aggregate (aggregate : Aggregate)
  deriving DecidableEq

inductive Operand
  | value (v : Json)
  | list (items : List Json)
  | range (low high : Json)
  | column (field : FieldRef)

structure Comparison where
  target : Target
  operator : Operator
  operand : Operand

inductive FragmentScope
  | field (field : FieldRef)
  /-- The fragment is a condition on a partner under the association; `source` is the relation that
  owns it. -/
  | exists (source : String) (association : Association)
  deriving DecidableEq

inductive Predicate
  | comparison (c : Comparison)
  | logical (op : Combinator) (children : List Predicate)
  | qualified (relation : String) (c : Comparison)
  | fragment (sql : String) (scope : FragmentScope)
  /-- A global search term, which no column is bound to. -/
  | globalPattern (pattern : String)

namespace Predicate

def all : List Predicate → Option Predicate
  | [] => none
  | [p] => some p
  | ps => some (.logical .and ps)

/-- The predicates under a combinator; nothing stays nothing, and one needs no `and` or `or`. -/
def combine (op : Combinator) (ps : List Predicate) : Option Predicate :=
  match op, ps with
  | .and, ps => all ps
  | .or, [] => none
  | .or, [p] => some p
  | .or, ps => some (.logical .or ps)
  | .not, ps => (all ps).map fun p => .logical .not [p]

mutual

def comparisons : Predicate → List Comparison
  | .comparison c | .qualified _ c => [c]
  | .logical _ children => comparisonsOfAll children
  | .fragment .. | .globalPattern _ => []

def comparisonsOfAll : List Predicate → List Comparison
  | [] => []
  | p :: rest => p.comparisons ++ comparisonsOfAll rest

end

end Predicate

structure Projection where
  fields : List String
  /-- Nothing was selected, so every field is returned. -/
  wildcard : Bool
  deriving DecidableEq

inductive SortTarget
  | field (field : FieldRef)
  | aggregate (name : String)
  deriving DecidableEq

structure SortOrder where
  target : SortTarget
  direction : Direction
  deriving DecidableEq

structure Plan where
  entity : String
  projection : Projection
  predicate : Option Predicate
  joins : JoinForest
  groupBy : List ColumnRef
  having : Option Predicate
  aggregates : List Aggregate
  sort : Option SortOrder
  page : Option Page

namespace Plan

def withoutPage (p : Plan) : Plan :=
  { p with page := none }

def allJoins (p : Plan) : List JoinNode :=
  flattenForest p.joins

def join? (p : Plan) (path : String) : Option JoinNode :=
  p.allJoins.find? (·.path == path)

end Plan

end ReadPlan
