import ReadPlan.Sql.Page

namespace ReadPlan.Sql

inductive Literal
  | int (n : Int)
  | float (x : Binary64)
  | string (s : String)
  | bool (b : Bool)
  | null
  deriving DecidableEq

inductive BinaryOp
  | eq | ne | lt | gt | lte | gte
  | and | or
  | like | notLike | iLike | notILike
  | regex (negated caseInsensitive : Bool)
  | overlap | contains | containedBy
  deriving DecidableEq

inductive Quantifier
  | any | all
  deriving DecidableEq

structure TableRef where
  schema : Option String
  table : String
  name : Option String
  deriving DecidableEq

inductive JoinKind
  | inner | left
  deriving DecidableEq

mutual

inductive Expr
  | column (table : Option String) (column : String)
  | literal (value : Literal)
  | array (items : List Expr)
  | binary (left : Expr) (op : BinaryOp) (right : Expr)
  | not (expr : Expr)
  | call (function : String) (args : List Expr) (distinct : Bool)
  | inList (expr : Expr) (values : List Expr) (negated : Bool)
  | between (expr low high : Expr) (negated : Bool)
  | isNull (expr : Expr) (negated : Bool)
  | is (expr value : Expr) (negated : Bool)
  | quantified (expr : Expr) (op : BinaryOp) (quantifier : Quantifier) (array : Expr)
  | exists (query : Query)
  | star (table : Option String)
  | paren (expr : Expr)
  | raw (sql : String)

structure SelectItem where
  expr : Expr
  name : Option String

structure Join where
  kind : JoinKind
  table : TableRef
  on : Expr

structure OrderItem where
  expr : Expr
  direction : Direction

structure Query where
  select : List SelectItem
  source : Option TableRef
  joins : List Join
  filter : Option Expr
  groupBy : List Expr
  having : Option Expr
  orderBy : List OrderItem
  page : Page

end

def Expr.ofColumn (table column : String) : Expr :=
  .column (some table) column

def Expr.equals (left right : Expr) : Expr :=
  .binary left .eq right

def Expr.isJunction : Expr → Bool
  | .binary _ .and _ | .binary _ .or _ => true
  | _ => false

/-- Parentheses around a conjunction or a disjunction; other expressions need none beside one. -/
def Expr.grouped (e : Expr) : Expr :=
  if e.isJunction then .paren e else e

def joinWith (op : BinaryOp) : List Expr → Option Expr
  | [] => none
  | [e] => some e
  | e :: rest => some (rest.foldl (fun left right => .binary left op right.grouped) e.grouped)

def conjunction (es : List Expr) : Option Expr :=
  joinWith .and es

def disjunction (es : List Expr) : Option Expr :=
  joinWith .or es

namespace Query

def empty : Query :=
  ⟨[], none, [], none, [], none, [], .whole⟩

def addFilter (q : Query) (condition : Expr) : Query :=
  { q with filter := some (match q.filter with
      | some e => .binary e .and condition
      | none => condition) }

def addJoin (q : Query) (join : Join) : Query :=
  { q with joins := q.joins ++ [join] }

end Query

end ReadPlan.Sql
