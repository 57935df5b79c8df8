namespace ReadPlan

inductive Operator
  | eq | ne | gt | lt | gte | lte
  | like | notLike | iLike | notILike
  | startsWith | endsWith | substring
  | regexp | notRegexp | iRegexp | notIRegexp
  | between | notBetween
  | within | notIn
  | overlap | contains | contained | anyOf | allOf
  /-- The truth test: the value is not the given truth value. -/
  | isNot
  | column
  deriving DecidableEq

inductive Combinator
  | and | or | not
  deriving DecidableEq

inductive OperandShape
  | scalar | list | range | reference
  deriving DecidableEq

/-- A token without its leading double underscore, of which it may have one. -/
def bareToken (token : String) : String :=
  match token.toList with
  | '_' :: '_' :: rest => String.ofList rest
  | _ => token

namespace Operator

def every : List Operator :=
  [eq, ne, gt, lt, gte, lte, like, notLike, iLike, notILike, startsWith, endsWith, substring,
    regexp, notRegexp, iRegexp, notIRegexp, between, notBetween, within, notIn, overlap, contains,
    contained, anyOf, allOf, isNot, column]

def token : Operator → String
  | eq => "eq"
  | ne => "ne"
  | gt => "gt"
  | lt => "lt"
  | gte => "gte"
  | lte => "lte"
  | like => "like"
  | notLike => "notLike"
  | iLike => "iLike"
  | notILike => "notILike"
  | startsWith => "startsWith"
  | endsWith => "endsWith"
  | substring => "substring"
  | regexp => "regexp"
  | notRegexp => "notRegexp"
  | iRegexp => "iRegexp"
  | notIRegexp => "notIRegexp"
  | between => "between"
  | notBetween => "notBetween"
  | within => "in"
  | notIn => "notIn"
  | overlap => "overlap"
  | contains => "contains"
  | contained => "contained"
  | anyOf => "any"
  | allOf => "all"
  | isNot => "not"
  | column => "col"

def ofToken? (token : String) : Option Operator :=
  every.find? fun op => op.token == bareToken token

def shape : Operator → OperandShape
  | between | notBetween => .range
  | within | notIn | overlap | contains | contained | anyOf | allOf => .list
  | column => .reference
  | _ => .scalar

def isArray : Operator → Bool
  | overlap | contains | contained | anyOf | allOf => true
  | _ => false

def isPattern : Operator → Bool
  | like | notLike | iLike | notILike | startsWith | endsWith | substring
  | regexp | notRegexp | iRegexp | notIRegexp => true
  | _ => false

theorem ofToken?_token (op : Operator) : ofToken? op.token = some op := by
  cases op <;> decide

end Operator

namespace Combinator

def token : Combinator → String
  | and => "and"
  | or => "or"
  | not => "not"

def ofToken? (token : String) : Option Combinator :=
  match bareToken token with
  | "and" => some and
  | "or" => some or
  | "not" => some not
  | _ => none

end Combinator

def OperandShape.name : OperandShape → String
  | scalar => "scalar"
  | list => "list"
  | range => "range"
  | reference => "field_ref"

end ReadPlan
