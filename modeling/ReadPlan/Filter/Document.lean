import ReadPlan.Filter.Basic
import ReadPlan.Error

/-!
Reading filters from JSON. An object under a key is an operator map or a nested filter; which of the
two is decided by the first key or value in it that can only be one of them.
-/

namespace ReadPlan

/-- What an object under a field key is. -/
inductive Reading
  | operators | filter
  deriving DecidableEq

def isCombinator (key : String) : Bool :=
  (Combinator.ofToken? key).isSome

def isPlainOperator (key : String) : Bool :=
  (Operator.ofToken? key).isSome && !isCombinator key

mutual

/-- An operator key makes an operator map and any other key that is no combinator makes a filter;
with combinators only, the first of their values that is decided decides. A value that is no object
is an operand. -/
def classify : Json → Option Reading
  | .obj ms =>
    if ms.any fun m => isPlainOperator m.1 then some .operators
    else if ms.any fun m => !isCombinator m.1 then some .filter
    else classifyMembers ms
  | _ => some .operators

def classifyItems : List Json → Option Reading
  | [] => none
  | v :: rest => (classify v).or (classifyItems rest)

def classifyMembers : List (String × Json) → Option Reading
  | [] => none
  | (_, .arr items) :: rest => (classifyItems items).or (classifyMembers rest)
  | (_, v) :: rest => (classify v).or (classifyMembers rest)

end

def subqueryMarker : String := "subquery"

def childPath (path key : String) : String :=
  if path.isEmpty then key else path ++ "." ++ key

def itemPath (path : String) (index : Nat) : String :=
  path ++ "[" ++ toString index ++ "]"

mutual

def readClauses (path : String) : List (String × Json) → Except QueryError (List Clause)
  | [] => .ok []
  | (token, operand) :: rest => do
    let clause ← readClause (childPath path token) token operand
    let clauses ← readClauses path rest
    return clause :: clauses

/-- Under `not` an object is a negated operator map and anything else a truth test. -/
def readClause (path token : String) : Json → Except QueryError Clause
  | .obj inner =>
    match Combinator.ofToken? token with
    | some .not => do return .logical .not [← readClauses path inner]
    | some _ => .error (.invalidShape path .conditionsNotArray)
    | none =>
      match Operator.ofToken? token with
      | some op => .ok (.compare op (.obj inner))
      | none => .error (.unknownOperator token)
  | .arr items =>
    match Combinator.ofToken? token with
    | some .and => do return .logical .and (← readClauseLists path 0 items)
    | some .or => do return .logical .or (← readClauseLists path 0 items)
    | _ =>
      match Operator.ofToken? token with
      | some op => .ok (.compare op (.arr items))
      | none => .error (.unknownOperator token)
  | operand =>
    match Combinator.ofToken? token with
    | some .and | some .or => .error (.invalidShape path .conditionsNotArray)
    | _ =>
      match Operator.ofToken? token with
      | some op => .ok (.compare op operand)
      | none => .error (.unknownOperator token)

def readClauseLists (path : String) (index : Nat) :
    List Json → Except QueryError (List (List Clause))
  | [] => .ok []
  | .obj inner :: rest => do
    let clauses ← readClauses (itemPath path index) inner
    let more ← readClauseLists path (index + 1) rest
    return clauses :: more
  | _ :: _ => .error (.invalidShape (itemPath path index) .conditionNotObject)

end

def readMarker (path : String) (ms : Json.Members) (marker : Json) :
    Except QueryError Condition :=
  match marker, ms with
  | .str sql, [_] => .ok (.subquery sql)
  | _, _ => .error (.invalidShape path .strayMarker)

mutual

def readTerms (path : String) : List (String × Json) → Except QueryError (List Term)
  | [] => .ok []
  | (key, v) :: rest => do
    let term ← match Combinator.ofToken? key with
      | some op => Term.logical op <$> readChildren (childPath path key) op v
      | none => Term.field key <$> readCondition (childPath path key) v
    let terms ← readTerms path rest
    return term :: terms

def readChildren (path : String) (op : Combinator) : Json → Except QueryError (List (List Term))
  | .obj ms =>
    match op with
    | .not => do return [← readTerms path ms]
    | _ => .error (.invalidShape path .filtersNotArray)
  | .arr items =>
    match op with
    | .not => .error (.invalidShape path .filterNotObject)
    | _ => readFilters path 0 items
  | _ =>
    match op with
    | .not => .error (.invalidShape path .filterNotObject)
    | _ => .error (.invalidShape path .filtersNotArray)

def readFilters (path : String) (index : Nat) : List Json → Except QueryError (List (List Term))
  | [] => .ok []
  | .obj ms :: rest => do
    let terms ← readTerms (itemPath path index) ms
    let more ← readFilters path (index + 1) rest
    return terms :: more
  | _ :: _ => .error (.invalidShape (itemPath path index) .filterNotObject)

def readCondition (path : String) : Json → Except QueryError Condition
  | .obj ms =>
    match Keyed.get? subqueryMarker ms with
    | some marker => readMarker path ms marker
    | none =>
      match classify (.obj ms) with
      | some .operators => do return .operators (← readClauses path ms)
      | _ => do return .nested (← readTerms path ms)
  | v => .ok (.scalar v)

end

def Filter.ofJson (path : String) : Json → Except QueryError Filter
  | .obj ms => readTerms path ms
  | _ => .error (.invalidShape path .filterNotObject)

end ReadPlan
