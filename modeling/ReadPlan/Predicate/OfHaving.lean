import ReadPlan.Predicate.OfFilter
import ReadPlan.Filter.Document

namespace ReadPlan.Having

def aggregate? (aggregates : List Aggregate) (name : String) : Option Aggregate :=
  aggregates.find? (·.name == name)

mutual

/-- The first key in the place of a field that is no alias of an aggregate. Combinators are looked
through, in objects and in lists. -/
def unknownKey? (aggregates : List Aggregate) : Json → Option String
  | .obj ms => unknownKeyOfMembers? aggregates ms
  | _ => none

def unknownKeyOfMembers? (aggregates : List Aggregate) : List (String × Json) → Option String
  | [] => none
  | (key, .arr items) :: rest =>
    if isCombinator key then
      (unknownKeyOfItems? aggregates items).or (unknownKeyOfMembers? aggregates rest)
    else if (aggregate? aggregates key).isSome then unknownKeyOfMembers? aggregates rest
    else some key
  | (key, v) :: rest =>
    if isCombinator key then
      (unknownKey? aggregates v).or (unknownKeyOfMembers? aggregates rest)
    else if (aggregate? aggregates key).isSome then unknownKeyOfMembers? aggregates rest
    else some key

def unknownKeyOfItems? (aggregates : List Aggregate) : List Json → Option String
  | [] => none
  | v :: rest => (unknownKey? aggregates v).or (unknownKeyOfItems? aggregates rest)

end

def compare (f : Frame) (key : String) (a : Aggregate) (op : Operator) (v : Json) :
    Except QueryError Predicate := do
  return .comparison ⟨.aggregate a, op, ← Operand.ofJson f key op v⟩

def compileCondition (f : Frame) (aggregates : List Aggregate) (key : String) (c : Condition) :
    Except QueryError (List Predicate) :=
  match aggregate? aggregates key with
  | none => .error (.havingNotAggregate key)
  | some a =>
    match c with
    | .operators clauses => do
      return (Predicate.all (← compileClauses (compare f key a) clauses)).toList
    | _ => .error (.invalidShape key .havingNotOperators)

mutual

def compileTerms (f : Frame) (aggregates : List Aggregate) :
    List Term → Except QueryError (List Predicate)
  | [] => .ok []
  | .logical op children :: rest => do
    let ps ← compileFilters f aggregates children
    let qs ← compileTerms f aggregates rest
    return (Predicate.combine op ps).toList ++ qs
  | .field key condition :: rest => do
    let ps ← compileCondition f aggregates key condition
    let qs ← compileTerms f aggregates rest
    return ps ++ qs

def compileFilters (f : Frame) (aggregates : List Aggregate) :
    List (List Term) → Except QueryError (List Predicate)
  | [] => .ok []
  | terms :: rest => do
    let ps ← compileTerms f aggregates terms
    let qs ← compileFilters f aggregates rest
    return (Predicate.all ps).toList ++ qs

end

mutual

def demands (f : Frame) : List Term → List Demand
  | [] => []
  | .logical _ children :: rest => demandsOfFilters f children ++ demands f rest
  | .field _ (.operators clauses) :: rest =>
    (clauseReferences clauses).flatMap f.demand ++ demands f rest
  | .field _ _ :: rest => demands f rest

def demandsOfFilters (f : Frame) : List (List Term) → List Demand
  | [] => []
  | terms :: rest => demands f terms ++ demandsOfFilters f rest

end

def path : String := "having"

def read (aggregates : List Aggregate) (v : Json) : Except QueryError Filter :=
  match v with
  | .obj ms =>
    match unknownKeyOfMembers? aggregates ms with
    | some key => .error (.havingNotAggregate key)
    | none => readTerms path ms
  | _ => .error (.invalidShape path .havingNotObject)

def compile (f : Frame) (aggregates : List Aggregate) (filter : Filter) :
    Except QueryError (Option Predicate) := do
  return Predicate.all (← compileTerms f aggregates filter)

end ReadPlan.Having
