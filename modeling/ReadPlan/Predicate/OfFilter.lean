import ReadPlan.Predicate.Operand
import ReadPlan.Filter.Basic
import ReadPlan.Json.Printer

/-!
Compiling filters to predicates, and the joins that they demand. A part without any comparison or
fragment compiles to nothing and leaves no trace in the predicate around it.
-/

namespace ReadPlan

mutual

def Clause.compile (leaf : Operator → Json → Except QueryError Predicate) :
    Clause → Except QueryError (List Predicate)
  | .compare op operand => do return [← leaf op operand]
  | .logical op children => do
    let ps ← compileClauseLists leaf children
    return (Predicate.combine op ps).toList

def compileClauses (leaf : Operator → Json → Except QueryError Predicate) :
    List Clause → Except QueryError (List Predicate)
  | [] => .ok []
  | c :: rest => do
    let ps ← c.compile leaf
    let qs ← compileClauses leaf rest
    return ps ++ qs

def compileClauseLists (leaf : Operator → Json → Except QueryError Predicate) :
    List (List Clause) → Except QueryError (List Predicate)
  | [] => .ok []
  | cs :: rest => do
    let ps ← compileClauses leaf cs
    let qs ← compileClauseLists leaf rest
    return (Predicate.all ps).toList ++ qs

end

namespace Frame

def compare (f : Frame) (key : String) (bound : BoundField) (op : Operator) (v : Json) :
    Except QueryError Predicate := do
  let operand ← Operand.ofJson f key op v
  let c : Comparison := ⟨.field bound.field, op, operand⟩
  return match bound.relation with
    | some relation => .qualified relation c
    | none => .comparison c

/-- A fragment under a field is a value for it, and one under an association a condition on the
partner. The key is taken as a whole, dots included. -/
def fragment (f : Frame) (s : Scope) (key sql : String) : Except QueryError Predicate :=
  match f.policy with
  | .reject => .error (.fragmentRejected key)
  | .allow =>
    let relation := f.relation s.segments
    match s.entity.field? key with
    | some field => .ok (.fragment sql (.field ⟨key, ⟨relation, field.column⟩⟩))
    | none =>
      match f.catalog.association? s.entity.name key with
      | some a => .ok (.fragment sql (.exists relation a))
      | none => .error (.unknownField s.entity.name key)

end Frame

mutual

def compileTerms (f : Frame) (s : Scope) : List Term → Except QueryError (List Predicate)
  | [] => .ok []
  | t :: rest => do
    let ps ← t.compile f s
    let qs ← compileTerms f s rest
    return ps ++ qs

def Term.compile (f : Frame) (s : Scope) : Term → Except QueryError (List Predicate)
  | .logical op children => do
    let ps ← compileFilters f s children
    return (Predicate.combine op ps).toList
  | .field key condition => condition.compile f s key

def compileFilters (f : Frame) (s : Scope) :
    List (List Term) → Except QueryError (List Predicate)
  | [] => .ok []
  | terms :: rest => do
    let ps ← compileTerms f s terms
    let qs ← compileFilters f s rest
    return (Predicate.all ps).toList ++ qs

/-- A condition on a field is an operator map, and one on an association a filter on its target. -/
def Condition.compile (f : Frame) (s : Scope) (key : String) :
    Condition → Except QueryError (List Predicate)
  | .subquery sql => do return [← f.fragment s key sql]
  | .operators clauses => do
    match ← f.locate s key false with
    | .association _ => .error (.invalidShape key .operatorsOnAssociation)
    | place =>
      let bound ← f.bindPlace s key place
      let ps ← compileClauses (f.compare key bound) clauses
      return (Predicate.all ps).toList
  | .nested terms => do
    match ← f.locate s key true with
    | .association segments =>
      let e ← f.reach segments
      let ps ← compileTerms f ⟨e, segments⟩ terms
      return (Predicate.all ps).toList
    | place =>
      let _ ← f.bindPlace s key place
      match firstFieldKey terms with
      | none => return []
      | some token => .error (.unknownOperator token)
  | .scalar _ => do
    match ← f.locate s key false with
    | .association _ => .error (.invalidShape key .conditionNotObject)
    | place =>
      let _ ← f.bindPlace s key place
      .error (.invalidShape key .conditionNotObject)

end

def namedFields (e : Entity) (terms : Filter) : List String :=
  terms.filterMap fun
    | .field key _ => if e.hasField key then some key else none
    | .logical .. => none

mutual

/-- The joins that a filter demands, in the order in which they are met. The filter of an
association also returns the fields of its target that it names. -/
def termDemands (f : Frame) (s : Scope) : List Term → List Demand
  | [] => []
  | t :: rest => t.demands f s ++ termDemands f s rest

def Term.demands (f : Frame) (s : Scope) : Term → List Demand
  | .logical _ children => filterDemands f s children
  | .field key condition => condition.demands f s key

def filterDemands (f : Frame) (s : Scope) : List (List Term) → List Demand
  | [] => []
  | terms :: rest => termDemands f s terms ++ filterDemands f s rest

def Condition.demands (f : Frame) (s : Scope) (key : String) : Condition → List Demand
  | .subquery _ | .scalar _ => []
  | .operators clauses =>
    match f.locate s key false with
    | .error _ => []
    | .ok place => f.demandPlace place ++ (clauseReferences clauses).flatMap f.demand
  | .nested terms =>
    match f.locate s key true with
    | .error _ => []
    | .ok (.association segments) =>
      match f.reach segments with
      | .error _ => []
      | .ok e => f.demandPath segments (namedFields e terms) ++ termDemands f ⟨e, segments⟩ terms
    | .ok place => f.demandPlace place

end

namespace Filter

def compile (f : Frame) (filter : Filter) : Except QueryError (Option Predicate) := do
  return Predicate.all (← compileTerms f f.rootScope filter)

def demands (f : Frame) (filter : Filter) : List Demand :=
  termDemands f f.rootScope filter

def searchText : Json → String
  | .str s => s
  | v => v.compact

/-- A global search takes every scalar of the filter for a search term, whatever key it is under. -/
def globalSearch (filter : Filter) : Option Predicate :=
  Predicate.combine .or <|
    (filterScalars filter).map fun v => .globalPattern ("%" ++ searchText v ++ "%")

end Filter

end ReadPlan
