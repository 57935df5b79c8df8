import ReadPlan.Json.Basic
import ReadPlan.Operator

namespace ReadPlan

inductive Clause
  | compare (operator : Operator) (operand : Json)
  | logical (op : Combinator) (children : List (List Clause))

mutual

inductive Term
  | logical (op : Combinator) (children : List (List Term))
  /-- The key is a field, a dotted path or the name of an association. -/
  | field (key : String) (condition : Condition)

inductive Condition
  | subquery (sql : String)
  | operators (clauses : List Clause)
  | nested (terms : List Term)
  /-- A bare value, which only a global search takes. -/
  | scalar (value : Json)

end

abbrev Filter := List Term

mutual

def Term.firstFieldKey : Term → Option String
  | .logical _ children => firstKeyOfFilters children
  | .field key _ => some key

def firstFieldKey : List Term → Option String
  | [] => none
  | t :: rest => t.firstFieldKey.or (firstFieldKey rest)

def firstKeyOfFilters : List (List Term) → Option String
  | [] => none
  | f :: rest => (firstFieldKey f).or (firstKeyOfFilters rest)

end

mutual

/-- The scalars of a value in document order: those of arrays too, none of an object, no null. -/
def Json.scalars : Json → List Json
  | .arr items => itemScalars items
  | .obj _ | .null => []
  | v => [v]

def itemScalars : List Json → List Json
  | [] => []
  | v :: rest => v.scalars ++ itemScalars rest

end

mutual

def Clause.scalars : Clause → List Json
  | .compare _ operand => operand.scalars
  | .logical _ children => clauseListScalars children

def clauseScalars : List Clause → List Json
  | [] => []
  | c :: rest => c.scalars ++ clauseScalars rest

def clauseListScalars : List (List Clause) → List Json
  | [] => []
  | cs :: rest => clauseScalars cs ++ clauseListScalars rest

end

mutual

def Term.scalars : Term → List Json
  | .logical _ children => filterListScalars children
  | .field _ condition => condition.scalars

def Condition.scalars : Condition → List Json
  | .subquery _ => []
  | .operators clauses => clauseScalars clauses
  | .nested terms => filterScalars terms
  | .scalar value => value.scalars

def filterScalars : List Term → List Json
  | [] => []
  | t :: rest => t.scalars ++ filterScalars rest

def filterListScalars : List (List Term) → List Json
  | [] => []
  | f :: rest => filterScalars f ++ filterListScalars rest

end

mutual

def Clause.references : Clause → List String
  | .compare .column (.str reference) => [reference]
  | .compare _ _ => []
  | .logical _ children => clauseListReferences children

def clauseReferences : List Clause → List String
  | [] => []
  | c :: rest => c.references ++ clauseReferences rest

def clauseListReferences : List (List Clause) → List String
  | [] => []
  | cs :: rest => clauseReferences cs ++ clauseListReferences rest

end

end ReadPlan
