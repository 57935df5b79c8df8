import ReadPlan.Binding

namespace ReadPlan.Operand

def acceptsNull : Operator → Bool
  | .eq | .ne | .isNot => true
  | _ => false

def isTruth : Json → Bool
  | .bool _ | .null => true
  | _ => false

def isText : Json → Bool
  | .str _ => true
  | _ => false

def scalarFault? (op : Operator) (v : Json) : Option ShapeFault :=
  if !v.isScalar then some .notScalar
  else if v.isNull && !acceptsNull op then some .nullOperand
  else if op = .isNot ∧ !isTruth v then some .truthOperand
  else if op.isPattern && !isText v then some .patternOperand
  else none

def ofJson (f : Frame) (path : String) (op : Operator) (v : Json) : Except QueryError Operand :=
  let refuse (fault : ShapeFault) : Except QueryError Operand :=
    .error (.invalidShape (path ++ "." ++ op.token) fault)
  match op.shape, v with
  | .scalar, v =>
    match scalarFault? op v with
    | some fault => refuse fault
    | none => .ok (.value v)
  | .list, .arr items => if items.all Json.isScalar then .ok (.list items) else refuse .notScalars
  | .list, _ => refuse .notScalars
  | .range, .arr [low, high] =>
    if low.isScalar && high.isScalar then .ok (.range low high) else refuse .notPair
  | .range, _ => refuse .notPair
  | .reference, .str reference => do return .column (← f.bind reference)
  | .reference, _ => refuse .notReference

end ReadPlan.Operand
