import ReadPlan.Error
import ReadPlan.Json.Printer
import ReadPlan.Plan.Basic
import ReadPlan.Sql.Statement

/-!
The query of a plan. Every relation is introduced under the name that the plan's columns use: the
root under its entity's name, a join under its path, and a junction table under the path of its join
followed by its own name.
-/

namespace ReadPlan

def ColumnRef.expr (c : ColumnRef) : Sql.Expr :=
  .ofColumn c.table c.column

def Entity.tableRef (e : Entity) (name : String) : Sql.TableRef :=
  ⟨e.schema, e.table, some name⟩

def Junction.tableRef (j : Junction) (name : String) : Sql.TableRef :=
  ⟨j.schema, j.table, some name⟩

namespace Sql

/-- An integer beyond 64 signed bits is written as the nearest float. -/
def Literal.ofJson : Json → Literal
  | .null => .null
  | .bool b => .bool b
  | .int n => if n < 0x8000000000000000 then .int n else .float (.ofInt n)
  | .float x => .float x
  | .str s => .string s
  | v => .string v.compact

def literal (v : Json) : Expr :=
  .literal (.ofJson v)

def scalarOperand (path : String) : Operand → Except QueryError Expr
  | .value v => .ok (literal v)
  | _ => .error (.invalidShape path .notScalar)

def scalarOrColumn (path : String) : Operand → Except QueryError Expr
  | .column field => .ok field.column.expr
  | operand => scalarOperand path operand

def listOperand (path : String) : Operand → Except QueryError (List Expr)
  | .list vs => .ok (vs.map literal)
  | _ => .error (.invalidShape path .notArray)

def patternOperand (path before after : String) : Operand → Except QueryError Expr
  | .value (.str s) => .ok (.literal (.string (before ++ s ++ after)))
  | _ => .error (.invalidShape path .patternOperand)

def equalityExpr (path : String) (left : Expr) (operand : Operand) (negated : Bool) :
    Except QueryError Expr :=
  match operand with
  | .value .null => .ok (.isNull left negated)
  | operand => do
    return .binary left (if negated then .ne else .eq) (← scalarOrColumn path operand)

def rangeExpr (path : String) (left : Expr) (operand : Operand) (negated : Bool) :
    Except QueryError Expr :=
  match operand with
  | .range low high => .ok (.between left (literal low) (literal high) negated)
  | _ => .error (.invalidShape path .notRange)

def columnExpr (path : String) (left : Expr) : Operand → Except QueryError Expr
  | .column field => .ok (left.equals field.column.expr)
  | _ => .error (.invalidShape path .notReference)

def operatorExpr (path : String) (left : Expr) (op : Operator) (operand : Operand) :
    Except QueryError Expr :=
  let ordered (b : BinaryOp) : Except QueryError Expr := do
    return .binary left b (← scalarOrColumn path operand)
  let matched (b : BinaryOp) : Except QueryError Expr := do
    return .binary left b (← scalarOperand path operand)
  let likeText (before after : String) : Except QueryError Expr := do
    return .binary left .like (← patternOperand path before after operand)
  let arrays (b : BinaryOp) : Except QueryError Expr := do
    return .binary left b (.array (← listOperand path operand))
  let quantified (q : Quantifier) : Except QueryError Expr := do
    return .quantified left .eq q (.array (← listOperand path operand))
  match op with
  | .eq => equalityExpr path left operand false
  | .ne => equalityExpr path left operand true
  | .gt => ordered .gt
  | .lt => ordered .lt
  | .gte => ordered .gte
  | .lte => ordered .lte
  | .like => matched .like
  | .notLike => matched .notLike
  | .iLike => matched .iLike
  | .notILike => matched .notILike
  | .startsWith => likeText "" "%"
  | .endsWith => likeText "%" ""
  | .substring => likeText "%" "%"
  | .regexp => matched (.regex false false)
  | .notRegexp => matched (.regex true false)
  | .iRegexp => matched (.regex false true)
  | .notIRegexp => matched (.regex true true)
  | .between => rangeExpr path left operand false
  | .notBetween => rangeExpr path left operand true
  | .within => do return .inList left (← listOperand path operand) false
  | .notIn => do return .inList left (← listOperand path operand) true
  | .overlap => arrays .overlap
  | .contains => arrays .contains
  | .contained => arrays .containedBy
  | .anyOf => quantified .any
  | .allOf => quantified .all
  | .isNot => do return .is left (← scalarOperand path operand) true
  | .column => columnExpr path left operand

end Sql

def Aggregate.expr (a : Aggregate) : Sql.Expr :=
  .call a.function [a.field.column.expr] false

namespace Target

def expr : Target → Sql.Expr
  | field f => f.column.expr
  | aggregate a => a.expr

def name : Target → String
  | field f => f.name
  | aggregate a => a.name

end Target

def Comparison.expr (d : Dialect) (c : Comparison) : Except QueryError Sql.Expr :=
  let path := c.target.name ++ "." ++ c.operator.token
  if c.operator.isArray && !d.supportsArrays then
    .error (.invalidShape path (.arraysUnsupported d))
  else
    Sql.operatorExpr path c.target.expr c.operator c.operand

namespace Catalog

def requireEntity (c : Catalog) (name : String) : Except QueryError Entity :=
  match c.entity? name with
  | some e => .ok e
  | none => .error (.entityNotFound name)

theorem requireEntity_eq_ok {c : Catalog} {name : String} {e : Entity} :
    c.requireEntity name = .ok e ↔ c.entity? name = some e := by
  unfold requireEntity
  cases c.entity? name <;> simp

/-- A condition on a partner of the row of relation `source`: the partner, and the junction row if
there is one, stand in a query of their own that is tied to the outer row by its keys. -/
def existsQuery (c : Catalog) (source : String) (a : Association) :
    Except QueryError Sql.Query := do
  let owner ← c.requireEntity a.source
  let target ← c.requireEntity a.target
  let outer := Sql.Expr.ofColumn source (owner.columnOf a.sourceKey)
  let partner := Sql.Expr.ofColumn a.name (target.columnOf a.targetKey)
  let one : Sql.Query := { Sql.Query.empty with select := [⟨.literal (.int 1), none⟩] }
  match a.through with
  | some j =>
    return {
      one with
      source := some (j.tableRef j.table)
      joins := [⟨.inner, target.tableRef a.name,
        (Sql.Expr.ofColumn j.table j.targetKey).equals partner⟩]
      filter := some (outer.equals (.ofColumn j.table j.sourceKey)) }
  | none =>
    return {
      one with
      source := some (target.tableRef a.name)
      filter := some (outer.equals partner) }

def fragmentExpr (c : Catalog) (sql : String) : FragmentScope → Except QueryError Sql.Expr
  | .field field => .ok (field.column.expr.equals (.paren (.raw sql)))
  | .exists source a => do
    return .exists ((← c.existsQuery source a).addFilter (.paren (.raw sql)))

end Catalog

/-- No conditions are true together, and none of no conditions is true. -/
def Sql.combined (op : Combinator) (es : List Sql.Expr) : Sql.Expr :=
  match op with
  | .and => (Sql.conjunction es).getD (.literal (.bool true))
  | .or => (Sql.disjunction es).getD (.literal (.bool false))
  | .not => .not (.paren ((Sql.conjunction es).getD (.literal (.bool true))))

namespace Predicate

mutual

def expr (c : Catalog) (d : Dialect) : Predicate → Except QueryError Sql.Expr
  | .comparison x | .qualified _ x => x.expr d
  | .logical op children => do return Sql.combined op (← exprs c d children)
  | .fragment sql scope => c.fragmentExpr sql scope
  | .globalPattern pattern => .error (.unboundPattern pattern)

def exprs (c : Catalog) (d : Dialect) : List Predicate → Except QueryError (List Sql.Expr)
  | [] => .ok []
  | p :: rest => do
    let e ← p.expr c d
    let es ← exprs c d rest
    return e :: es

end

end Predicate

namespace JoinNode

/-- The path with dots, which starts the output names of the join's fields. -/
def dotted (path : List Char) : List Char :=
  match path with
  | '-' :: '>' :: rest => '.' :: dotted rest
  | c :: rest => c :: dotted rest
  | [] => []

def outputName (j : JoinNode) (field : String) : String :=
  String.ofList (dotted j.path.toList) ++ "." ++ field

def selectItems (j : JoinNode) (target : Entity) : List Sql.SelectItem :=
  j.projected.map fun field =>
    ⟨.ofColumn j.path (target.columnOf field), some (j.outputName field)⟩

def kind (j : JoinNode) : Sql.JoinKind :=
  if j.required then .inner else .left

def junctionAlias (j : JoinNode) (through : Junction) : String :=
  j.path ++ "->" ++ through.table

/-- The joins of one node: a many-to-many association is joined through its junction table. -/
def sqlJoins (c : Catalog) (j : JoinNode) (target : Entity) :
    Except QueryError (List Sql.Join) := do
  let a := j.association
  let owner ← c.requireEntity a.source
  let near := Sql.Expr.ofColumn j.parent (owner.columnOf a.sourceKey)
  let far := Sql.Expr.ofColumn j.path (target.columnOf a.targetKey)
  match a.kind, a.through with
  | .belongsToMany, some through =>
    let name := j.junctionAlias through
    return [
      ⟨j.kind, through.tableRef name, near.equals (.ofColumn name through.sourceKey)⟩,
      ⟨j.kind, target.tableRef j.path, (Sql.Expr.ofColumn name through.targetKey).equals far⟩]
  | .belongsToMany, none => .error (.invalidRequest (.noJunction a.name))
  | _, _ => return [⟨j.kind, target.tableRef j.path, near.equals far⟩]

def parts (c : Catalog) (j : JoinNode) :
    Except QueryError (List Sql.SelectItem × List Sql.Join) := do
  let target ← c.requireEntity j.target
  let joins ← j.sqlJoins c target
  return (j.selectItems target, joins)

end JoinNode

namespace Plan

def rootItem (root : Entity) (field : String) : Sql.SelectItem :=
  let column := root.columnOf field
  ⟨.ofColumn root.name column, if column == field then none else some field⟩

def aggregateItem (a : Aggregate) : Sql.SelectItem :=
  ⟨a.expr, some a.name⟩

def orderItem (s : SortOrder) : Sql.OrderItem :=
  match s.target with
  | .field field => ⟨field.column.expr, s.direction⟩
  | .aggregate name => ⟨.column none name, s.direction⟩

def query (c : Catalog) (d : Dialect) (p : Plan) : Except QueryError Sql.Query := do
  let root ← c.requireEntity p.entity
  let parts ← p.allJoins.mapM (JoinNode.parts c)
  let filter ← p.predicate.mapM (Predicate.expr c d)
  let having ← p.having.mapM (Predicate.expr c d)
  return {
    select := p.projection.fields.map (rootItem root) ++ parts.flatMap (·.1) ++
      p.aggregates.map aggregateItem
    source := some (root.tableRef root.name)
    joins := parts.flatMap (·.2)
    filter
    groupBy := p.groupBy.map ColumnRef.expr
    having
    orderBy := (p.sort.map orderItem).toList
    page := p.page.getD .whole }

def rowsStatement (c : Catalog) (d : Dialect) (p : Plan) : Except QueryError String := do
  match (← p.query c d).text d with
  | .ok sql => return sql
  | .error fault => .error (.unwritable fault)

def totalStatement (c : Catalog) (d : Dialect) (p : Plan) : Except QueryError String := do
  return Sql.countStatement d (← p.withoutPage.rowsStatement c d)

end Plan

end ReadPlan
