import ReadPlan.Plan.OfRequest
import ReadPlan.Schema.Tree
import ReadPlan.Service.Engine
import ReadPlan.Sql.OfPlan

namespace ReadPlan

structure Response where
  count : Nat
  rows : List Record
  tree : List SchemaTree

structure Failure where
  error : String
  details : String

def Failure.ofError (e : QueryError) : Failure :=
  ⟨"An error occurred", "Failed to retrieve records: " ++ e.message⟩

structure RecordService where
  catalog : Catalog
  dialect : Dialect
  policy : FragmentPolicy
  treeDepth : Nat

def defaultTreeDepth : Nat := 1

namespace RecordService

variable {Transaction : Type}

def prepare (s : RecordService) (r : Request) : Except QueryError (Plan × String) := do
  let plan ← Plan.ofRequest s.catalog s.policy r
  let sql ← plan.rowsStatement s.catalog s.dialect
  return (plan, sql)

/-- The statement of the count is made when the count is first looked at. -/
def retrieval (s : RecordService) (engine : Engine Transaction) (tx : Option Transaction)
    (plan : Plan) (sql : String) : Retrieval Transaction where
  rows := ⟨.rows, tx, .ok sql, fun sql => engine.fetchRows sql tx⟩
  count :=
    ⟨.count, tx, plan.totalStatement s.catalog s.dialect, fun sql => engine.fetchCount sql tx⟩

def response (s : RecordService) (rows : List Record) (count : Nat) : Response :=
  ⟨count, rows, s.catalog.forest s.treeDepth⟩

def read (s : RecordService) (engine : Engine Transaction) (completion : Completion) (r : Request)
    (tx : Option Transaction) : Except QueryError Response × List (Statement Transaction) :=
  match s.prepare r with
  | .error e => (.error e, [])
  | .ok (plan, sql) =>
    let both := s.retrieval engine tx plan sql
    ((both.result completion).map fun (rows, count) => s.response rows count,
      (both.run completion.turns).asked)

def handle (s : RecordService) (engine : Engine Transaction) (completion : Completion)
    (r : Request) (tx : Option Transaction) :
    Except Failure Response × List (Statement Transaction) :=
  let (result, asked) := s.read engine completion r tx
  (result.mapError Failure.ofError, asked)

def count (s : RecordService) (engine : Engine Transaction) (r : Request)
    (tx : Option Transaction) : Except QueryError (Except QueryError Nat × Statement Transaction) :=
  do
  let plan ← Plan.ofRequest s.catalog s.policy r
  let sql ← plan.totalStatement s.catalog s.dialect
  let answer := match engine.fetchCount sql tx with
    | .ok n => .ok n
    | .error e => .error (.execution e)
  return (answer, ⟨.count, sql, tx⟩)

end RecordService

def Response.toJson (r : Response) : Json :=
  .obj [("count", .int r.count), ("rows", .arr (r.rows.map .obj)),
    ("modeltree", .arr (r.tree.map SchemaTree.toJson))]

def Failure.toJson (f : Failure) : Json :=
  .obj [("error", .str f.error), ("details", .str f.details)]

end ReadPlan
