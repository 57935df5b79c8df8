import ReadPlan.Predicate.OfHaving

/-!
Compiling a request to a plan. The parts are compiled one after the other and the first fault is
reported: model, filters, selection, aggregates, grouping, conditions on groups, order. The joins
are what all parts together demand, in that order.
-/

namespace ReadPlan

namespace Projection

def rootFields (entries : List String) : List String :=
  let references := (entries.map Reference.ofString).filter (·.path.isEmpty)
  (references.map (·.field)).foldl addField []

/-- Without a selection every field of the root is returned. A selected field has to exist. -/
def ofSelect (f : Frame) : Option (List String) → Except QueryError Projection
  | none => .ok ⟨f.root.fieldNames, true⟩
  | some entries => do
    let _ ← entries.mapM f.bind
    return ⟨rootFields entries, false⟩

def demands (f : Frame) (entries : List String) : List Demand :=
  entries.flatMap fun entry =>
    let r := Reference.ofString entry
    f.demandPath r.path [r.field]

end Projection

namespace Aggregate

/-- The name of an aggregate in the output, which conditions and order refer to. -/
def aliasOf (function field : String) : String :=
  function ++ "_" ++ field

def ofMember (f : Frame) (member : String × Json) : Except QueryError Aggregate :=
  if !Text.isPlainName member.1 then
    .error (.invalidRequest (.functionName member.1))
  else
    match member.2 with
    | .str field => do return ⟨member.1, ← f.bind field, aliasOf member.1 field⟩
    | _ => .error (.invalidRequest (.aggregateField member.1))

end Aggregate

def distinctColumns (columns : List ColumnRef) : List ColumnRef :=
  columns.foldl (fun done c => if done.contains c then done else done ++ [c]) []

namespace Frame

def joinColumns (f : Frame) (forest : JoinForest) : List ColumnRef :=
  (flattenForest forest).flatMap fun j =>
    match f.catalog.entity? j.target with
    | none => []
    | some target => j.projected.map fun field => ⟨j.path, target.columnOf field⟩

/-- The grouping of a request that groups: what it names, then every returned column. -/
def grouping (f : Frame) (explicit : List FieldRef) (projection : Projection)
    (forest : JoinForest) : List ColumnRef :=
  distinctColumns <|
    explicit.map (·.column) ++
      projection.fields.map (fun field => ⟨f.root.name, f.root.columnOf field⟩) ++
      f.joinColumns forest

/-- A field of the root goes before an aggregate of the same name. -/
def sort (f : Frame) (aggregates : List Aggregate) (s : Sorting) : Except QueryError SortOrder :=
  if !f.root.hasField s.field && (Having.aggregate? aggregates s.field).isSome then
    .ok ⟨.aggregate s.field, s.direction⟩
  else do
    return ⟨.field (← f.bind s.field), s.direction⟩

def sortDemands (f : Frame) : Option SortOrder → List Demand
  | some ⟨.field field, _⟩ => f.demand field.name
  | _ => []

end Frame

namespace Request

def aggregateMembers (r : Request) : Json.Members :=
  r.aggregates.getD []

def groups (r : Request) : Bool :=
  !r.groupBy.isEmpty || !r.aggregateMembers.isEmpty

/-- What the request selects; a request that groups and selects nothing selects its groups. -/
def effectiveSelect (r : Request) : Option (List String) :=
  match r.select with
  | some (entry :: entries) => some (entry :: entries)
  | _ => if r.groups then some r.groupBy else none

def compileFilters (f : Frame) (r : Request) (filter : Filter) :
    Except QueryError (Option Predicate) :=
  if r.globalSearch then .ok filter.globalSearch else filter.compile f

def filterDemands (f : Frame) (r : Request) (filter : Filter) : List Demand :=
  if r.globalSearch then [] else filter.demands f

def referenceOf? : String × Json → Option String
  | (_, .str field) => some field
  | _ => none

def outputDemands (f : Frame) (r : Request) (filter : Filter) : List Demand :=
  r.filterDemands f filter ++
    Projection.demands f (r.effectiveSelect.getD []) ++
    (r.aggregateMembers.filterMap referenceOf?).flatMap f.demand ++
    r.groupBy.flatMap f.demand

def joins (f : Frame) (r : Request) (demands : List Demand) : JoinForest :=
  JoinForest.ofDemands r.joinOptions f.root.name demands

def readHaving (r : Request) (aggregates : List Aggregate) : Except QueryError Filter :=
  match r.having with
  | none => .ok []
  | some v => Having.read aggregates v

end Request

namespace Plan

def ofRoot (f : Frame) (r : Request) : Except QueryError Plan := do
  let filter ← Filter.ofJson "filters" r.filters
  let predicate ← r.compileFilters f filter
  let projection ← Projection.ofSelect f r.effectiveSelect
  let aggregates ← r.aggregateMembers.mapM (Aggregate.ofMember f)
  let explicit ← r.groupBy.mapM f.bind
  let output := r.outputDemands f filter
  let groupBy := if r.groups then f.grouping explicit projection (r.joins f output) else []
  let having ← r.readHaving aggregates
  let condition ← Having.compile f aggregates having
  let sort ← r.sorting.mapM (f.sort aggregates)
  return {
    entity := f.root.name
    projection
    predicate
    joins := r.joins f (output ++ Having.demands f having ++ f.sortDemands sort)
    groupBy
    having := condition
    aggregates
    sort
    page := if r.page.isWhole then none else some r.page }

def ofRequest (c : Catalog) (policy : FragmentPolicy) (r : Request) : Except QueryError Plan :=
  match c.entity? r.modelName with
  | none => .error (.entityNotFound r.modelName)
  | some root => ofRoot ⟨c, root, policy⟩ r

end Plan

end ReadPlan
