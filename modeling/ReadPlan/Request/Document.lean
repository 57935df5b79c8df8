import ReadPlan.Request.Basic
import ReadPlan.Json.Decode
import ReadPlan.Json.Reader

namespace ReadPlan

def Sorting.toJson (s : Sorting) : Json :=
  .obj [("field", .str s.field), ("direction", .str s.direction.name)]

def JoinOptions.toJson (options : JoinOptions) : Json :=
  .obj (options.map fun (key, strength) => (key, .str strength.name))

def Request.toJson (r : Request) : Json :=
  .obj <|
    [("modelName", .str r.modelName), ("filters", r.filters)] ++
    Json.optionalMember "select" Json.ofStrings r.select ++
    [("pagination", r.page.toJson)] ++
    Json.optionalMember "sorting" Sorting.toJson r.sorting ++
    (if r.groupBy.isEmpty then [] else [("groupBy", Json.ofStrings r.groupBy)]) ++
    Json.optionalMember "aggregates" Json.obj r.aggregates ++
    Json.optionalMember "having" id r.having ++
    (if r.joinOptions.isEmpty then [] else [("joinOptions", r.joinOptions.toJson)]) ++
    [("globalSearch", .bool r.globalSearch)]

def Page.fieldNames : List String :=
  ["limit", "offset"]

def Page.ofJson? (v : Json) : Option Page := do
  let field ← v.record? Page.fieldNames
  let limit ← Json.optional? Json.count? (field "limit")
  let offset ← Json.optional? Json.count? (field "offset")
  return ⟨limit, offset⟩

def Direction.named? : String → Option Direction
  | "ASC" | "asc" => some .asc
  | "DESC" | "desc" => some .desc
  | _ => none

def Sorting.fieldNames : List String :=
  ["field", "direction"]

def Sorting.ofJson? (v : Json) : Option Sorting := do
  let field ← v.record? Sorting.fieldNames
  let name ← Json.required? Json.string? (field "field")
  let direction ← Json.defaulted? .asc (Json.choice? Direction.named?) (field "direction")
  return ⟨name, direction⟩

def JoinStrength.named? : String → Option JoinStrength
  | "INNER" | "inner" => some .inner
  | "LEFT" | "left" | "LEFT OUTER" | "left outer" => some .left
  | _ => none

def JoinOptions.ofJson? : Json → Option JoinOptions
  | .obj ms => Keyed.sorted <$>
      ms.mapM fun (key, v) => do return (key, ← Json.choice? JoinStrength.named? v)
  | _ => none

def Json.freeForm? (v : Json) : Option Json :=
  some v.merged

def Json.freeMembers? : Json → Option Json.Members
  | .obj ms => some (Keyed.merge (Json.mergedMembers ms))
  | _ => none

def Request.fieldNames : List String :=
  ["modelName", "filters", "select", "pagination", "sorting", "groupBy", "aggregates", "having",
    "joinOptions", "globalSearch"]

def Request.ofJson? (v : Json) : Option Request := do
  let field ← v.record? Request.fieldNames
  let modelName ← Json.required? Json.string? (field "modelName")
  let filters ← Json.required? Json.freeForm? (field "filters")
  let select ← Json.optional? (Json.list? Json.string?) (field "select")
  let page ← Json.defaulted? .whole Page.ofJson? (field "pagination")
  let sorting ← Json.optional? Sorting.ofJson? (field "sorting")
  let groupBy ← Json.defaulted? [] (Json.list? Json.string?) (field "groupBy")
  let aggregates ← Json.optional? Json.freeMembers? (field "aggregates")
  let having ← Json.optional? Json.freeForm? (field "having")
  let joinOptions ← Json.defaulted? [] JoinOptions.ofJson? (field "joinOptions")
  let globalSearch ← Json.defaulted? false Json.bool? (field "globalSearch")
  return { modelName, filters, select, page, sorting, groupBy, aggregates, having, joinOptions,
           globalSearch }

def Request.scope : Json.Scope :=
  let fields (names : List String) : Json.Scope := .record (names.map fun name => (name, .whole))
  .record <| Request.fieldNames.map fun name =>
    match name with
    | "pagination" => (name, fields Page.fieldNames)
    | "sorting" => (name, fields Sorting.fieldNames)
    | name => (name, .whole)

def Request.ofText? (text : String) : Option Request := do
  Request.ofJson? (← Json.read? Request.scope text)

end ReadPlan
