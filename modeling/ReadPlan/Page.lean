import ReadPlan.Json.Basic

namespace ReadPlan

structure Page where
  limit : Option Nat
  offset : Option Nat
  deriving DecidableEq

inductive Direction
  | asc | desc
  deriving DecidableEq

namespace Page

def whole : Page := ⟨none, none⟩

def isWhole (p : Page) : Bool :=
  p.limit.isNone && p.offset.isNone

def toJson (p : Page) : Json :=
  .obj (Json.optionalMember "limit" (fun n : Nat => .int n) p.limit ++
    Json.optionalMember "offset" (fun n : Nat => .int n) p.offset)

end Page

def Direction.name : Direction → String
  | asc => "ASC"
  | desc => "DESC"

end ReadPlan
