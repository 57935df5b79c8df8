import ReadPlan.Json.Basic

/-!
Reading typed data from JSON trees. A record is written as an object by field names, where unknown
names are ignored and a known one may stand only once, or as an array of its fields in order, where
later fields may be left out. In an open record items after the last field are ignored too.
-/

namespace ReadPlan.Json

def string? : Json → Option String
  | .str s => some s
  | _ => none

def bool? : Json → Option Bool
  | .bool b => some b
  | _ => none

def count? : Json → Option Nat
  | .int n => if 0 ≤ n ∧ n < 0x10000000000000000 then some n.toNat else none
  | _ => none

def list? {α : Type} (item? : Json → Option α) : Json → Option (List α)
  | .arr items => items.mapM item?
  | _ => none

def nullable? {α : Type} (value? : Json → Option α) : Json → Option (Option α)
  | .null => some none
  | v => some <$> value? v

/-- A choice is written as its name, or as an object with the name as its only key and null. -/
def choice? {α : Type} (named? : String → Option α) : Json → Option α
  | .str name => named? name
  | .obj [(name, .null)] => named? name
  | _ => none

def Members.occurrences (ms : Members) (key : String) : Nat :=
  (ms.filter (·.1 == key)).length

def object? (names : List String) : Json → Option (String → Option Json)
  | .obj ms =>
    if names.any fun name => 1 < Members.occurrences ms name then none
    else some fun name => Keyed.get? name ms
  | _ => none

def record? (names : List String) : Json → Option (String → Option Json)
  | .arr items =>
    if names.length < items.length then none
    else some fun name => Keyed.get? name (names.zip items)
  | v => v.object? names

/-- The fields of a record whose array may go on after the last of them. -/
def openRecord? (names : List String) : Json → Option (String → Option Json)
  | .arr items => some fun name => Keyed.get? name (names.zip items)
  | v => v.object? names

def required? {α : Type} (value? : Json → Option α) : Option Json → Option α
  | none => none
  | some v => value? v

/-- A field that has a default; null is a value like others. -/
def defaulted? {α : Type} (default : α) (value? : Json → Option α) : Option Json → Option α
  | none => some default
  | some v => value? v

def optional? {α : Type} (value? : Json → Option α) : Option Json → Option (Option α) :=
  defaulted? none (nullable? value?)

end ReadPlan.Json
