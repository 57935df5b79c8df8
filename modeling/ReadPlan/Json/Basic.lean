import ReadPlan.Number.Binary64

/-!
JSON values with ordered members. Integers and floats are different values, and a tree that was just
read may hold a key twice; `merged` gives the value such a tree stands for.
-/

namespace ReadPlan

namespace Keyed

def put {α : Type} (key : String) (value : α) : List (String × α) → List (String × α)
  | [] => [(key, value)]
  | (k, v) :: rest => if k == key then (k, value) :: rest else (k, v) :: put key value rest

/-- The pairs by key: each key at its first place with its last value. -/
def merge {α : Type} (pairs : List (String × α)) : List (String × α) :=
  pairs.foldl (fun done (key, value) => put key value done) []

def insert {α : Type} (key : String) (value : α) : List (String × α) → List (String × α)
  | [] => [(key, value)]
  | (k, v) :: rest =>
    if key == k then (key, value) :: rest
    else if key < k then (key, value) :: (k, v) :: rest
    else (k, v) :: insert key value rest

/-- The pairs in the order of their keys, each key with its last value. -/
def sorted {α : Type} (pairs : List (String × α)) : List (String × α) :=
  pairs.foldl (fun done (key, value) => insert key value done) []

def get? {α : Type} (key : String) (pairs : List (String × α)) : Option α :=
  (pairs.find? (·.1 == key)).map (·.2)

end Keyed

inductive Json
  | null
  | bool (b : Bool)
  | int (n : Int)
  | float (x : Binary64)
  | str (s : String)
  | arr (items : List Json)
  | obj (members : List (String × Json))
  deriving Inhabited

namespace Json

abbrev Members := List (String × Json)

def isNull : Json → Bool
  | .null => true
  | _ => false

def isScalar : Json → Bool
  | .arr _ | .obj _ => false
  | _ => true

def ofStrings (xs : List String) : Json :=
  .arr (xs.map .str)

def ofOption {α : Type} (f : α → Json) : Option α → Json
  | none => .null
  | some a => f a

def optionalMember {α : Type} (key : String) (f : α → Json) : Option α → Members
  | none => []
  | some a => [(key, f a)]

mutual

def fitsWords : Json → Bool
  | .arr items => itemsFitWords items
  | .obj ms => membersFitWords ms
  | .int n => decide (-0x8000000000000000 ≤ n ∧ n < 0x10000000000000000)
  | .null | .bool _ | .float _ | .str _ => true

def itemsFitWords : List Json → Bool
  | [] => true
  | v :: rest => v.fitsWords && itemsFitWords rest

def membersFitWords : List (String × Json) → Bool
  | [] => true
  | (_, v) :: rest => v.fitsWords && membersFitWords rest

end

mutual

/-- A repeated key keeps the place of the first and the value of the last, in every object. -/
def merged : Json → Json
  | .arr items => .arr (mergedItems items)
  | .obj ms => .obj (Keyed.merge (mergedMembers ms))
  | .null => .null
  | .bool b => .bool b
  | .int n => .int n
  | .float x => .float x
  | .str s => .str s

def mergedItems : List Json → List Json
  | [] => []
  | v :: rest => v.merged :: mergedItems rest

def mergedMembers : List (String × Json) → List (String × Json)
  | [] => []
  | (k, v) :: rest => (k, v.merged) :: mergedMembers rest

end

end Json

end ReadPlan
