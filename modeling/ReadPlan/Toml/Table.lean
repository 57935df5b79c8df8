import ReadPlan.Json.Basic

/-!
Tables under construction. A table may be written in several places as long as no place defines it
twice: headers open tables, dotted keys extend only tables that dotted keys made, and a table
written as a value is closed.
-/

namespace ReadPlan.Toml

inductive Origin
  /-- A table that only stands on the way to that of another header. -/
  | implicit
  | dotted
  | header
  deriving DecidableEq

inductive Node
  | value (v : Json)
  | table (origin : Origin) (entries : List (String × Node))
  | tables (closed : List (List (String × Node))) (last : List (String × Node))

abbrev Entries := List (String × Node)

namespace Entries

/-- Follows keys into tables, makes those that are missing, and changes the last one. Dotted keys do
not reach into a table that a header opened. -/
def descend (byDots : Bool) (change : Origin → Entries → Option Entries) :
    List String → Origin → Entries → Option Entries
  | [], origin, entries => change origin entries
  | key :: rest, _, entries =>
    match Keyed.get? key entries with
    | none => do
      let origin : Origin := if byDots then .dotted else .implicit
      let inner ← descend byDots change rest origin []
      return entries ++ [(key, .table origin inner)]
    | some (.table origin inner) =>
      if byDots && origin == .header then none
      else do
        let inner ← descend byDots change rest origin inner
        return Keyed.put key (.table origin inner) entries
    | some (.tables closed last) => do
      let last ← descend byDots change rest .header last
      return Keyed.put key (.tables closed last) entries
    | some (.value _) => none

def define (path : List String) (key : String) (v : Json) (origin : Origin) (entries : Entries) :
    Option Entries :=
  descend true
    (fun origin entries =>
      if (origin == .dotted) == path.isEmpty || (Keyed.get? key entries).isSome then none
      else some (entries ++ [(key, .value v)]))
    path origin entries

/-- Opens a table with a header; it may be on the way to another table but not defined before. -/
def openTable (key : String) (_ : Origin) (entries : Entries) : Option Entries :=
  match Keyed.get? key entries with
  | none => some (entries ++ [(key, .table .header [])])
  | some (.table .implicit inner) => some (Keyed.put key (.table .header inner) entries)
  | some _ => none

def openItem (key : String) (_ : Origin) (entries : Entries) : Option Entries :=
  match Keyed.get? key entries with
  | none => some (entries ++ [(key, .tables [] [])])
  | some (.tables closed last) => some (Keyed.put key (.tables (closed ++ [last]) []) entries)
  | some _ => none

end Entries

mutual

def Node.toJson : Node → Json
  | .value v => v
  | .table _ entries => .obj (entriesJson entries)
  | .tables closed last => .arr (tablesJson closed ++ [.obj (entriesJson last)])

def entriesJson : List (String × Node) → List (String × Json)
  | [] => []
  | (key, node) :: rest => (key, node.toJson) :: entriesJson rest

def tablesJson : List (List (String × Node)) → List Json
  | [] => []
  | entries :: rest => .obj (entriesJson entries) :: tablesJson rest

end

end ReadPlan.Toml
