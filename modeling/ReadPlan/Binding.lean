import ReadPlan.Error
import ReadPlan.Join.Demand
import ReadPlan.Plan.Basic

/-!
Binding references to columns. Following associations only reads the catalog, so whether a reference
is good, and which column it means, does not depend on the joins that were demanded before.
-/

namespace ReadPlan

inductive FragmentPolicy
  | allow | reject
  deriving DecidableEq

namespace FragmentPolicy

def name : FragmentPolicy → String
  | allow => "allow"
  | reject => "reject"

def named? : String → Option FragmentPolicy
  | "allow" => some allow
  | "reject" => some reject
  | _ => none

end FragmentPolicy

/-- What every part of a request is compiled against. -/
structure Frame where
  catalog : Catalog
  root : Entity
  policy : FragmentPolicy

namespace Catalog

def follow (c : Catalog) : (owner : String) → List String → Except QueryError (List Association)
  | _, [] => .ok []
  | owner, name :: rest =>
    match c.association? owner name with
    | none => .error (.unknownAssociation owner name)
    | some a =>
      match c.follow a.target rest with
      | .error e => .error e
      | .ok steps => .ok (a :: steps)

end Catalog

namespace Frame

def steps (f : Frame) (segments : List String) : Except QueryError (List Association) :=
  if segments.isEmpty then .error (.invalidRequest .emptyPath)
  else f.catalog.follow f.root.name segments

def reach (f : Frame) (segments : List String) : Except QueryError Entity := do
  match (← f.catalog.follow f.root.name segments).getLast? with
  | none => return f.root
  | some a =>
    match f.catalog.entity? a.target with
    | none => .error (.entityNotFound a.target)
    | some e => return e

def relation (f : Frame) (segments : List String) : String :=
  if segments.isEmpty then f.root.name else relationAlias segments

def bindField (f : Frame) (segments : List String) (field name : String) :
    Except QueryError FieldRef := do
  let e ← f.reach segments
  match e.field? field with
  | none => .error (.unknownField e.name field)
  | some x => return ⟨name, ⟨f.relation segments, x.column⟩⟩

def bind (f : Frame) (reference : String) : Except QueryError FieldRef :=
  let r := Reference.ofString reference
  f.bindField r.path r.field reference

def demandPath (f : Frame) (segments fields : List String) : List Demand :=
  match f.steps segments with
  | .ok steps => [⟨steps, fields⟩]
  | .error _ => []

def demand (f : Frame) (reference : String) : List Demand :=
  f.demandPath (Reference.ofString reference).path []

end Frame

/-- The relation that a filter applies to, by the associations that lead to it. -/
structure Scope where
  entity : Entity
  segments : List String

inductive Place
  | own (field : Field)
  | joined (segments : List String) (field : String)
  | association (segments : List String)

def isDotted (key : String) : Bool :=
  key.toList.contains '.'

namespace Frame

def rootScope (f : Frame) : Scope :=
  ⟨f.root, []⟩

/-- A dotted key is followed from the scope; it ends in a field, or, when a filter is nested under
it, in an association if there is one of that name. Any other key is a field of the scope, else an
association, else a field of the first associated entity that has it. -/
def locate (f : Frame) (s : Scope) (key : String) (isNested : Bool) : Except QueryError Place :=
  if isDotted key then
    let r := Reference.ofString key
    let segments := s.segments ++ r.path
    if isNested then do
      let owner ← f.reach segments
      if (f.catalog.association? owner.name r.field).isSome then
        return .association (segments ++ [r.field])
      else
        return .joined segments r.field
    else
      .ok (.joined segments r.field)
  else
    match s.entity.field? key with
    | some field => .ok (.own field)
    | none =>
      if (f.catalog.association? s.entity.name key).isSome then
        .ok (.association (s.segments ++ [key]))
      else
        match f.catalog.associationWithField? s.entity.name key with
        | some a => .ok (.joined (s.segments ++ [a.name]) key)
        | none => .error (.unknownField s.entity.name key)

/-- A field of a nested scope is recorded with the path that leads to it. -/
def ownName (s : Scope) (key : String) : String :=
  if s.segments.isEmpty then key else dottedPath s.segments ++ "." ++ key

end Frame

structure BoundField where
  field : FieldRef
  relation : Option String

namespace Frame

def bindPlace (f : Frame) (s : Scope) (key : String) : Place → Except QueryError BoundField
  | .own field =>
    let relation := f.relation s.segments
    .ok ⟨⟨ownName s key, ⟨relation, field.column⟩⟩,
      if s.segments.isEmpty then none else some relation⟩
  | .joined segments field => do
    let bound ← f.bindField segments field key
    return ⟨bound, some (f.relation segments)⟩
  | .association _ => .error (.unknownField s.entity.name key)

def demandPlace (f : Frame) : Place → List Demand
  | .own _ => []
  | .joined segments _ => f.demandPath segments []
  | .association _ => []

end Frame

end ReadPlan
