import ReadPlan.Catalog.Basic

namespace ReadPlan

inductive CatalogError
  | malformed
  | duplicateEntity (name : String)
  | duplicateMember (entity member : String)
  | unknownTarget (entity association target : String)
  | unknownKey (entity association key owner : String)
  | unsupportedKind (text : String)
  | missingThrough (entity association : String)
  deriving DecidableEq

namespace CatalogError

def kind : CatalogError → String
  | malformed => "ParseError"
  | duplicateEntity _ => "DuplicateEntity"
  | duplicateMember .. => "DuplicateMember"
  | unknownTarget .. => "UnknownTarget"
  | unknownKey .. => "UnknownKey"
  | unsupportedKind _ => "UnsupportedAssociationKind"
  | missingThrough .. => "MissingThrough"

def message : CatalogError → String
  | malformed => "Failed to parse catalog: "
  | duplicateEntity name => "Entity " ++ name ++ " is declared more than once"
  | duplicateMember entity member =>
    "Entity " ++ entity ++ " declares " ++ member ++ " more than once"
  | unknownTarget entity association target =>
    "Association " ++ association ++ " on " ++ entity ++ " targets unknown entity " ++ target
  | unknownKey entity association key owner =>
    "Association " ++ association ++ " on " ++ entity ++ " references unknown key " ++ key ++
      " on " ++ owner
  | unsupportedKind text => "Unsupported association kind: " ++ text
  | missingThrough entity association =>
    "Association " ++ association ++ " on " ++ entity ++
      " is many-to-many but declares no through table"

end CatalogError

inductive Declaration
  | entity (entity : Entity)
  | association (owner : String) (association : Association)

namespace Catalog

def firstRepeat? : List String → List String → Option String
  | _, [] => none
  | seen, x :: rest => if seen.contains x then some x else firstRepeat? (x :: seen) rest

def admitEntity (done : List Entity) (e : Entity) : Except CatalogError (List Entity) :=
  if done.any (·.name == e.name) then
    .error (.duplicateEntity e.name)
  else
    match firstRepeat? [] e.fieldNames with
    | some field => .error (.duplicateMember e.name field)
    | none => .ok (done ++ [e])

/-- The ends are looked up first, then the keys on them, then the junction. -/
def checkAssociation (c : Catalog) (a : Association) : Except CatalogError Unit :=
  match c.entity? a.source, c.entity? a.target with
  | none, _ => .error (.unknownTarget a.source a.name a.source)
  | some _, none => .error (.unknownTarget a.source a.name a.target)
  | some source, some target =>
    if !source.hasField a.sourceKey then
      .error (.unknownKey a.source a.name a.sourceKey source.name)
    else if !target.hasField a.targetKey then
      .error (.unknownKey a.source a.name a.targetKey target.name)
    else if a.kind = .belongsToMany ∧ a.through.isNone then
      .error (.missingThrough a.source a.name)
    else
      .ok ()

def admitAssociation (c : Catalog) (a : Association) : Except CatalogError Catalog :=
  match c.checkAssociation a with
  | .error e => .error e
  | .ok () =>
    if (c.associationsOf a.source).any (·.name == a.name) then
      .error (.duplicateMember a.source a.name)
    else
      .ok { c with associations := c.associations ++ [a] }

def declaredEntities (ds : List Declaration) : List Entity :=
  ds.filterMap fun
    | .entity e => some e
    | .association .. => none

def declaredAssociations (ds : List Declaration) : List Association :=
  ds.filterMap fun
    | .entity _ => none
    | .association owner a => some { a with source := owner }

/-- Entities are admitted first, so an association may refer to one that is declared later. -/
def build (ds : List Declaration) : Except CatalogError Catalog := do
  let entities ← (declaredEntities ds).foldlM admitEntity []
  (declaredAssociations ds).foldlM admitAssociation ⟨entities, []⟩

end Catalog

end ReadPlan
