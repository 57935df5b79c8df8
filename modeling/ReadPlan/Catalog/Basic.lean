import ReadPlan.Text.Case

/-!
The catalog: entities with their fields and storage columns, and the associations between them. It
is read by name; all names are free text.
-/

namespace ReadPlan

inductive AssociationKind
  | belongsTo | hasOne | hasMany | belongsToMany
  deriving DecidableEq

namespace AssociationKind

def name : AssociationKind → String
  | belongsTo => "belongs_to"
  | hasOne => "has_one"
  | hasMany => "has_many"
  | belongsToMany => "belongs_to_many"

/-- Case, underscores and hyphens do not count. -/
def ofText? (s : String) : Option AssociationKind :=
  match Text.lower (String.ofList (s.toList.filter fun c => c != '_' && c != '-')) with
  | "belongsto" => some belongsTo
  | "hasone" => some hasOne
  | "hasmany" => some hasMany
  | "belongstomany" | "manytomany" => some belongsToMany
  | _ => none

end AssociationKind

structure Field where
  name : String
  column : String
  nullable : Bool
  deriving DecidableEq

structure Entity where
  name : String
  table : String
  schema : Option String
  primaryKey : String
  fields : List Field
  deriving DecidableEq

/-- The table between the two ends of a many-to-many association. -/
structure Junction where
  table : String
  schema : Option String
  sourceKey : String
  targetKey : String
  deriving DecidableEq

/-- Source and target rows are partners when their keys are equal, or, for a many-to-many
association, when some junction row holds both keys. -/
structure Association where
  name : String
  source : String
  target : String
  kind : AssociationKind
  sourceKey : String
  targetKey : String
  through : Option Junction
  deriving DecidableEq

structure Catalog where
  entities : List Entity
  associations : List Association
  deriving DecidableEq

def Field.plain (name : String) : Field :=
  ⟨name, name, true⟩

namespace Entity

def field? (e : Entity) (name : String) : Option Field :=
  e.fields.find? (·.name == name)

def hasField (e : Entity) (name : String) : Bool :=
  (e.field? name).isSome

def fieldNames (e : Entity) : List String :=
  e.fields.map (·.name)

/-- The storage column of a field; an unknown field stands for its own name. -/
def columnOf (e : Entity) (name : String) : String :=
  match e.field? name with
  | some f => f.column
  | none => name

end Entity

namespace Catalog

def entity? (c : Catalog) (name : String) : Option Entity :=
  c.entities.find? (·.name == name)

def contains (c : Catalog) (name : String) : Bool :=
  (c.entity? name).isSome

def associationsOf (c : Catalog) (entity : String) : List Association :=
  c.associations.filter (·.source == entity)

def association? (c : Catalog) (entity name : String) : Option Association :=
  (c.associationsOf entity).find? (·.name == name)

def targetHasField (c : Catalog) (a : Association) (field : String) : Bool :=
  match c.entity? a.target with
  | some target => target.hasField field
  | none => false

/-- The first association of the entity whose target has the field. -/
def associationWithField? (c : Catalog) (entity field : String) : Option Association :=
  (c.associationsOf entity).find? fun a => c.targetHasField a field

end Catalog

end ReadPlan
