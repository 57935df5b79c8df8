import ReadPlan.Catalog.Build
import ReadPlan.Json.Decode

/-!
Catalogs as documents: tables of entities with their associations, where tables, columns and keys
that are left out take their defaults. A document is a tree of values, whatever text it came from.
-/

namespace ReadPlan

structure AssociationEntry where
  name : String
  kind : String
  target : String
  sourceKey : Option String
  targetKey : Option String
  through : Option Junction

structure EntityEntry where
  entity : Entity
  associations : List AssociationEntry

namespace Catalog

def junction? (v : Json) : Option Junction := do
  let field ← v.openRecord? ["table", "schema", "source_fk", "target_fk"]
  let table ← Json.required? Json.string? (field "table")
  let schema ← Json.optional? Json.string? (field "schema")
  let sourceKey ← Json.required? Json.string? (field "source_fk")
  let targetKey ← Json.required? Json.string? (field "target_fk")
  return { table, schema, sourceKey, targetKey }

def associationEntry? (v : Json) : Option AssociationEntry := do
  let field ← v.openRecord? ["alias", "kind", "target", "source_key", "target_key", "through"]
  let name ← Json.required? Json.string? (field "alias")
  let kind ← Json.required? Json.string? (field "kind")
  let target ← Json.required? Json.string? (field "target")
  let sourceKey ← Json.optional? Json.string? (field "source_key")
  let targetKey ← Json.optional? Json.string? (field "target_key")
  let through ← Json.optional? junction? (field "through")
  return { name, kind, target, sourceKey, targetKey, through }

/-- A field is its bare name or a table; the column defaults to the name. Wherever an integer stands
in the table, it fits 64 bits. -/
def field? : Json → Option Field
  | .str name => some (.plain name)
  | v => do
    let field ← v.object? ["name", "column", "nullable"]
    let name ← Json.required? Json.string? (field "name")
    let column ← Json.optional? Json.string? (field "column")
    let nullable ← Json.defaulted? true Json.bool? (field "nullable")
    if v.fitsWords then some ⟨name, column.getD name, nullable⟩ else none

def entityEntry? (v : Json) : Option EntityEntry := do
  let field ← v.openRecord? ["name", "table", "schema", "primary_key", "fields", "association"]
  let name ← Json.required? Json.string? (field "name")
  let table ← Json.optional? Json.string? (field "table")
  let schema ← Json.optional? Json.string? (field "schema")
  let primaryKey ← Json.required? Json.string? (field "primary_key")
  let fields ← Json.defaulted? [] (Json.list? field?) (field "fields")
  let associations ← Json.defaulted? [] (Json.list? associationEntry?) (field "association")
  return ⟨⟨name, table.getD name, schema, primaryKey, fields⟩, associations⟩

def entries? (v : Json) : Option (List EntityEntry) := do
  let field ← v.openRecord? ["entity"]
  Json.defaulted? [] (Json.list? entityEntry?) (field "entity")

/-- The key at the "one" side names the column on both sides: the target's for `belongsTo`, the
owner's for `hasOne` and `hasMany`; a many-to-many association joins the two primary keys. -/
def defaultKeys (kind : AssociationKind) (ownerKey targetKey : String) : String × String :=
  match kind with
  | .belongsTo => (targetKey, targetKey)
  | .hasOne | .hasMany => (ownerKey, ownerKey)
  | .belongsToMany => (ownerKey, targetKey)

/-- The primary key declared for an entity, by the last declaration of that name. -/
def primaryKey? (entities : List Entity) (name : String) : Option String :=
  (entities.reverse.find? (·.name == name)).map (·.primaryKey)

def resolveEntry (entities : List Entity) (owner : Entity) (entry : AssociationEntry) :
    Except CatalogError Declaration :=
  match AssociationKind.ofText? entry.kind with
  | none => .error (.unsupportedKind entry.kind)
  | some kind =>
    match primaryKey? entities entry.target with
    | none => .error (.unknownTarget owner.name entry.name entry.target)
    | some targetKey =>
      let defaults := defaultKeys kind owner.primaryKey targetKey
      .ok (.association owner.name {
        name := entry.name
        source := owner.name
        target := entry.target
        kind
        sourceKey := entry.sourceKey.getD defaults.1
        targetKey := entry.targetKey.getD defaults.2
        through := entry.through })

/-- Kinds and targets of all associations are settled before the catalog is built. -/
def ofEntries (entries : List EntityEntry) : Except CatalogError Catalog := do
  let entities := entries.map (·.entity)
  let associations ← (entries.flatMap fun e => e.associations.map (e.entity, ·)).mapM
    fun (owner, entry) => resolveEntry entities owner entry
  build (entities.map .entity ++ associations)

def ofDocument (v : Json) : Except CatalogError Catalog :=
  match entries? v with
  | none => .error .malformed
  | some entries => ofEntries entries

end Catalog

end ReadPlan
