import ReadPlan.Error
import ReadPlan.Catalog.Basic

namespace ReadPlan.Catalog

/-- The fields of an entity behind a beginning, then those of its associations; `trail` holds the
entities from the root to the parent, and `hops` bounds the associations still to follow. -/
def fieldsFrom (c : Catalog) (trail : List String) (entity : String) (before : String) :
    (hops : Nat) → List String
  | 0 =>
    match c.entity? entity with
    | none => []
    | some e => e.fieldNames.map (before ++ ·)
  | hops + 1 =>
    match c.entity? entity with
    | none => []
    | some e =>
      e.fieldNames.map (before ++ ·) ++ (c.associationsOf entity).flatMap fun a =>
        if (trail ++ [entity]).contains a.target then []
        else fieldsFrom c (trail ++ [entity]) a.target (before ++ a.name ++ ".") hops

def fieldPaths (c : Catalog) (entity : String) (depth : Nat) : Except QueryError (List String) :=
  if c.contains entity then .ok (fieldsFrom c [] entity "" depth)
  else .error (.entityNotFound entity)

end ReadPlan.Catalog
