import ReadPlan.Catalog.Document
import ReadPlan.Toml.Document

namespace ReadPlan.Catalog

def ofText (text : String) : Except CatalogError Catalog :=
  match Toml.read? text with
  | none => .error .malformed
  | some v => ofDocument v

end ReadPlan.Catalog
