import ReadPlan.Binding
import ReadPlan.Json.Decode
import ReadPlan.Service.Records
import ReadPlan.Settings.Expansion
import ReadPlan.Toml.Document

namespace ReadPlan

inductive SettingsError
  | fileNotFound (path : String)
  | unreadable (reason : String)
  | malformed
  | missingVariable (name : String)
  | missingCatalog
  deriving DecidableEq

namespace SettingsError

def kind : SettingsError → String
  | fileNotFound _ => "FileNotFound"
  | unreadable _ => "ReadError"
  | malformed => "ParseError"
  | missingVariable _ => "MissingEnvVar"
  | missingCatalog => "MissingCatalog"

def message : SettingsError → String
  | fileNotFound path => "Config file not found: " ++ path
  | unreadable reason => "Failed to read config file: " ++ reason
  | malformed => "Failed to parse config file: "
  | missingVariable name => "Missing environment variable: " ++ name
  | missingCatalog => "No catalog path configured"

end SettingsError

structure Settings where
  catalogPath : Option String
  dialect : Dialect
  treeDepth : Nat
  rawFragments : FragmentPolicy
  logFilter : String
  deriving DecidableEq

namespace Settings

def default : Settings where
  catalogPath := none
  dialect := .postgres
  treeDepth := defaultTreeDepth
  rawFragments := .allow
  logFilter := "warn"

def choice? {α : Type} (named? : String → Option α) : Json → Option α
  | .str name => named? name
  | .obj [(name, .arr [])] => named? name
  | .obj [(name, .obj [])] => named? name
  | _ => none

def catalogSection? (v : Json) : Option (Option String) := do
  let field ← v.openRecord? ["path"]
  Json.optional? Json.string? (field "path")

def querySection? (v : Json) : Option (Dialect × Nat × FragmentPolicy) := do
  let field ← v.openRecord? ["dialect", "model_tree_depth", "raw_fragments"]
  let dialect ← Json.defaulted? default.dialect (choice? Dialect.named?) (field "dialect")
  let depth ← Json.defaulted? default.treeDepth Json.count? (field "model_tree_depth")
  let policy ← Json.defaulted? default.rawFragments (choice? FragmentPolicy.named?)
    (field "raw_fragments")
  return (dialect, depth, policy)

def logSection? (v : Json) : Option String := do
  let field ← v.openRecord? ["filter"]
  Json.defaulted? default.logFilter Json.string? (field "filter")

def ofDocument? (v : Json) : Option Settings := do
  let field ← v.openRecord? ["catalog", "query", "log"]
  let catalogPath ← Json.defaulted? none catalogSection? (field "catalog")
  let (dialect, treeDepth, rawFragments) ←
    Json.defaulted? (default.dialect, default.treeDepth, default.rawFragments) querySection?
      (field "query")
  let logFilter ← Json.defaulted? default.logFilter logSection? (field "log")
  return { catalogPath, dialect, treeDepth, rawFragments, logFilter }

def ofText (text : String) : Except SettingsError Settings :=
  match (Toml.read? text).bind ofDocument? with
  | some s => .ok s
  | none => .error .malformed

def expandedCatalogPath (s : Settings) (env : String → Option String) :
    Except SettingsError String :=
  match s.catalogPath with
  | none => .error .missingCatalog
  | some path =>
    match Expansion.expand env path with
    | .ok expanded => .ok expanded
    | .error name => .error (.missingVariable name)

def toJson (s : Settings) : Json :=
  .obj [
    ("catalog", .obj [("path", Json.ofOption .str s.catalogPath)]),
    ("query", .obj [("dialect", .str s.dialect.name), ("model_tree_depth", .int s.treeDepth),
      ("raw_fragments", .str s.rawFragments.name)]),
    ("log", .obj [("filter", .str s.logFilter)])]

end Settings

end ReadPlan
