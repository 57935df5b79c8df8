import ReadPlan.Catalog.File
import ReadPlan.CommandLine.Arguments
import ReadPlan.Plan.Document
import ReadPlan.Request.Document
import ReadPlan.Schema.FieldPaths
import ReadPlan.Settings.Basic

namespace ReadPlan.CommandLine

inductive FileContent
  | absent (reason : String)
  | unreadable (reason : String)
  | text (s : String)

structure Host (m : Type → Type) where
  file : (path : String) → m FileContent
  lookup : (name : String) → m (Option String)

structure Outcome where
  code : Nat
  output : String
  errors : String
  deriving DecidableEq

inductive Fault
  | settings (error : SettingsError)
  | unreadableCatalog (path reason : String)
  | catalog (path : String) (error : CatalogError)
  | unreadableRequest (file reason : String)
  | malformedRequest
  | compilation (error : QueryError)
  | rendering (error : QueryError)
  | introspection (error : QueryError)

namespace Fault

def report (title : String) (e : QueryError) : String :=
  title ++ " [" ++ e.kind ++ "]: " ++ e.message

def message : Fault → String
  | settings e => "Config error: " ++ e.message
  | unreadableCatalog path reason =>
    "Error loading catalog '" ++ path ++ "': Failed to read catalog file " ++ path ++ ": " ++ reason
  | catalog path e => "Error loading catalog '" ++ path ++ "': " ++ e.message
  | unreadableRequest file reason => "Error reading file '" ++ file ++ "': " ++ reason
  | malformedRequest => "Invalid request: Invalid request: "
  | compilation e => report "Compilation error" e
  | rendering e => report "Render error" e
  | introspection e => "Error: " ++ e.message

end Fault

def version : String := "quarry 0.1.0"

def usage : String :=
  "Usage: quarry [OPTIONS] <COMMAND>\n"

namespace Outcome

def success (output : String) : Outcome :=
  ⟨0, output, ""⟩

def failure (fault : Fault) : Outcome :=
  ⟨1, "", fault.message ++ "\n"⟩

def misuse : Outcome :=
  ⟨2, "", usage⟩

end Outcome

section Host

variable {m : Type → Type} [Monad m]

def Host.environment (host : Host m) (names : List String) : m (String → Option String) := do
  let values ← names.mapM host.lookup
  return fun name => (Keyed.get? name (names.zip values)).join

def settingsFrom (host : Host m) (path : String) : ExceptT Fault m Settings := do
  match ← host.file path with
  | .absent _ => throw (.settings (.fileNotFound path))
  | .unreadable reason => throw (.settings (.unreadable reason))
  | .text s =>
    match Settings.ofText s with
    | .ok settings => return settings
    | .error e => throw (.settings e)

/-- The settings in the first of the files that is there, and the default settings without any. -/
def searchSettings (host : Host m) : List String → ExceptT Fault m Settings
  | [] => return .default
  | path :: more => do
    match ← host.file path with
    | .absent _ => searchSettings host more
    | _ => settingsFrom host path

def settingsPaths (home : Option String) : List String :=
  "quarry.toml" :: (home.map (· ++ "/.config/quarry/config.toml")).toList

/-- A file that the arguments or the environment name has to be there. -/
def settings (host : Host m) (config : Option String) : ExceptT Fault m Settings := do
  match config.or (← host.lookup "QUARRY_CONFIG") with
  | some path => settingsFrom host path
  | none => searchSettings host (settingsPaths (← host.lookup "HOME"))

def catalogPath (host : Host m) (s : Settings) : ExceptT Fault m String := do
  let env ← host.environment (Expansion.names (s.catalogPath.getD ""))
  match s.expandedCatalogPath env with
  | .ok path => return path
  | .error e => throw (.settings e)

def loadCatalog (host : Host m) (path : String) : ExceptT Fault m Catalog := do
  match ← host.file path with
  | .absent reason | .unreadable reason => throw (.unreadableCatalog path reason)
  | .text s =>
    match Catalog.ofText s with
    | .ok c => return c
    | .error e => throw (.catalog path e)

def readRequest (host : Host m) (file : String) : ExceptT Fault m Request := do
  match ← host.file file with
  | .absent reason | .unreadable reason => throw (.unreadableRequest file reason)
  | .text s =>
    match Request.ofText? s with
    | some r => return r
    | none => throw .malformedRequest

end Host

def orFault {m : Type → Type} [Monad m] {ε α : Type} (fault : ε → Fault) :
    Except ε α → ExceptT Fault m α
  | .ok a => return a
  | .error e => throw (fault e)

def lines (ls : List String) : String :=
  String.join (ls.map (· ++ "\n"))

def statementsText (file : String) (d : Dialect) (rows count : String) : String :=
  lines [
    "-- Quarry rows statement",
    "-- Source: " ++ file,
    "-- Dialect: " ++ d.title,
    rows ++ ";",
    "",
    "-- Quarry count statement",
    count ++ ";"]

section Host

variable {m : Type → Type} [Monad m]

def Command.output (host : Host m) (s : Settings) (c : Catalog) (d : Dialect) :
    Command → ExceptT Fault m String
  | .plan file => do
    let r ← readRequest host file
    let plan ← orFault .compilation (Plan.ofRequest c s.rawFragments r)
    return lines [plan.toJson.pretty]
  | .sql file => do
    let r ← readRequest host file
    let plan ← orFault .compilation (Plan.ofRequest c s.rawFragments r)
    let rows ← orFault .rendering (plan.rowsStatement c d)
    let count ← orFault .rendering (plan.totalStatement c d)
    return statementsText file d rows count
  | .tree depth => return lines [(Json.arr ((c.forest depth).map SchemaTree.toJson)).pretty]
  | .fields entity depth => do
    let paths ← orFault .introspection (c.fieldPaths entity depth)
    return lines paths

def runCommand (host : Host m) (given : Given) (command : Command) : ExceptT Fault m String := do
  let s ← settings host given.config
  let path ← match given.catalog with
    | some path => pure path
    | none => catalogPath host s
  let c ← loadCatalog host path
  command.output host s c (given.dialect.getD s.dialect)

def run (host : Host m) (args : List String) : m Outcome := do
  match Invocation.ofArguments? args with
  | none => return .misuse
  | some .version => return .success (lines [version])
  | some (.run given command) =>
    match ← (runCommand host given command).run with
    | .ok output => return .success output
    | .error fault => return .failure fault

end Host

end ReadPlan.CommandLine
