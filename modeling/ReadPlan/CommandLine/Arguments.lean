import ReadPlan.Sql.Dialect
import ReadPlan.Text.Reader

namespace ReadPlan.CommandLine

inductive Switch
  | catalog | config | dialect | depth
  deriving DecidableEq

def Switch.name : Switch → String
  | catalog => "catalog"
  | config => "config"
  | dialect => "dialect"
  | depth => "depth"

def Switch.shared : List Switch :=
  [catalog, config, dialect]

inductive Argument
  | ending
  | named (name : String) (value : Option String)
  | letters (first : Char) (rest : List Char)
  | word (text : String)

def Argument.ofString (s : String) : Argument :=
  match s.toList with
  | ['-', '-'] => .ending
  | '-' :: '-' :: cs =>
    let value := match cs.dropWhile (· != '=') with
      | [] => none
      | _ :: value => some (String.ofList value)
    .named (String.ofList (cs.takeWhile (· != '='))) value
  | '-' :: c :: cs => .letters c cs
  | _ => .word s

namespace Argument

def switch? (known : List Switch) : Argument → Option (Switch × Option String)
  | .named name value => (known.find? (·.name == name)).map fun s => (s, value)
  | .letters 'd' [] => some (.dialect, none)
  | .letters 'd' ('=' :: value) => some (.dialect, some (String.ofList value))
  | .letters 'd' value => some (.dialect, some (String.ofList value))
  | _ => none

def asksVersion : Argument → Bool
  | .named "version" none => true
  | .letters 'V' _ => true
  | _ => false

def word? : Argument → Option String
  | .word text => some text
  | _ => none

end Argument

def path? (s : String) : Option String :=
  if s.isEmpty then none else some s

def count? (s : String) : Option Nat :=
  let digits := match s.toList with
    | '+' :: ds => ds
    | ds => ds
  let n := Text.digitsValue digits
  if digits.isEmpty || !digits.all Char.isDigit || 0x10000000000000000 ≤ n then none else some n

structure Given where
  catalog : Option String
  config : Option String
  dialect : Option Dialect
  depth : Option Nat
  deriving DecidableEq

namespace Given

def nothing : Given :=
  ⟨none, none, none, none⟩

def once? {α : Type} (before value : Option α) : Option (Option α) :=
  if before.isSome || value.isNone then none else some value

def set? (g : Given) (s : Switch) (text : String) : Option Given :=
  match s with
  | .catalog => do return { g with catalog := ← once? g.catalog (path? text) }
  | .config => do return { g with config := ← once? g.config (path? text) }
  | .dialect => do return { g with dialect := ← once? g.dialect (Dialect.named? text) }
  | .depth => do return { g with depth := ← once? g.depth (count? text) }

/-- The values given after the command go before those given in front of it. -/
def orElse (after before : Given) : Given where
  catalog := after.catalog.or before.catalog
  config := after.config.or before.config
  dialect := after.dialect.or before.dialect
  depth := after.depth.or before.depth

/-- Records the option that an argument names. Its value stands in the same argument or is the word
after it; what follows comes back. -/
def take? (known : List Switch) (g : Given) (a : Argument) (rest : List String) :
    Option (Given × { r : List String // r.length ≤ rest.length }) :=
  match a.switch? known, rest with
  | some (s, some value), rest => do return (← g.set? s value, ⟨rest, Nat.le_refl _⟩)
  | some (s, none), next :: r => do
    let value ← (Argument.ofString next).word?
    return (← g.set? s value, ⟨r, Nat.le_succ _⟩)
  | _, _ => none

def withWords? (known : List Switch) (g : Given) (args : List String) :
    Option (Given × List String) :=
  match args with
  | [] => some (g, [])
  | arg :: rest =>
    match Argument.ofString arg with
    | .word text => do
      let (g, words) ← withWords? known g rest
      return (g, text :: words)
    | .ending => some (g, rest)
    | a => do
      let (g, ⟨r, _⟩) ← g.take? known a rest
      withWords? known g r
termination_by args.length
decreasing_by
  · simp
  · simp only [List.length_cons]
    omega

end Given

inductive Command
  | plan (file : String)
  | sql (file : String)
  | tree (depth : Nat)
  | fields (entity : String) (depth : Nat)
  deriving DecidableEq

def defaultDepth : Nat := 1

def Command.ofArguments? (name : String) (args : List String) : Option (Given × Command) :=
  match name with
  | "plan" => do
    match ← Given.withWords? Switch.shared .nothing args with
    | (g, [file]) => return (g, .plan (← path? file))
    | _ => none
  | "sql" => do
    match ← Given.withWords? Switch.shared .nothing args with
    | (g, [file]) => return (g, .sql (← path? file))
    | _ => none
  | "tree" => do
    match ← Given.withWords? (.depth :: Switch.shared) .nothing args with
    | (g, []) => return (g, .tree (g.depth.getD defaultDepth))
    | _ => none
  | "fields" => do
    match ← Given.withWords? (.depth :: Switch.shared) .nothing args with
    | (g, [entity]) => return (g, .fields entity (g.depth.getD defaultDepth))
    | _ => none
  | _ => none

inductive Invocation
  | version
  | run (options : Given) (command : Command)
  deriving DecidableEq

namespace Invocation

def ofRest? (g : Given) (args : List String) : Option Invocation :=
  match args with
  | [] => none
  | arg :: rest =>
    match Argument.ofString arg with
    | .word name => do
      let (after, command) ← Command.ofArguments? name rest
      return .run (after.orElse g) command
    | a =>
      if a.asksVersion then some .version
      else do
        let (g, ⟨r, _⟩) ← g.take? Switch.shared a rest
        ofRest? g r
termination_by args.length
decreasing_by
  simp only [List.length_cons]
  omega

def ofArguments? (args : List String) : Option Invocation :=
  ofRest? .nothing args

end Invocation

end ReadPlan.CommandLine
