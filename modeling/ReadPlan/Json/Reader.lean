import ReadPlan.Json.Basic
import ReadPlan.Text.Reader

/-!
Reading JSON text. The tree keeps repeated keys: whether they matter is decided where it is used.
Parts that nobody asks for are skipped, and less is demanded of them: a number may be out of range,
a string may hold half of a pair, and they may be nested as deep as they like.
-/

namespace ReadPlan.Json

def isBlank (c : Char) : Bool :=
  c == ' ' || c == '\n' || c == '\t' || c == '\r'

def skipBlanks (s : List Char) : Remainder s :=
  Text.skipWhile isBlank s

def pairChar? (high low : Nat) : Option Char :=
  if 0xd800 ≤ high ∧ high ≤ 0xdbff ∧ 0xdc00 ≤ low ∧ low ≤ 0xdfff then
    some (Char.ofNat (0x10000 + (high - 0xd800) * 0x400 + (low - 0xdc00)))
  else
    none

def shortEscape? (c : Char) : Option Char :=
  match c with
  | '"' => some '"'
  | '\\' => some '\\'
  | '/' => some '/'
  | 'b' => some '\x08'
  | 'f' => some '\x0c'
  | 'n' => some '\n'
  | 'r' => some '\r'
  | 't' => some '\t'
  | _ => none

/-- The rest of a string after its opening quote. A character beyond sixteen bits is escaped as a
pair of units, and half a pair is refused. -/
def stringBody : (s : List Char) → Option (List Char × Rest s)
  | [] => none
  | '"' :: r => some ([], .past '"' [] r)
  | '\\' :: 'u' :: a :: b :: c :: d :: r =>
    match Text.hexNumber? [a, b, c, d] with
    | none => none
    | some u =>
      match Text.scalarChar? u with
      | some x => do
        let (cs, t) ← stringBody r
        return (x :: cs, t.behindAll '\\' ['u', a, b, c, d])
      | none =>
        match r with
        | '\\' :: 'u' :: a' :: b' :: c' :: d' :: r' => do
          let x ← pairChar? u (← Text.hexNumber? [a', b', c', d'])
          let (cs, t) ← stringBody r'
          return (x :: cs,
            (t.behindAll '\\' ['u', a', b', c', d']).behindAll '\\' ['u', a, b, c, d])
        | _ => none
  | '\\' :: c :: r => do
    let x ← shortEscape? c
    let (cs, t) ← stringBody r
    return (x :: cs, (t.behind c).behind '\\')
  | c :: r =>
    if c.toNat < 32 || c == '\\' then none
    else do
      let (cs, t) ← stringBody r
      return (c :: cs, t.behind c)

def string : Reader String
  | '"' :: r => do
    let (cs, t) ← stringBody r
    return (String.ofList cs, t.behind '"')
  | _ => none

def skipBody : (s : List Char) → Option (Rest s)
  | [] => none
  | '"' :: r => some (.past '"' [] r)
  | '\\' :: 'u' :: a :: b :: c :: d :: r =>
    if (Text.hexNumber? [a, b, c, d]).isSome then do
      let t ← skipBody r
      return t.behindAll '\\' ['u', a, b, c, d]
    else
      none
  | '\\' :: c :: r =>
    if (shortEscape? c).isSome then do
      let t ← skipBody r
      return (t.behind c).behind '\\'
    else
      none
  | c :: r =>
    if c.toNat < 32 || c == '\\' then none
    else do
      let t ← skipBody r
      return t.behind c

def skipString : Reader Unit
  | '"' :: r => do
    let t ← skipBody r
    return ((), t.behind '"')
  | _ => none

structure NumberText where
  negative : Bool
  whole : List Char
  fraction : Option (List Char)
  exponent : Option Int

/-- The digits that 64 bits take in after those that are there, and the digits that are left. -/
def takeDigits (n : Nat) : List Char → Nat × List Char
  | [] => (n, [])
  | c :: cs =>
    let more := 10 * n + (c.toNat - '0'.toNat)
    if more < 0x10000000000000000 then takeDigits more cs else (n, c :: cs)

/-- Digits before the point that are too many scale the number, and those after it are dropped. The
float is near to the number, but it is not always the nearest. -/
def NumberText.float? (t : NumberText) : Option Json :=
  let fraction := t.fraction.getD []
  let (whole, beyond) := takeDigits 0 t.whole
  let (digits, dropped) := takeDigits whole fraction
  let places : Int := fraction.length - dropped.length
  let x := Binary64.ofDigits t.negative digits (t.exponent.getD 0 + beyond.length - places)
  if x.isFinite then some (.float x) else none

/-- A number without point and exponent is an integer where 64 bits hold it, signed or not; every
other number is a float, `-0` among them. None beyond the range of floats. -/
def NumberText.value? (t : NumberText) : Option Json :=
  let n := Text.digitsValue t.whole
  if t.fraction.isSome || t.exponent.isSome then t.float?
  else if t.negative then
    if n = 0 ∨ 0x8000000000000000 < n then t.float? else some (.int (-n))
  else
    if n < 0x10000000000000000 then some (.int n) else t.float?

def digitRun (s : List Char) : List Char × Remainder s :=
  (s.takeWhile Char.isDigit, ⟨s.dropWhile Char.isDigit, (List.dropWhile_sublist _).length_le⟩)

def fractionPart (s : List Char) :
    Option (Option (List Char) × Remainder s) :=
  match s with
  | '.' :: t =>
    match digitRun t with
    | ([], _) => none
    | (ds, r) => some (some ds, (r.behind '.').weak)
  | s => some (none, .all s)

def exponentDigits (negative : Bool) (s : List Char) :
    Option (Int × Remainder s) :=
  match digitRun s with
  | ([], _) => none
  | (ds, r) => some (if negative then -(Text.digitsValue ds : Int) else Text.digitsValue ds, r)

def exponentPart (s : List Char) :
    Option (Option Int × Remainder s) :=
  match s with
  | c :: t =>
    if c == 'e' || c == 'E' then
      match t with
      | '-' :: u => do
        let (n, r) ← exponentDigits true u
        return (some n, ((r.behind '-').behind c).weak)
      | '+' :: u => do
        let (n, r) ← exponentDigits false u
        return (some n, ((r.behind '+').behind c).weak)
      | u => do
        let (n, r) ← exponentDigits false u
        return (some n, (r.behind c).weak)
    else
      some (none, .all (c :: t))
  | [] => some (none, .all [])

def unsigned (negative : Bool) : Reader NumberText := fun s =>
  match s with
  | [] => none
  | c :: t =>
    if !c.isDigit then none
    else
      let (ds, ⟨r, h⟩) := if c == '0' then ([], .all t) else digitRun t
      if c == '0' && (r.headD ' ').isDigit then none
      else do
        let (fraction, ⟨r₁, h₁⟩) ← fractionPart r
        let (exponent, r₂) ← exponentPart r₁
        return (⟨negative, c :: ds, fraction, exponent⟩, ((r₂.upTo h₁).upTo h).behind c)

def numberText : Reader NumberText := fun s =>
  match s with
  | '-' :: t => do
    let (x, r) ← unsigned true t
    return (x, r.behind '-')
  | s => unsigned false s

def number : Reader Json := fun s => do
  let (x, r) ← numberText s
  return (← x.value?, r)

def word : Reader Json := fun s =>
  match s with
  | 'n' :: 'u' :: 'l' :: 'l' :: r => some (.null, .past 'n' ['u', 'l', 'l'] r)
  | 't' :: 'r' :: 'u' :: 'e' :: r => some (.bool true, .past 't' ['r', 'u', 'e'] r)
  | 'f' :: 'a' :: 'l' :: 's' :: 'e' :: r =>
    some (.bool false, .past 'f' ['a', 'l', 's', 'e'] r)
  | _ => none

def moreItems {α : Type} (item : Nat → Reader α) (n : Nat) (s : List Char) :
    Option (List α × Rest s) :=
  match skipBlanks s with
  | ⟨[], _⟩ => none
  | ⟨c :: r, h⟩ =>
    if c == ']' then
      some ([], (Rest.past c [] r).upTo h)
    else if c == ',' then do
      let ⟨r₁, h₁⟩ := skipBlanks r
      let (v, ⟨r₂, h₂⟩) ← item n r₁
      let (vs, r₃) ← moreItems item (n + 1) r₂
      return (v :: vs, (((r₃.within h₂).upTo h₁).behind c).upTo h)
    else
      none
termination_by s.length
decreasing_by simp only [List.length_cons] at h; omega

def items {α : Type} (item : Nat → Reader α) : Reader (List α) := fun s =>
  match skipBlanks s with
  | ⟨']' :: r, h⟩ => some ([], (Rest.past ']' [] r).upTo h)
  | start => do
    let (v, ⟨r₁, h₁⟩) ← item 0 start.val
    let (vs, r₂) ← moreItems item 1 r₁
    return (v :: vs, (r₂.within h₁).upTo start.property)

def member {κ α : Type} (key : Reader κ) (item : κ → Reader α) : Reader (κ × α) := fun s => do
  let (k, ⟨r₁, h₁⟩) ← key s
  match skipBlanks r₁ with
  | ⟨':' :: r₂, h₂⟩ =>
    let ⟨r₃, h₃⟩ := skipBlanks r₂
    let (v, r₄) ← item k r₃
    return ((k, v), (((r₄.upTo h₃).behind ':').upTo h₂).within h₁)
  | _ => none

def moreMembers {κ α : Type} (key : Reader κ) (item : κ → Reader α) (s : List Char) :
    Option (List (κ × α) × Rest s) :=
  match skipBlanks s with
  | ⟨[], _⟩ => none
  | ⟨c :: r, h⟩ =>
    if c == '}' then
      some ([], (Rest.past c [] r).upTo h)
    else if c == ',' then do
      let ⟨r₁, h₁⟩ := skipBlanks r
      let (m, ⟨r₂, h₂⟩) ← member key item r₁
      let (ms, r₃) ← moreMembers key item r₂
      return (m :: ms, (((r₃.within h₂).upTo h₁).behind c).upTo h)
    else
      none
termination_by s.length
decreasing_by simp only [List.length_cons] at h; omega

def members {κ α : Type} (key : Reader κ) (item : κ → Reader α) : Reader (List (κ × α)) := fun s =>
  match skipBlanks s with
  | ⟨'}' :: r, h⟩ => some ([], (Rest.past '}' [] r).upTo h)
  | start => do
    let (m, ⟨r₁, h₁⟩) ← member key item start.val
    let (ms, r₂) ← moreMembers key item r₁
    return (m :: ms, (r₂.within h₁).upTo start.property)

def skipNested (depth : Nat) : Reader Unit := fun s =>
  match s with
  | '"' :: r => skipString ('"' :: r)
  | '[' :: r =>
    match depth with
    | 0 => none
    | depth + 1 => do
      let (_, t) ← items (fun _ => skipNested depth) r
      return ((), t.behind '[')
  | '{' :: r =>
    match depth with
    | 0 => none
    | depth + 1 => do
      let (_, t) ← members skipString (fun _ => skipNested depth) r
      return ((), t.behind '{')
  | s => (word.map fun _ => ()) s <|> (numberText.map fun _ => ()) s

def skip : Reader Unit := fun s =>
  skipNested s.length s

/-- What is read of a value. -/
inductive Scope
  | whole
  /-- Of an object only the members of these names are read, and the others are skipped; the items
  of an array are read as the members are, in their order. -/
  | record (fields : List (String × Scope))

namespace Scope

def member? : Scope → String → Option Scope
  | whole, _ => some whole
  | record fields, key => Keyed.get? key fields

def item : Scope → Nat → Scope
  | whole, _ => whole
  | record fields, n => (fields[n]?.map (·.2)).getD whole

end Scope

def valueOf (value : Scope → Reader Json) (scope : Scope) (key : String) : Reader (Option Json) :=
  match scope.member? key with
  | some inner => (value inner).map some
  | none => skip.map fun _ => none

def value (depth : Nat) (scope : Scope) : Reader Json := fun s =>
  match s with
  | '"' :: r => string.map .str ('"' :: r)
  | '[' :: r =>
    match depth with
    | 0 => none
    | depth + 1 => do
      let (vs, t) ← items (fun n => value depth (scope.item n)) r
      return (.arr vs, t.behind '[')
  | '{' :: r =>
    match depth with
    | 0 => none
    | depth + 1 => do
      let (ms, t) ← members string (valueOf (value depth) scope) r
      return (.obj (ms.filterMap fun (key, v) => v.map (key, ·)), t.behind '{')
  | s => word s <|> number s

def nestingLimit : Nat := 127

def read? (scope : Scope) (text : String) : Option Json := do
  let (v, ⟨r, _⟩) ← value nestingLimit scope (skipBlanks text.toList)
  match skipBlanks r with
  | ⟨[], _⟩ => some v
  | _ => none

end ReadPlan.Json
