import ReadPlan.Toml.Quoted
import ReadPlan.Toml.Scalar
import ReadPlan.Toml.Table

/-!
Reading TOML documents. A document is the same kind of tree as a JSON value: tables become objects
and arrays of tables become arrays.
-/

namespace ReadPlan.Toml

def filler (inComment : Bool) : (s : List Char) → Option (Remainder s)
  | [] => some (.all [])
  | '\n' :: r => do
    let t ← filler false r
    return (t.behind '\n').weak
  | '\r' :: '\n' :: r => do
    let t ← filler false r
    return ((t.behind '\n').behind '\r').weak
  | c :: r =>
    if inComment then
      if isLineChar c then do
        let t ← filler true r
        return (t.behind c).weak
      else
        none
    else if c == '#' || isBlank c then do
      let t ← filler (c == '#') r
      return (t.behind c).weak
    else
      some (.all (c :: r))

def endsLine (s : List Char) : Bool :=
  match s.dropWhile isBlank with
  | [] => true
  | '#' :: _ => true
  | r => restIsBlank r

def isBareKeyChar (c : Char) : Bool :=
  c.isAlphanum || c == '_' || c == '-'

def bareKey : Reader String := fun s =>
  match s with
  | [] => none
  | c :: r =>
    if isBareKeyChar c then
      some (String.ofList (c :: r.takeWhile isBareKeyChar),
        (Text.skipWhile isBareKeyChar r).behind c)
    else
      none

def simpleKey : Reader String := fun s =>
  match s with
  | '"' :: r => lineString ('"' :: r)
  | '\'' :: r => lineString ('\'' :: r)
  | s => bareKey s

def dottedKey (s : List Char) : Option ((List String × String) × Rest s) := do
  let (part, ⟨r₁, h₁⟩) ← simpleKey s
  match Text.skipWhile isBlank r₁ with
  | ⟨[], h₂⟩ => return (([], part), Remainder.within ⟨[], h₂⟩ h₁)
  | ⟨c :: r₂, h₂⟩ =>
    if c == '.' then
      let ⟨r₃, h₃⟩ := Text.skipWhile isBlank r₂
      let ((path, key), r₄) ← dottedKey r₃
      return ((part :: path, key), (((r₄.upTo h₃).behind c).upTo h₂).within h₁)
    else
      return (([], part), Remainder.within ⟨c :: r₂, h₂⟩ h₁)
termination_by s.length
decreasing_by simp only [List.length_cons] at h₂; omega

/-- How many parts a key may have, and how deep arrays and tables in braces may be nested. -/
def nestingLimit : Nat := 80

def key : Reader (List String × String) := fun s => do
  let (k, r) ← dottedKey s
  if k.1.length < nestingLimit then some (k, r) else none

abbrev Gap := (s : List Char) → Option (Remainder s)

def lineGap : Gap := fun s =>
  some (Text.skipWhile isBlank s)

def assignment (gap : Gap) (value : Reader Json) : Reader ((List String × String) × Json) :=
  fun s => do
    let (k, ⟨r₁, h₁⟩) ← key s
    match ← gap r₁ with
    | ⟨'=' :: r₂, h₂⟩ =>
      let ⟨r₃, h₃⟩ ← gap r₂
      let (v, r₄) ← value r₃
      return ((k, v), (((r₄.upTo h₃).behind '=').upTo h₂).within h₁)
    | _ => none

def items {α : Type} (close : Char) (item : Reader α) (s : List Char) :
    Option (List α × Rest s) := do
  match ← filler false s with
  | ⟨[], _⟩ => none
  | ⟨c :: r, h⟩ =>
    if c == close then
      return ([], (Rest.past c [] r).upTo h)
    else
      let (x, ⟨r₁, h₁⟩) ← item (c :: r)
      match ← filler false r₁ with
      | ⟨[], _⟩ => none
      | ⟨d :: r₂, h₂⟩ =>
        if d == close then
          return ([x], (((Rest.past d [] r₂).upTo h₂).within h₁).upTo h)
        else if d == ',' then
          let (xs, r₃) ← items close item r₂
          return (x :: xs, (((r₃.behind d).upTo h₂).within h₁).upTo h)
        else
          none
termination_by s.length
decreasing_by simp only [List.length_cons] at h₁ h₂ h; omega

/-- A table in braces; its keys may be dotted, and each is defined once. -/
def inlineTable? (assignments : List ((List String × String) × Json)) : Option Json := do
  let entries ← assignments.foldlM
    (fun entries ((path, key), v) => Entries.define path key v .header entries) ([] : Entries)
  return .obj (entriesJson entries)

def value (depth : Nat) : Reader Json := fun s =>
  match s with
  | '"' :: r => string.map .str ('"' :: r)
  | '\'' :: r => string.map .str ('\'' :: r)
  | '[' :: r =>
    match depth with
    | 0 => none
    | depth + 1 => do
      let (vs, t) ← items ']' (value depth) r
      return (.arr vs, t.behind '[')
  | '{' :: r =>
    match depth with
    | 0 => none
    | depth + 1 => do
      let (as, t) ← items '}' (assignment (filler false) (value depth)) r
      return (← inlineTable? as, t.behind '{')
  | s => do
    let (text, r) ← bareText s
    return (← bareValue? text, r)

inductive Line
  | tableHeader (path : List String) (key : String)
  | itemHeader (path : List String) (key : String)
  | assignment (path : List String) (key : String) (v : Json)

def headerKey : Reader (List String × String) := fun s =>
  match Text.skipWhile isBlank s with
  | ⟨r, h⟩ => do
    let (k, t) ← key r
    return (k, t.upTo h)

def line (depth : Nat) : Reader Line := fun s =>
  match s with
  | '[' :: '[' :: r => do
    let ((path, key), ⟨t, h⟩) ← headerKey r
    match t, h with
    | ']' :: ']' :: t, h =>
      return (.itemHeader path key,
        ((Rest.past ']' [']'] t).within h).behindAll '[' ['['])
    | _, _ => none
  | '[' :: r => do
    let ((path, key), ⟨t, h⟩) ← headerKey r
    match t, h with
    | ']' :: t, h =>
      return (.tableHeader path key, ((Rest.past ']' [] t).within h).behind '[')
    | _, _ => none
  | s => do
    let (((path, key), v), r) ← assignment lineGap (value depth) s
    return (.assignment path key v, r)

def lines (depth : Nat) (s : List Char) : Option (List Line) := do
  match ← filler false s with
  | ⟨[], _⟩ => return []
  | ⟨c :: r, _⟩ =>
    let (l, ⟨t, _⟩) ← line depth (c :: r)
    if endsLine t then
      let ls ← lines depth t
      return l :: ls
    else
      none
termination_by s.length
decreasing_by omega

/-- The document so far, and the table that assignments go to. -/
structure Progress where
  root : Entries
  current : List String

def Progress.add (p : Progress) (l : Line) : Option Progress := do
  match l with
  | .tableHeader path key =>
    return ⟨← Entries.descend false (Entries.openTable key) path .header p.root, path ++ [key]⟩
  | .itemHeader path key =>
    return ⟨← Entries.descend false (Entries.openItem key) path .header p.root, path ++ [key]⟩
  | .assignment path key v =>
    return ⟨← Entries.descend false (Entries.define path key v) p.current .header p.root,
      p.current⟩

def afterMark (s : List Char) : List Char :=
  match s with
  | '\ufeff' :: r => r
  | s => s

def read? (text : String) : Option Json := do
  let ls ← lines nestingLimit (afterMark text.toList)
  let p ← ls.foldlM Progress.add ⟨[], []⟩
  return .obj (entriesJson p.root)

end ReadPlan.Toml
