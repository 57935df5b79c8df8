import ReadPlan.Text.Reader

namespace ReadPlan.Toml

def isBlank (c : Char) : Bool :=
  c == ' ' || c == '\t'

/-- A character that may stand in a line: no control character but the tab. -/
def isLineChar (c : Char) : Bool :=
  c == '\t' || (32 ≤ c.toNat && c.toNat != 127)

def shortEscape? (c : Char) : Option Char :=
  match c with
  | 'b' => some '\x08'
  | 't' => some '\t'
  | 'n' => some '\n'
  | 'f' => some '\x0c'
  | 'r' => some '\r'
  | 'e' => some '\x1b'
  | '"' => some '"'
  | '\\' => some '\\'
  | _ => none

def escape : Reader Char := fun s =>
  match s with
  | 'x' :: a :: b :: r => do
    let c ← Text.scalarChar? (← Text.hexNumber? [a, b])
    return (c, .past 'x' [a, b] r)
  | 'u' :: a :: b :: c :: d :: r => do
    let x ← Text.scalarChar? (← Text.hexNumber? [a, b, c, d])
    return (x, .past 'u' [a, b, c, d] r)
  | 'U' :: a :: b :: c :: d :: e :: f :: g :: h :: r => do
    let x ← Text.scalarChar? (← Text.hexNumber? [a, b, c, d, e, f, g, h])
    return (x, .past 'U' [a, b, c, d, e, f, g, h] r)
  | c :: r => do
    let x ← shortEscape? c
    return (x, .past c [] r)
  | [] => none

def basicBody (s : List Char) : Option (List Char × Rest s) :=
  match s with
  | [] => none
  | '"' :: r => some ([], .past '"' [] r)
  | '\\' :: r => do
    let (x, ⟨r₁, h₁⟩) ← escape r
    let (cs, r₂) ← basicBody r₁
    return (x :: cs, (r₂.within h₁).behind '\\')
  | c :: r =>
    if isLineChar c then do
      let (cs, t) ← basicBody r
      return (c :: cs, t.behind c)
    else
      none
termination_by s.length
decreasing_by all_goals simp only [List.length_cons]; omega

def literalBody : (s : List Char) → Option (List Char × Rest s)
  | [] => none
  | '\'' :: r => some ([], .past '\'' [] r)
  | c :: r =>
    if isLineChar c then do
      let (cs, t) ← literalBody r
      return (c :: cs, t.behind c)
    else
      none

def restIsBlank (s : List Char) : Bool :=
  match s.dropWhile isBlank with
  | '\n' :: _ => true
  | '\r' :: '\n' :: _ => true
  | _ => false

/-- The rest of a basic string on several lines. A backslash at the end of a line joins it to the
next character that is no blank. Up to two quotes may stand before the closing three. -/
def basicLines (joining : Bool) (s : List Char) : Option (List Char × Rest s) :=
  match s with
  | [] => none
  | '"' :: '"' :: '"' :: '"' :: '"' :: r => some (['"', '"'], .past '"' ['"', '"', '"', '"'] r)
  | '"' :: '"' :: '"' :: '"' :: r => some (['"'], .past '"' ['"', '"', '"'] r)
  | '"' :: '"' :: '"' :: r => some ([], .past '"' ['"', '"'] r)
  | '\\' :: r =>
    if restIsBlank r then do
      let (cs, t) ← basicLines true r
      return (cs, t.behind '\\')
    else do
      let (x, ⟨r₁, h₁⟩) ← escape r
      let (cs, r₂) ← basicLines false r₁
      return (x :: cs, (r₂.within h₁).behind '\\')
  | '\r' :: '\n' :: r => do
    let (cs, t) ← basicLines joining r
    return (if joining then cs else '\r' :: '\n' :: cs, (t.behind '\n').behind '\r')
  | c :: r =>
    if joining && (isBlank c || c == '\n') then do
      let (cs, t) ← basicLines true r
      return (cs, t.behind c)
    else if isLineChar c || c == '\n' then do
      let (cs, t) ← basicLines false r
      return (c :: cs, t.behind c)
    else
      none
termination_by s.length
decreasing_by all_goals simp only [List.length_cons]; omega

def literalLines : (s : List Char) → Option (List Char × Rest s)
  | [] => none
  | '\'' :: '\'' :: '\'' :: '\'' :: '\'' :: r =>
    some (['\'', '\''], .past '\'' ['\'', '\'', '\'', '\''] r)
  | '\'' :: '\'' :: '\'' :: '\'' :: r => some (['\''], .past '\'' ['\'', '\'', '\''] r)
  | '\'' :: '\'' :: '\'' :: r => some ([], .past '\'' ['\'', '\''] r)
  | '\r' :: '\n' :: r => do
    let (cs, t) ← literalLines r
    return ('\r' :: '\n' :: cs, (t.behind '\n').behind '\r')
  | c :: r =>
    if isLineChar c || c == '\n' then do
      let (cs, t) ← literalLines r
      return (c :: cs, t.behind c)
    else
      none

def afterOpening (s : List Char) : Remainder s :=
  match s with
  | '\n' :: r => (Rest.past '\n' [] r).weak
  | '\r' :: '\n' :: r => (Rest.past '\r' ['\n'] r).weak
  | s => .all s

def lineString : Reader String := fun s =>
  match s with
  | '"' :: r => do
    let (cs, t) ← basicBody r
    return (String.ofList cs, t.behind '"')
  | '\'' :: r => do
    let (cs, t) ← literalBody r
    return (String.ofList cs, t.behind '\'')
  | _ => none

def string : Reader String := fun s =>
  match s with
  | '"' :: '"' :: '"' :: r => do
    let ⟨r₁, h₁⟩ := afterOpening r
    let (cs, t) ← basicLines false r₁
    return (String.ofList cs, (t.upTo h₁).behindAll '"' ['"', '"'])
  | '\'' :: '\'' :: '\'' :: r => do
    let ⟨r₁, h₁⟩ := afterOpening r
    let (cs, t) ← literalLines r₁
    return (String.ofList cs, (t.upTo h₁).behindAll '\'' ['\'', '\''])
  | s => lineString s

end ReadPlan.Toml
