import ReadPlan.Text.Reader

namespace ReadPlan.Toml

def isLeapYear (year : Nat) : Bool :=
  year % 4 == 0 && (year % 100 != 0 || year % 400 == 0)

def monthLength (year month : Nat) : Nat :=
  match month with
  | 2 => if isLeapYear year then 29 else 28
  | 4 | 6 | 9 | 11 => 30
  | _ => 31

def twoDigits? (largest : Nat) : List Char → Option (Nat × List Char)
  | a :: b :: rest =>
    let n := Text.digitsValue [a, b]
    if a.isDigit && b.isDigit && n ≤ largest then some (n, rest) else none
  | _ => none

def after? (mark : Char) : List Char → Option (List Char)
  | c :: rest => if c == mark then some rest else none
  | [] => none

def afterDate? (cs : List Char) : Option (List Char) := do
  let (century, cs) ← twoDigits? 99 cs
  let (year, cs) ← twoDigits? 99 cs
  let (month, cs) ← twoDigits? 12 (← after? '-' cs)
  let (day, cs) ← twoDigits? (monthLength (100 * century + year) month) (← after? '-' cs)
  if month = 0 ∨ day = 0 then none else some cs

/-- What follows the seconds of a time; they may have a fraction, and a minute may have a leap
second. -/
def afterSeconds? (cs : List Char) : Option (List Char) := do
  let (_, cs) ← twoDigits? 60 cs
  match cs with
  | '.' :: c :: rest => if c.isDigit then some (rest.dropWhile Char.isDigit) else none
  | cs => some cs

def afterMinutes? (cs : List Char) : Option (List Char) := do
  let (_, cs) ← twoDigits? 23 cs
  let (_, cs) ← twoDigits? 59 (← after? ':' cs)
  return cs

def afterTime? (cs : List Char) : Option (List Char) := do
  match ← afterMinutes? cs with
  | ':' :: rest => afterSeconds? rest
  | cs => some cs

def isOffset : List Char → Bool
  | [] => true
  | [c] => c == 'Z' || c == 'z'
  | c :: rest => (c == '+' || c == '-') && afterMinutes? rest == some []

/-- A date and a time are joined by the letter `T` or by a blank; only both together have an
offset. -/
def isDateTime (cs : List Char) : Bool :=
  match afterDate? cs with
  | some [] => true
  | some (c :: rest) =>
    (c == 'T' || c == 't' || c == ' ') && ((afterTime? rest).map isOffset).getD false
  | none => afterTime? cs == some []

end ReadPlan.Toml
