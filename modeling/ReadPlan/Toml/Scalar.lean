import ReadPlan.Json.Basic
import ReadPlan.Toml.DateTime

namespace ReadPlan.Toml

def isBareValueChar (c : Char) : Bool :=
  c.isAlphanum || c == '+' || c == '-' || c == '.' || c == '_' || c == ':'

/-- The text of a value without quotes. Only a date goes on after a blank, with the time. -/
def bareText : Reader (List Char) := fun s =>
  match s with
  | [] => none
  | c :: r =>
    if isBareValueChar c then
      let text := c :: r.takeWhile isBareValueChar
      match Text.skipWhile isBareValueChar r with
      | ⟨' ' :: d :: t, h⟩ =>
        if afterDate? text == some [] && d.isDigit then
          let u := ((Text.skipWhile isBareValueChar t).behind d).behind ' '
          some (text ++ ' ' :: d :: t.takeWhile isBareValueChar, (u.upTo h).behind c)
        else
          some (text, Remainder.behind c ⟨' ' :: d :: t, h⟩)
      | t => some (text, t.behind c)
    else
      none

/-- Digits where each underscore stands between two of them; gives the digits alone. -/
def plainDigits? (isDigit : Char → Bool) : List Char → Option (List Char)
  | [] => none
  | [c] => if isDigit c then some [c] else none
  | c :: '_' :: rest =>
    if isDigit c then (c :: ·) <$> plainDigits? isDigit rest else none
  | c :: rest => if isDigit c then (c :: ·) <$> plainDigits? isDigit rest else none

def decimal? (cs : List Char) : Option (List Char) :=
  match plainDigits? Char.isDigit cs with
  | some ('0' :: _ :: _) => none
  | ds => ds

def sign (cs : List Char) : Bool × List Char :=
  match cs with
  | '-' :: rest => (true, rest)
  | '+' :: rest => (false, rest)
  | cs => (false, cs)

def radixValue? (radix : Nat) (cs : List Char) : Option Nat := do
  let ds ← plainDigits? (fun c => ((Text.hexValue? c).map (decide <| · < radix)).getD false) cs
  ds.foldlM (fun n c => (fun d => radix * n + d) <$> Text.hexValue? c) 0

def integer? (cs : List Char) : Option Int :=
  match cs with
  | '0' :: 'x' :: rest => (fun n : Nat => (n : Int)) <$> radixValue? 16 rest
  | '0' :: 'o' :: rest => (fun n : Nat => (n : Int)) <$> radixValue? 8 rest
  | '0' :: 'b' :: rest => (fun n : Nat => (n : Int)) <$> radixValue? 2 rest
  | cs => do
    let (negative, rest) := sign cs
    let n := Text.digitsValue (← decimal? rest)
    return if negative then -(n : Int) else n

def isExponentMark (c : Char) : Bool :=
  c == 'e' || c == 'E'

def exponent? (cs : List Char) : Option Int :=
  match cs with
  | [] => some 0
  | _ :: rest => do
    let (negative, ds) := sign rest
    let n := Text.digitsValue (← plainDigits? Char.isDigit ds)
    return if negative then -(n : Int) else n

def fraction? (cs : List Char) : Option (List Char) :=
  match cs with
  | [] => some []
  | _ :: rest => plainDigits? Char.isDigit rest

/-- A float has a point or an exponent and is in range, or it is a word: `inf` or `nan`. -/
def float? (cs : List Char) : Option Binary64 :=
  let (negative, body) := sign cs
  match body with
  | ['i', 'n', 'f'] => some (.infinite negative)
  | ['n', 'a', 'n'] => some .nan
  | body => do
    let mantissa := body.takeWhile (!isExponentMark ·)
    let whole ← decimal? (mantissa.takeWhile (· != '.'))
    let fraction ← fraction? (mantissa.dropWhile (· != '.'))
    let exponent ← exponent? (body.dropWhile (!isExponentMark ·))
    let x := Binary64.ofDecimal negative (Text.digitsValue (whole ++ fraction))
      (exponent - fraction.length)
    if x.isFinite then some x else none

/-- A date or a time is a table with a single member, which no schema asks for. -/
def dateTimeValue (cs : List Char) : Json :=
  .obj [("date-time", .str (String.ofList cs))]

/-- The value of a run of characters without quotes. An integer fits 128 bits, signed or not. -/
def bareValue? (cs : List Char) : Option Json :=
  match cs with
  | ['t', 'r', 'u', 'e'] => some (.bool true)
  | ['f', 'a', 'l', 's', 'e'] => some (.bool false)
  | cs =>
    match integer? cs with
    | some n =>
      if -0x80000000000000000000000000000000 ≤ n ∧ n < 0x100000000000000000000000000000000 then
        some (.int n)
      else
        none
    | none =>
      if isDateTime cs then some (dateTimeValue cs)
      else Json.float <$> float? cs

end ReadPlan.Toml
