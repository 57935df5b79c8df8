import ReadPlan.Number.Binary64

namespace ReadPlan

structure Decimal where
  digits : Nat
  scale : Int
  deriving DecidableEq

structure NumberLayout where
  plusSign : String

namespace Binary64

def tenfold (n d : Nat) (p : Int) : Nat × Nat :=
  if 0 ≤ p then (n * Nat.pow 10 p.toNat, d) else (n, d * Nat.pow 10 (-p).toNat)

/-- The interval of the ratios that round to a number, in quarters of its last place. -/
structure Neighbourhood where
  low : Nat
  value : Nat
  high : Nat
  closed : Bool
  unitNum : Nat
  unitDen : Nat

/-- Below a power of two the next number is half as far away. -/
def neighbourhood (m : Nat) (e : Int) : Neighbourhood where
  low := if m = 0x10000000000000 ∧ -1074 < e then 4 * m - 1 else 4 * m - 2
  value := 4 * m
  high := 4 * m + 2
  closed := m % 2 == 0
  unitNum := if 2 ≤ e then Nat.pow 2 (e - 2).toNat else 1
  unitDen := if 2 ≤ e then 1 else Nat.pow 2 (2 - e).toNat

def Neighbourhood.contains (h : Neighbourhood) (x : Decimal) : Bool :=
  let (a, b) := tenfold (x.digits * h.unitDen) h.unitNum x.scale
  if h.closed then h.low * b ≤ a && a ≤ h.high * b else h.low * b < a && a < h.high * b

def Neighbourhood.gridBelow (h : Neighbourhood) (scale : Int) : Nat :=
  let (a, b) := tenfold (h.value * h.unitNum) h.unitDen (-scale)
  a / b

def Neighbourhood.prefersAbove (h : Neighbourhood) (scale : Int) : Bool :=
  let (a, b) := tenfold (h.value * h.unitNum) h.unitDen (-scale)
  let r := a % b
  b < 2 * r || (b == 2 * r && (a / b) % 2 == 1)

/-- The point's position: the number is below `10 ^ k` and not below `10 ^ (k - 1)`. -/
def Neighbourhood.pointPosition (h : Neighbourhood) : Int :=
  let n := h.value * h.unitNum
  let p := (decimalLength n : Int) - decimalLength h.unitDen
  let (a, b) := tenfold h.unitDen n p
  if a ≤ b then p + 1 else p

def Neighbourhood.onGrid (h : Neighbourhood) (scale : Int) : Option Decimal :=
  let below : Decimal := ⟨h.gridBelow scale, scale⟩
  let above : Decimal := ⟨h.gridBelow scale + 1, scale⟩
  match h.contains below, h.contains above with
  | true, true => some (if h.prefersAbove scale then above else below)
  | true, false => some below
  | false, true => some above
  | false, false => none

def dropZeros : Nat → Nat → Int → Decimal
  | 0, digits, scale => ⟨digits, scale⟩
  | k + 1, digits, scale =>
    if digits % 10 = 0 then dropZeros k (digits / 10) (scale + 1) else ⟨digits, scale⟩

/-- The decimal with the fewest digits that rounds to `m · 2 ^ e`, the nearest one of those.
Seventeen digits always suffice. -/
def shortest (m : Nat) (e : Int) : Decimal :=
  if m = 0 then ⟨0, 0⟩
  else
    let h := neighbourhood m e
    let k := h.pointPosition
    match (List.range 17).findSome? fun i : Nat => h.onGrid (k - (i + 1 : Nat)) with
    | some x => dropZeros 17 x.digits x.scale
    | none => ⟨h.gridBelow (k - 17), k - 17⟩

end Binary64

def zeros (n : Nat) : String :=
  String.ofList (List.replicate n '0')

def pointed (digits : List Char) (k : Nat) : String :=
  String.ofList (digits.take k ++ '.' :: digits.drop k)

/-- Plain while the point stands more than five places before the first digit or at most sixteen
after it, with an exponent otherwise. -/
def Decimal.text (layout : NumberLayout) (x : Decimal) : String :=
  let ds := Nat.toDigits 10 x.digits
  let n := ds.length
  let k : Int := n + x.scale
  if x.digits = 0 then "0.0"
  else if 0 ≤ x.scale ∧ k ≤ 16 then String.ofList ds ++ zeros x.scale.toNat ++ ".0"
  else if 0 < k ∧ k ≤ 16 then pointed ds k.toNat
  else if -5 < k ∧ k ≤ 0 then "0." ++ zeros (-k).toNat ++ String.ofList ds
  else
    let lead := if n = 1 then String.ofList ds else pointed ds 1
    let power := k - 1
    lead ++ "e" ++ (if 0 ≤ power then layout.plusSign else "") ++ toString power

def Binary64.text (layout : NumberLayout) : Binary64 → String
  | .nan => "NaN"
  | .infinite negative => if negative then "-inf" else "inf"
  | .finite negative m e => (if negative then "-" else "") ++ (shortest m e).text layout

end ReadPlan
