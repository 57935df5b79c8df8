namespace ReadPlan

/-- `finite negative m e` is `± m · 2 ^ e`; canonical when `m < 2 ^ 53` and either `2 ^ 52 ≤ m` or
`e = -1074`. -/
inductive Binary64
  | nan
  | infinite (negative : Bool)
  | finite (negative : Bool) (significand : Nat) (exponent : Int)
  deriving DecidableEq

namespace Binary64

def zero (negative : Bool) : Binary64 :=
  .finite negative 0 (-1074)

def isFinite : Binary64 → Bool
  | .finite .. => true
  | _ => false

/-- `n / d` to the nearest integer, ties to even. -/
def roundQuotient (n d : Nat) : Nat :=
  let q := n / d
  let r := n % d
  if d < 2 * r || (d == 2 * r && q % 2 == 1) then q + 1 else q

def descale (n d : Nat) (e : Int) : Nat × Nat :=
  if 0 ≤ e then (n, d * Nat.pow 2 e.toNat) else (n * Nat.pow 2 (-e).toNat, d)

/-- The exponent at which the quotient of `n` by `d` has 53 bits, or the least one there is. -/
def unitExponent (n d : Nat) : Int :=
  let e := (Nat.log2 n : Int) - Nat.log2 d - 52
  let (a, b) := descale n d e
  max (-1074) (if a / b < 0x10000000000000 then e - 1 else e)

/-- The number nearest to `n / d`; `d` is not zero. -/
def ofRatio (negative : Bool) (n d : Nat) : Binary64 :=
  if n = 0 then
    zero negative
  else
    let e := unitExponent n d
    let (a, b) := descale n d e
    let m := roundQuotient a b
    let (m, e) := if m = 0x20000000000000 then (0x10000000000000, e + 1) else (m, e)
    if 971 < e then .infinite negative else .finite negative m e

def decimalLength (n : Nat) : Nat :=
  (Nat.toDigits 10 n).length

/-- The number nearest to `digits · 10 ^ scale`. Beyond 310 places to the left everything overflows,
and beyond 330 to the right everything vanishes. -/
def ofDecimal (negative : Bool) (digits : Nat) (scale : Int) : Binary64 :=
  let reach := (decimalLength digits : Int) + scale
  if digits = 0 then zero negative
  else if 310 < reach then .infinite negative
  else if reach < -330 then zero negative
  else if 0 ≤ scale then ofRatio negative (digits * Nat.pow 10 scale.toNat) 1
  else ofRatio negative digits (Nat.pow 10 (-scale).toNat)

def ofInt (n : Int) : Binary64 :=
  ofRatio (n < 0) n.natAbs 1

/-- A finite number times the number nearest to `10 ^ k`, or divided by the one nearest to
`10 ^ -k`, and rounded again. These powers are finite up to 308. -/
def timesTenPow (x : Binary64) (k : Int) : Binary64 :=
  match x, ofDecimal false 1 k.natAbs with
  | .finite negative m e, .finite _ n f =>
    let (a, b) := if 0 ≤ k then descale (m * n) 1 (-(e + f)) else descale m n (f - e)
    ofRatio negative a b
  | x, _ => x

def isZero : Binary64 → Bool
  | .finite _ m _ => m == 0
  | _ => false

/-- Divided so many times by the number nearest to `10 ^ 308`, until it vanishes. -/
def dwindle (x : Binary64) : Nat → Binary64
  | 0 => x
  | n + 1 => if x.isZero then x else (x.timesTenPow (-308)).dwindle n

/-- A number near to `digits · 10 ^ scale`: the digits are rounded, and then every product or
quotient with a power of ten. -/
def ofDigits (negative : Bool) (digits : Nat) (scale : Int) : Binary64 :=
  let x := ofRatio negative digits 1
  if 308 < scale then
    if x.isZero then x else .infinite negative
  else
    let steps := ((-scale).toNat - 1) / 308
    (x.dwindle steps).timesTenPow (scale + 308 * steps)

end Binary64

end ReadPlan
