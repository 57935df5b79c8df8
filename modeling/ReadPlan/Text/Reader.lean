/-!
Readers of text. A reader takes a nonempty beginning off its input or refuses it, so whatever is
repeated comes to an end.
-/

namespace ReadPlan

/-- What follows the part that was read; it is shorter than the input. -/
abbrev Rest (s : List Char) := { r : List Char // r.length < s.length }

/-- What follows a part that may be empty. -/
abbrev Remainder (s : List Char) := { r : List Char // r.length ≤ s.length }

abbrev Reader (α : Type) := (s : List Char) → Option (α × Rest s)

namespace Rest

variable {s t : List Char}

def past (c : Char) (front s : List Char) : Rest (c :: (front ++ s)) :=
  ⟨s, by simp only [List.length_cons, List.length_append]; omega⟩

def behind (c : Char) (r : Rest s) : Rest (c :: s) :=
  ⟨r.val, Nat.lt_succ_of_lt r.property⟩

def behindAll (c : Char) (front : List Char) (r : Rest s) : Rest (c :: (front ++ s)) :=
  ⟨r.val, by
    have shorter := r.property
    simp only [List.length_cons, List.length_append]
    omega⟩

def within (r : Rest s) (h : s.length < t.length) : Rest t :=
  ⟨r.val, Nat.lt_trans r.property h⟩

def upTo (r : Rest s) (h : s.length ≤ t.length) : Rest t :=
  ⟨r.val, Nat.lt_of_lt_of_le r.property h⟩

def weak (r : Rest s) : Remainder s :=
  ⟨r.val, Nat.le_of_lt r.property⟩

@[simp] theorem val_behind (c : Char) (r : Rest s) : (r.behind c).val = r.val := rfl

@[simp] theorem val_within (r : Rest s) (h : s.length < t.length) : (r.within h).val = r.val := rfl

@[simp] theorem val_upTo (r : Rest s) (h : s.length ≤ t.length) : (r.upTo h).val = r.val := rfl

end Rest

namespace Remainder

variable {s t : List Char}

def all (s : List Char) : Remainder s :=
  ⟨s, Nat.le_refl s.length⟩

def within (r : Remainder s) (h : s.length < t.length) : Rest t :=
  ⟨r.val, Nat.lt_of_le_of_lt r.property h⟩

def upTo (r : Remainder s) (h : s.length ≤ t.length) : Remainder t :=
  ⟨r.val, Nat.le_trans r.property h⟩

def behind (c : Char) (r : Remainder s) : Rest (c :: s) :=
  ⟨r.val, Nat.lt_succ_of_le r.property⟩

end Remainder

def Reader.map {α β : Type} (f : α → β) (reader : Reader α) : Reader β := fun s =>
  (reader s).map fun (a, r) => (f a, r)

namespace Text

def hexValue? (c : Char) : Option Nat :=
  if c.isDigit then some (c.toNat - '0'.toNat)
  else if 'a' ≤ c ∧ c ≤ 'f' then some (c.toNat - 'a'.toNat + 10)
  else if 'A' ≤ c ∧ c ≤ 'F' then some (c.toNat - 'A'.toNat + 10)
  else none

def hexNumber? (cs : List Char) : Option Nat :=
  cs.foldlM (fun n c => (fun d => 16 * n + d) <$> hexValue? c) 0

/-- The character of a code point, unless it is half of a surrogate pair or out of range. -/
def scalarChar? (n : Nat) : Option Char :=
  if n < 0xd800 ∨ 0xdfff < n ∧ n ≤ 0x10ffff then some (Char.ofNat n) else none

def digitsValue (ds : List Char) : Nat :=
  ds.foldl (fun n d => 10 * n + (d.toNat - '0'.toNat)) 0

def skipWhile (p : Char → Bool) (s : List Char) : Remainder s :=
  ⟨s.dropWhile p, (List.dropWhile_sublist _).length_le⟩

end Text

end ReadPlan
