import ReadPlan.Proofs.CharRuns
import ReadPlan.Json.Printer
import ReadPlan.Json.Reader
import ReadPlan.Proofs.DigitRounding
import ReadPlan.Proofs.NumberText

namespace ReadPlan

/-- What a reader made of its input, and what it left of it. -/
def Leaves {α : Type} {P : List Char → Prop} (result : Option (α × Subtype P)) (x : α)
    (rest : List Char) : Prop :=
  ∃ h, result = some (x, ⟨rest, h⟩)

def outcome {α : Type} {P : List Char → Prop} (result : Option (α × Subtype P)) :
    Option (α × List Char) :=
  result.map fun p => (p.1, p.2.val)

theorem leaves_of_outcome {α : Type} {P : List Char → Prop} {result : Option (α × Subtype P)}
    {x : α} {rest : List Char} (h : outcome result = some (x, rest)) : Leaves result x rest := by
  obtain ⟨⟨y, r, held⟩, rfl, same⟩ := Option.map_eq_some_iff.mp h
  cases same
  exact ⟨held, rfl⟩

/-! The value of digits. -/

theorem digitsValue_eq (ds : List Char) : Text.digitsValue ds = Nat.ofDigitChars 10 ds 0 :=
  (Nat.ofDigitChars_eq_foldl).symm

theorem le_ofDigitChars (cs : List Char) (n : Nat) : n ≤ Nat.ofDigitChars 10 cs n := by
  rw [Nat.ofDigitChars_eq_ofDigitChars_zero]
  exact le_add_right (Nat.le_mul_of_pos_left n (by positivity))

theorem digitsValue_append (ds es : List Char) :
    Text.digitsValue (ds ++ es) = Text.digitsValue ds * 10 ^ es.length + Text.digitsValue es := by
  simp only [digitsValue_eq]
  rw [Nat.ofDigitChars_append, Nat.ofDigitChars_eq_ofDigitChars_zero, Nat.mul_comm]

@[simp] theorem digitsValue_zeros (n : Nat) : Text.digitsValue (zeros n).toList = 0 := by
  rw [digitsValue_eq, zeros, String.toList_ofList, Nat.ofDigitChars_replicate_zero, Nat.mul_zero]

@[simp] theorem digitsValue_toDigits (n : Nat) : Text.digitsValue (Nat.toDigits 10 n) = n := by
  rw [digitsValue_eq, Nat.ofDigitChars_ten_toDigits]

theorem toDigits_lead {n : Nat} (hn : 0 < n) :
    ∃ c ds, Nat.toDigits 10 n = c :: ds ∧ c ≠ '0' := by
  induction n using Nat.strongRecOn with
  | ind n ih =>
    by_cases single : n < 10
    · refine ⟨n.digitChar, [], Nat.toDigits_of_lt_base single, ?_⟩
      rw [Ne, Nat.digitChar_eq_zero]
      omega
    · obtain ⟨c, ds, lead, nonzero⟩ := ih (n / 10) (by omega) (by omega)
      refine ⟨c, ds ++ [(n % 10).digitChar], ?_, nonzero⟩
      rw [Nat.toDigits_of_base_le (by decide) (by omega), lead]
      rfl

namespace Json

/-- No number goes on with the text. -/
def Stops (rest : List Char) : Prop :=
  ∀ c ∈ rest.head?, c.isDigit = false ∧ c ≠ '.' ∧ c ≠ 'e' ∧ c ≠ 'E'

theorem stops_cons {c : Char} (rest : List Char)
    (other : c.isDigit = false ∧ c ≠ '.' ∧ c ≠ 'e' ∧ c ≠ 'E') : Stops (c :: rest) := by
  intro d hd
  cases hd
  exact other

theorem digitRun_append {ds rest : List Char} (digits : ∀ c ∈ ds, c.isDigit = true)
    (ends : ∀ c ∈ rest.head?, c.isDigit = false) :
    ∃ h, digitRun (ds ++ rest) = (ds, ⟨rest, h⟩) := by
  refine ⟨by simp, ?_⟩
  simp [digitRun, takeWhile_run digits ends, dropWhile_run digits ends]

theorem fractionPart_point {ds rest : List Char} (digits : Digits ds)
    (ends : ∀ c ∈ rest.head?, c.isDigit = false) :
    Leaves (fractionPart ('.' :: (ds ++ rest))) (some ds) rest := by
  obtain ⟨h, run⟩ := digitRun_append digits.2 ends
  obtain ⟨c, cs, rfl⟩ := List.exists_cons_of_ne_nil digits.1
  refine ⟨?_, ?_⟩
  swap
  · rw [fractionPart, run]
    rfl

theorem fractionPart_none {rest : List Char} (ends : ∀ c ∈ rest.head?, c ≠ '.') :
    Leaves (fractionPart rest) none rest := by
  refine ⟨le_refl _, ?_⟩
  unfold fractionPart
  split
  · exact absurd rfl (ends _ rfl)
  · rfl

theorem exponentDigits_reads (negative : Bool) {ds rest : List Char} (digits : Digits ds)
    (ends : ∀ c ∈ rest.head?, c.isDigit = false) :
    Leaves (exponentDigits negative (ds ++ rest))
      (if negative then -(Text.digitsValue ds : Int) else Text.digitsValue ds) rest := by
  obtain ⟨h, run⟩ := digitRun_append digits.2 ends
  obtain ⟨c, cs, rfl⟩ := List.exists_cons_of_ne_nil digits.1
  refine ⟨h, ?_⟩
  rw [exponentDigits, run]

theorem exponentPart_none {rest : List Char} (ends : ∀ c ∈ rest.head?, c ≠ 'e' ∧ c ≠ 'E') :
    Leaves (exponentPart rest) none rest := by
  cases rest with
  | nil => exact ⟨le_refl _, rfl⟩
  | cons c rest =>
    obtain ⟨small, large⟩ := ends c rfl
    refine ⟨le_refl _, ?_⟩
    simp [exponentPart, small, large, Remainder.all]

theorem int_digits (n : Int) :
    (toString n).toList = if n < 0 then '-' :: Nat.toDigits 10 n.natAbs
      else Nat.toDigits 10 n.natAbs := by
  cases n with
  | ofNat m =>
    rw [if_neg (by simp)]
    exact Nat.toList_repr
  | negSucc m =>
    have text : toString (Int.negSucc m) = "-" ++ (m + 1).repr := rfl
    rw [if_pos (Int.negSucc_lt_zero m), text, String.toList_append, Nat.toList_repr]
    rfl

theorem exponentPart_reads (power : Int) {rest : List Char}
    (ends : ∀ c ∈ rest.head?, c.isDigit = false) :
    Leaves (exponentPart ('e' :: ((if 0 ≤ power then ['+'] else []) ++ (toString power).toList ++
      rest))) (some power) rest := by
  have digits := toDigits_digits power.natAbs
  rw [int_digits]
  by_cases negative : power < 0
  · obtain ⟨h, read⟩ := exponentDigits_reads true digits ends
    have value : -(Text.digitsValue (Nat.toDigits 10 power.natAbs) : Int) = power := by
      rw [digitsValue_toDigits]
      omega
    rw [if_neg (by omega), if_pos negative]
    refine ⟨?_, ?_⟩
    swap
    · simp only [List.nil_append, List.cons_append, exponentPart, read, value]
      rfl
  · obtain ⟨h, read⟩ := exponentDigits_reads false digits ends
    have value : (Text.digitsValue (Nat.toDigits 10 power.natAbs) : Int) = power := by
      rw [digitsValue_toDigits]
      omega
    rw [if_pos (by omega), if_neg negative]
    refine ⟨?_, ?_⟩
    swap
    · simp only [List.nil_append, List.cons_append, exponentPart, read, value]
      rfl

theorem unsigned_reads (negative : Bool) {c : Char} {ds tail point rest : List Char}
    {fraction : Option (List Char)} {exponent : Option Int} (digits : Digits (c :: ds))
    (lead : c = '0' → ds = []) (ends : ∀ c ∈ tail.head?, c.isDigit = false)
    (read : Leaves (fractionPart tail) fraction point)
    (scaled : Leaves (exponentPart point) exponent rest) :
    Leaves (unsigned negative (c :: (ds ++ tail))) ⟨negative, c :: ds, fraction, exponent⟩
      rest := by
  obtain ⟨first, others⟩ := List.forall_mem_cons.mp digits.2
  obtain ⟨h₁, read⟩ := read
  obtain ⟨h₂, scaled⟩ := scaled
  have run : ∃ h, (if (c == '0') = true then ([], Remainder.all (ds ++ tail))
      else digitRun (ds ++ tail)) = (ds, ⟨tail, h⟩) := by
    by_cases zero : c = '0'
    · obtain rfl := lead zero
      exact ⟨le_refl _, if_pos (by simpa using zero)⟩
    · rw [if_neg (by simpa using zero)]
      exact digitRun_append others ends
  have stops : (c == '0' && (tail.headD ' ').isDigit) = false := by
    cases tail with
    | nil => simp
    | cons d tail => simp [ends d rfl]
  obtain ⟨h, run⟩ := run
  refine ⟨?_, ?_⟩
  swap
  · rw [unsigned, first, run]
    simp only [stops, read, Option.bind_eq_bind, Option.bind_some, scaled]
    rfl

namespace NumberText

def chars (t : NumberText) : List Char :=
  t.whole ++ (t.fraction.elim [] fun fs => '.' :: fs) ++
    t.exponent.elim [] fun p => 'e' :: ((if 0 ≤ p then ['+'] else []) ++ (toString p).toList)

structure WellFormed (t : NumberText) : Prop where
  whole : Digits t.whole
  lead : ∀ ds, t.whole = '0' :: ds → ds = []
  fraction : ∀ fs ∈ t.fraction, Digits fs

def magnitude (t : NumberText) : ℚ :=
  Text.digitsValue (t.whole ++ t.fraction.getD []) *
    10 ^ (t.exponent.getD 0 - (t.fraction.getD []).length)

theorem WellFormed.reads {t : NumberText} (formed : t.WellFormed) {rest : List Char}
    (stops : Stops rest) : Leaves (unsigned t.negative (t.chars ++ rest)) t rest := by
  obtain ⟨negative, whole, fraction, exponent⟩ := t
  obtain ⟨digits, lead, fractions⟩ := formed
  have digitless : ∀ c ∈ rest.head?, c.isDigit = false := fun c hc => (stops c hc).1
  have powerless : ∀ c ∈ rest.head?, c ≠ 'e' ∧ c ≠ 'E' := fun c hc => (stops c hc).2.2
  obtain ⟨power, same, scaled, stopped⟩ : ∃ power,
      power = (exponent.elim [] fun p => 'e' ::
        ((if 0 ≤ p then ['+'] else []) ++ (toString p).toList)) ++ rest ∧
      Leaves (exponentPart power) exponent rest ∧
        ∀ c ∈ power.head?, c.isDigit = false ∧ c ≠ '.' := by
    refine ⟨_, rfl, ?_, ?_⟩
    · cases exponent with
      | none => exact exponentPart_none powerless
      | some p => simpa using exponentPart_reads p digitless
    · cases exponent with
      | none => exact fun c hc => ⟨(stops c hc).1, (stops c hc).2.1⟩
      | some p => simp
  obtain ⟨tail, same', read, ends⟩ : ∃ tail,
      tail = (fraction.elim [] fun fs => '.' :: fs) ++ power ∧
      Leaves (fractionPart tail) fraction power ∧ ∀ c ∈ tail.head?, c.isDigit = false := by
    refine ⟨_, rfl, ?_, ?_⟩
    · cases fraction with
      | none => exact fractionPart_none fun c hc => (stopped c hc).2
      | some fs => exact fractionPart_point (fractions fs rfl) fun c hc => (stopped c hc).1
    · cases fraction with
      | none => exact fun c hc => (stopped c hc).1
      | some fs => simp
  obtain ⟨c, ds, rfl⟩ := List.exists_cons_of_ne_nil digits.1
  have result :=
    unsigned_reads negative digits (fun zero => lead ds (by rw [zero])) ends read scaled
  have text : chars ⟨negative, c :: ds, fraction, exponent⟩ ++ rest = c :: (ds ++ tail) := by
    rw [same', same, chars]
    simp only [List.cons_append, List.append_assoc]
  rw [text]
  exact result

end NumberText

def NumberText.digits (t : NumberText) : Nat :=
  Text.digitsValue (t.whole ++ t.fraction.getD [])

def NumberText.scale (t : NumberText) : Int :=
  t.exponent.getD 0 - (t.fraction.getD []).length

/-- The text is that of a float: a number with a point or an exponent. -/
structure NumberText.Shows (t : NumberText) (text : List Char) (negative : Bool) (digits : Nat)
    (scale : Int) : Prop where
  chars : t.chars = text
  formed : t.WellFormed
  sign : t.negative = negative
  float : (t.fraction.isSome || t.exponent.isSome) = true
  digits : t.digits = digits
  scale : t.scale = scale

section

variable (negative : Bool) {ds : List Char}

theorem zero_digits : Digits ['0'] :=
  ⟨by simp, by simp⟩

theorem whole_shows (digits : Digits ds) (lead : ∀ es, ds ≠ '0' :: es) (k : Nat) :
    ∃ t : NumberText, t.Shows (ds ++ (zeros k).toList ++ ['.', '0']) negative
      (Text.digitsValue ds * 10 ^ (k + 1)) (-1) := by
  refine ⟨⟨negative, ds ++ (zeros k).toList, some ['0'], none⟩, ?_, ⟨?_, ?_, ?_⟩, rfl, rfl, ?_, rfl⟩
  · simp [NumberText.chars]
  · exact digits.append (zeros_isDigit k)
  · intro es same
    obtain ⟨c, cs, rfl⟩ := List.exists_cons_of_ne_nil digits.1
    have first : c = '0' := (List.cons.inj same).1
    exact absurd (by rw [first]) (lead cs)
  · rintro _ ⟨⟩
    exact zero_digits
  · have last : Text.digitsValue ['0'] = 0 := rfl
    have long : (zeros k).toList.length = k := by simp [zeros]
    simp only [NumberText.digits, Option.getD_some, digitsValue_append, last, digitsValue_zeros,
      long, List.length_singleton]
    ring

theorem pointed_shows (digits : Digits ds) (lead : ∀ es, ds ≠ '0' :: es) {k : Nat} (after : 0 < k)
    (before : k < ds.length) (power : Option Int) :
    ∃ t : NumberText, t.Shows ((pointed ds k).toList ++
        power.elim [] fun p => 'e' :: ((if 0 ≤ p then ['+'] else []) ++ (toString p).toList))
      negative (Text.digitsValue ds) (power.getD 0 - (ds.length - k : ℤ)) := by
  refine ⟨⟨negative, ds.take k, some (ds.drop k), power⟩, ?_, ⟨?_, ?_, ?_⟩, rfl, rfl, ?_, ?_⟩
  · simp [NumberText.chars, pointed]
  · exact digits.take after
  · intro es same
    obtain ⟨c, cs, rfl⟩ := List.exists_cons_of_ne_nil digits.1
    obtain ⟨j, rfl⟩ := Nat.exists_eq_succ_of_ne_zero after.ne'
    have first : c = '0' := (List.cons.inj same).1
    exact absurd (by rw [first]) (lead cs)
  · rintro _ ⟨⟩
    exact digits.drop before
  · rw [NumberText.digits, Option.getD_some, List.take_append_drop]
  · simp only [NumberText.scale, Option.getD_some, List.length_drop]
    rw [Nat.cast_sub before.le]

theorem fraction_shows (digits : Digits ds) (k : Nat) :
    ∃ t : NumberText, t.Shows ('0' :: '.' :: ((zeros k).toList ++ ds)) negative
      (Text.digitsValue ds) (-(k + ds.length : ℤ)) := by
  refine ⟨⟨negative, ['0'], some ((zeros k).toList ++ ds), none⟩, ?_, ⟨zero_digits, ?_, ?_⟩, rfl,
    rfl, ?_, ?_⟩
  · simp [NumberText.chars]
  · simp
  · rintro _ ⟨⟩
    exact digits.after (zeros_isDigit k)
  · have first : Text.digitsValue ['0'] = 0 := rfl
    rw [NumberText.digits, Option.getD_some, digitsValue_append, digitsValue_append, first,
      digitsValue_zeros]
    omega
  · simp [NumberText.scale, zeros]

theorem power_shows (digits : Digits ds) (lead : ∀ es, ds ≠ '0' :: es) (power : Int) :
    ∃ t : NumberText, t.Shows (ds ++ 'e' :: ((if 0 ≤ power then ['+'] else []) ++
        (toString power).toList)) negative (Text.digitsValue ds) power := by
  refine ⟨⟨negative, ds, none, some power⟩, ?_, ⟨digits, ?_, ?_⟩, rfl, rfl, ?_, ?_⟩
  · simp [NumberText.chars]
  · exact fun es same => absurd same (lead es)
  · simp
  · simp [NumberText.digits]
  · simp [NumberText.scale]

end

/-- The text of a decimal shows its digits, or those and zeros for a small whole number, of which
one is after the point. -/
theorem decimal_text (x : Decimal) (negative : Bool) :
    ∃ t : NumberText, ∃ n p, t.Shows (x.text numberLayout).toList negative n p ∧
      (0 < x.digits ∧ n = x.digits ∧ p = x.scale ∨ n = x.digits * 10 ^ (x.scale.toNat + 1) ∧ p = -1 ∧
        (x.digits = 0 ∨ 0 ≤ x.scale ∧ n < 10 ^ 17)) := by
  have digits := toDigits_digits x.digits
  have value := digitsValue_toDigits x.digits
  by_cases none : x.digits = 0
  · refine ⟨⟨negative, ['0'], some ['0'], .none⟩, 0, -1, ⟨?_, ⟨zero_digits, by simp, ?_⟩, rfl, rfl,
      rfl, rfl⟩, .inr ⟨by simp [none], rfl, .inl none⟩⟩
    · rw [Decimal.text, if_pos none]
      rfl
    · rintro _ ⟨⟩
      exact zero_digits
  have some : 0 < x.digits := Nat.pos_of_ne_zero none
  have lead : ∀ es, Nat.toDigits 10 x.digits ≠ '0' :: es := by
    intro es same
    obtain ⟨c, ds, first, nonzero⟩ := toDigits_lead some
    rw [first] at same
    exact nonzero (List.cons.inj same).1
  have below : x.digits < 10 ^ (Nat.toDigits 10 x.digits).length :=
    (Nat.length_toDigits_le_iff (by decide) Nat.length_toDigits_pos).mp (le_refl _)
  rw [Decimal.text, if_neg none]
  simp only
  generalize Nat.toDigits 10 x.digits = ds at *
  rw [← value] at some below ⊢
  generalize x.scale = scale at *
  obtain ⟨n, long⟩ : ∃ n, ds.length = n := ⟨_, rfl⟩
  rw [long] at below ⊢
  have more : 0 < n := long ▸ List.length_pos_iff.mpr digits.1
  split
  · rename_i whole
    obtain ⟨k, rfl⟩ := Int.eq_ofNat_of_zero_le whole.1
    obtain ⟨t, shown⟩ := whole_shows negative digits lead k
    refine ⟨t, _, _, by simpa using shown, .inr ⟨rfl, rfl, .inr ⟨whole.1, ?_⟩⟩⟩
    calc Text.digitsValue ds * 10 ^ (k + 1) < 10 ^ n * 10 ^ (k + 1) := by gcongr
      _ = 10 ^ (n + (k + 1)) := by rw [← pow_add]
      _ ≤ 10 ^ 17 := Nat.pow_le_pow_right (by decide) (by omega)
  split
  · rename_i among
    obtain ⟨k, hk⟩ := Int.eq_ofNat_of_zero_le among.1.le
    obtain ⟨t, shown⟩ :=
      pointed_shows negative digits lead (k := k) (by omega) (by omega) Option.none
    refine ⟨t, _, _, ?_, .inl ⟨some, rfl, show 0 - (ds.length - k : ℤ) = scale by omega⟩⟩
    rw [hk]
    simpa using shown
  split
  · rename_i before
    obtain ⟨k, hk⟩ : ∃ k : ℕ, (n : ℤ) + scale = -k := ⟨(-(n + scale)).toNat, by omega⟩
    obtain ⟨t, shown⟩ := fraction_shows negative digits k
    refine ⟨t, _, _, ?_, .inl ⟨some, rfl, show -(k + ds.length : ℤ) = scale by omega⟩⟩
    rw [hk]
    simpa using shown
  · have plus (power : Int) : (if 0 ≤ power then numberLayout.plusSign else "").toList =
        if 0 ≤ power then ['+'] else [] := by
      split <;> rfl
    split
    · rename_i single
      obtain ⟨t, shown⟩ := power_shows negative digits lead (n + scale - 1)
      refine ⟨t, _, _, ?_, .inl ⟨some, rfl, show (n + scale - 1 : ℤ) = scale by omega⟩⟩
      simp only [String.toList_append, plus]
      simpa using shown
    · obtain ⟨t, shown⟩ := pointed_shows negative digits lead (k := 1) (by omega) (by omega)
        (Option.some (n + scale - 1))
      refine ⟨t, _, _, ?_, .inl ⟨some, rfl,
        show (n + scale - 1 - (ds.length - (1 : ℕ)) : ℤ) = scale by omega⟩⟩
      simp only [String.toList_append, plus]
      simpa using shown

theorem numberText_minus {s rest : List Char} {t : NumberText}
    (read : Leaves (unsigned true s) t rest) : Leaves (numberText ('-' :: s)) t rest := by
  obtain ⟨h, read⟩ := read
  refine ⟨Nat.lt_succ_of_lt h, ?_⟩
  rw [numberText, read]
  rfl

theorem numberText_plain {s rest : List Char} {t : NumberText} (plain : ∀ c ∈ s.head?, c ≠ '-')
    (read : Leaves (unsigned false s) t rest) : Leaves (numberText s) t rest := by
  obtain ⟨h, read⟩ := read
  refine ⟨h, ?_⟩
  unfold numberText
  split
  · exact absurd rfl (plain '-' rfl)
  · exact read

namespace NumberText

def signed (t : NumberText) : List Char :=
  if t.negative then '-' :: t.chars else t.chars

theorem WellFormed.lead_digit {t : NumberText} (formed : t.WellFormed) :
    ∃ c cs, t.chars = c :: cs ∧ c.isDigit = true := by
  obtain ⟨c, ds, whole⟩ := List.exists_cons_of_ne_nil formed.whole.1
  have digit : c.isDigit = true := formed.whole.2 c (by simp [whole])
  simp only [chars, whole, List.cons_append]
  exact ⟨c, _, rfl, digit⟩

theorem WellFormed.starts {t : NumberText} (formed : t.WellFormed) :
    ∃ c cs, t.signed = c :: cs ∧ (c = '-' ∨ c.isDigit = true) := by
  rw [signed]
  split
  · exact ⟨_, _, rfl, .inl rfl⟩
  · obtain ⟨c, cs, lead, digit⟩ := formed.lead_digit
    exact ⟨c, cs, lead, .inr digit⟩

end NumberText

theorem NumberText.WellFormed.signed_reads {t : NumberText} (formed : t.WellFormed)
    {rest : List Char} (stops : Stops rest) : Leaves (numberText (t.signed ++ rest)) t rest := by
  have read := formed.reads stops
  rw [NumberText.signed]
  by_cases sign : t.negative = true
  · rw [sign] at read
    rw [if_pos sign]
    exact numberText_minus read
  · have plain : t.negative = false := by simpa using sign
    rw [plain] at read
    rw [if_neg sign]
    refine numberText_plain ?_ read
    obtain ⟨c, cs, lead, digit⟩ := formed.lead_digit
    rw [lead]
    rintro _ ⟨⟩ rfl
    cases digit

theorem number_reads {t : NumberText} (formed : t.WellFormed) {rest : List Char}
    (stops : Stops rest) : outcome (number (t.signed ++ rest)) = t.value?.map (·, rest) := by
  obtain ⟨h, signed⟩ := formed.signed_reads stops
  rw [number, signed]
  simp only [Option.bind_eq_bind, Option.bind_some]
  cases t.value? <;> rfl

def NumberText.ofInt (n : Int) : NumberText :=
  ⟨decide (n < 0), Nat.toDigits 10 n.natAbs, none, none⟩

theorem NumberText.ofInt_formed (n : Int) : (NumberText.ofInt n).WellFormed := by
  refine ⟨toDigits_digits n.natAbs, fun ds same => ?_, by simp [NumberText.ofInt]⟩
  rw [NumberText.ofInt] at same
  rcases Nat.eq_zero_or_pos n.natAbs with none | some
  · rw [none, Nat.toDigits_zero] at same
    exact (List.cons.inj same).2.symm
  · obtain ⟨c, cs, lead, nonzero⟩ := toDigits_lead some
    rw [lead] at same
    exact absurd (List.cons.inj same).1 nonzero

theorem NumberText.ofInt_signed (n : Int) : (NumberText.ofInt n).signed = (toString n).toList := by
  rw [int_digits]
  simp [NumberText.ofInt, NumberText.signed, NumberText.chars]

theorem int_text {n : Int} (range : -0x8000000000000000 ≤ n ∧ n < 0x10000000000000000) :
    ∃ t : NumberText, t.WellFormed ∧ t.value? = some (.int n) ∧ t.signed = (toString n).toList := by
  refine ⟨.ofInt n, NumberText.ofInt_formed n, ?_, NumberText.ofInt_signed n⟩
  unfold NumberText.value? NumberText.ofInt
  simp only [digitsValue_toDigits, Option.isSome_none, Bool.or_self, Bool.false_eq_true, if_false]
  by_cases negative : n < 0
  · rw [if_pos (by simpa using negative), if_neg (by omega)]
    congr 2
    omega
  · rw [if_neg (by simpa using negative), if_pos (by omega)]
    congr 2
    omega

theorem takeDigits_all (cs : List Char) {n : Nat}
    (fits : Nat.ofDigitChars 10 cs n < 0x10000000000000000) :
    takeDigits n cs = (Nat.ofDigitChars 10 cs n, []) := by
  induction cs generalizing n with
  | nil => rfl
  | cons c cs ih =>
    rw [Nat.ofDigitChars_cons] at fits ⊢
    rw [takeDigits, if_pos (lt_of_le_of_lt (le_ofDigitChars cs _) fits), ih fits]

theorem NumberText.float?_eq {t : NumberText} (fits : t.digits < 0x10000000000000000)
    {x : Binary64} (made : Binary64.ofDigits t.negative t.digits t.scale = x)
    (finite : x.isFinite = true) : t.float? = some (.float x) := by
  subst made
  rw [NumberText.digits, digitsValue_eq, Nat.ofDigitChars_append] at fits finite ⊢
  have whole := takeDigits_all t.whole (lt_of_le_of_lt (le_ofDigitChars _ _) fits)
  have fraction := takeDigits_all (t.fraction.getD []) fits
  rw [NumberText.scale] at finite ⊢
  simp [NumberText.float?, whole, fraction, finite]

theorem NumberText.Shows.value? {t : NumberText} {text : List Char} {negative : Bool}
    {digits n j m : Nat} {scale e : Int} (shown : t.Shows text negative digits scale)
    (canonical : (Binary64.finite negative m e).IsCanonical) (fits : digits < 0x10000000000000000)
    (small : n < 2 ^ 53) (hj : j ≤ 971) (places : digits = n * 2 ^ j) (low : -22 ≤ scale)
    (high : scale ≤ 22) (same : (digits * 10 ^ scale : ℚ) = (Binary64.shortest m e).value) :
    t.value? = some (.float (.finite negative m e)) := by
  obtain ⟨-, -, rfl, float, rfl, rfl⟩ := shown
  rw [NumberText.value?, if_pos float]
  exact float?_eq fits (Binary64.ofDigits_shortest canonical small hj places low high same) rfl

/-- A finite float has the text of its shortest decimal; a short one is the value of that text. -/
theorem float_text (negative : Bool) (m : Nat) (e : Int) :
    ∃ t : NumberText, t.WellFormed ∧ t.value? = t.float? ∧
      t.signed = ((Binary64.finite negative m e).text numberLayout).toList ∧
      ((Binary64.finite negative m e).IsCanonical → (Binary64.shortest m e).IsShort →
        t.value? = some (.float (.finite negative m e))) := by
  obtain ⟨t, n, p, shown, digits⟩ := decimal_text (Binary64.shortest m e) negative
  refine ⟨t, shown.formed, ?_, ?_, ?_⟩
  · rw [NumberText.value?, if_pos shown.float]
  · rw [NumberText.signed, shown.sign, shown.chars, Binary64.text, String.toList_append]
    cases negative <;> rfl
  · intro canonical short
    have small := short.1
    rcases digits with ⟨some, rfl, rfl⟩ | ⟨rfl, rfl, whole⟩
    · have bits := lt_of_le_of_lt (Nat.le_mul_of_pos_right _ (by positivity)) small
      exact shown.value? canonical (bits.trans (by decide)) bits (Nat.zero_le _) (by simp) short.2
        (short.scale_lt some).le rfl
    · rcases Nat.eq_zero_or_pos (Binary64.shortest m e).digits with none | some
      · rw [none, Nat.zero_mul] at shown
        refine shown.value? canonical (n := 0) (j := 0) (by decide) (by decide) (by decide) rfl
          (by decide) (by decide) ?_
        simp [Decimal.value, none]
      · obtain ⟨whole, fits⟩ := whole.resolve_left some.ne'
        have high := short.scale_lt some
        generalize shortest : Binary64.shortest m e = x at *
        obtain ⟨digits, scale⟩ := x
        dsimp only at *
        lift scale to ℕ using whole
        have ten : 10 ^ (scale + 1) = 5 ^ (scale + 1) * 2 ^ (scale + 1) := by
          rw [← Nat.mul_pow]
        refine shown.value? canonical (fits.trans (by decide)) small (j := scale + 1) (by omega) ?_
          (by decide) (by decide) ?_
        · exact (congrArg (digits * ·) ten).trans (Nat.mul_assoc _ _ _).symm
        · rw [shortest, Decimal.value, Int.toNat_natCast]
          push_cast
          rw [zpow_natCast, pow_succ]
          field_simp

end Json

end ReadPlan
