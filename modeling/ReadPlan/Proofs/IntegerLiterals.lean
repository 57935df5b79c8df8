import ReadPlan.Proofs.CatalogBuild
import ReadPlan.Proofs.MachineNumbers
import ReadPlan.Proofs.NumberReading
import ReadPlan.Proofs.WrittenValues

namespace ReadPlan

/-- What a number text stands for. -/
def numeral? (text : String) : Option ℚ :=
  match Json.numberText text.toList with
  | some (t, ⟨[], _⟩) => some (if t.negative then -t.magnitude else t.magnitude)
  | _ => none

theorem numeral_of_leaves {text : String} {t : Json.NumberText}
    (read : Leaves (Json.numberText text.toList) t []) :
    numeral? text = some (if t.negative then -t.magnitude else t.magnitude) := by
  obtain ⟨h, read⟩ := read
  rw [numeral?, read]

theorem int_numeral (n : Int) : numeral? (toString n) = some (n : ℚ) := by
  have ended : Json.Stops [] := by simp [Json.Stops]
  have read := (Json.NumberText.ofInt_formed n).signed_reads ended
  rw [List.append_nil, Json.NumberText.ofInt_signed] at read
  have magnitude : (Json.NumberText.ofInt n).magnitude = |(n : ℚ)| := by
    simp [Json.NumberText.magnitude, Json.NumberText.ofInt]
  rw [numeral_of_leaves read, magnitude]
  by_cases negative : n < 0
  · have sign : (Json.NumberText.ofInt n).negative = true := by
      simpa [Json.NumberText.ofInt] using negative
    have below : (n : ℚ) < 0 := by exact_mod_cast negative
    rw [if_pos sign, abs_of_neg below, neg_neg]
  · have sign : ¬ (Json.NumberText.ofInt n).negative = true := by
      simpa [Json.NumberText.ofInt] using negative
    have above : (0 : ℚ) ≤ n := by exact_mod_cast not_lt.mp negative
    rw [if_neg sign, abs_of_nonneg above]

theorem exponentPart_unsigned {ds rest : List Char} (digits : Digits ds)
    (ends : ∀ c ∈ rest.head?, c.isDigit = false) :
    Leaves (Json.exponentPart ('e' :: (ds ++ rest))) (some (Text.digitsValue ds : Int)) rest := by
  have read := Json.exponentDigits_reads false digits ends
  obtain ⟨c, cs, rfl⟩ := List.exists_cons_of_ne_nil digits.1
  have digit := digits.2 c (by simp)
  rw [List.cons_append] at read ⊢
  obtain ⟨h, read⟩ := read
  refine ⟨Nat.le_succ_of_le h, ?_⟩
  have unsigned {sign : Char} (other : sign.isDigit = false) (u : List Char) :
      c :: (cs ++ rest) ≠ sign :: u := by
    intro same
    rw [(List.cons.inj same).1, other] at digit
    cases digit
  rw [Json.exponentPart]
  · simp only [read]
    rfl
  · exact unsigned rfl
  · exact unsigned rfl

theorem numeral_unsigned {text : String} {c : Char} {tail : List Char} (digit : c.isDigit = true)
    {fraction : Option (List Char)} {exponent : Option Int} (chars : text.toList = c :: tail)
    (read : Leaves (Json.unsigned false (c :: tail)) ⟨false, [c], fraction, exponent⟩ []) :
    numeral? text = some (Json.NumberText.magnitude ⟨false, [c], fraction, exponent⟩) := by
  have plain : ∀ d ∈ (c :: tail).head?, d ≠ '-' := by
    rintro _ ⟨⟩ rfl
    cases digit
  have whole := Json.numberText_plain plain read
  rw [← chars] at whole
  rw [numeral_of_leaves whole, if_neg (by simp)]

theorem power_text {x : Decimal} (some : x.digits ≠ 0)
    (long : 16 < (Nat.toDigits 10 x.digits).length + x.scale) :
    ∃ k : ℕ, ((Nat.toDigits 10 x.digits).length : ℤ) + x.scale - 1 = k ∧
      x.text Sql.floatLayout =
        (if (Nat.toDigits 10 x.digits).length = 1 then String.ofList (Nat.toDigits 10 x.digits)
          else pointed (Nat.toDigits 10 x.digits) 1) ++ "e" ++ toString (k : ℤ) := by
  obtain ⟨k, hk⟩ : ∃ k : ℕ, ((Nat.toDigits 10 x.digits).length : ℤ) + x.scale - 1 = k :=
    ⟨((Nat.toDigits 10 x.digits).length + x.scale - 1).toNat, by omega⟩
  refine ⟨k, hk, ?_⟩
  rw [Decimal.text]
  simp only
  rw [if_neg some, if_neg (by omega), if_neg (by omega), if_neg (by omega), hk]
  simp [Sql.floatLayout]

theorem power_numeral {x : Decimal} (some : x.digits ≠ 0)
    (long : 16 < (Nat.toDigits 10 x.digits).length + x.scale) :
    numeral? (x.text Sql.floatLayout) = .some x.value := by
  have digits := toDigits_digits x.digits
  have value := digitsValue_toDigits x.digits
  obtain ⟨k, hk, text⟩ := power_text some long
  have ended : ∀ c ∈ ([] : List Char).head?, c.isDigit = false := by simp
  have power := exponentPart_unsigned (toDigits_digits k) ended
  rw [digitsValue_toDigits, List.append_nil] at power
  rw [text, Decimal.value]
  generalize Nat.toDigits 10 x.digits = ds at *
  rw [← value]
  obtain ⟨c, ds, rfl⟩ := List.exists_cons_of_ne_nil digits.1
  obtain ⟨digit, others⟩ := List.forall_mem_cons.mp digits.2
  have exponent : (k : ℤ).repr.toList = Nat.toDigits 10 k := Nat.toList_repr
  have first : Digits [c] := ⟨by simp, by simpa using digit⟩
  cases ds with
  | nil =>
    have read := Json.unsigned_reads false first (fun _ => rfl) (by simp)
      (Json.fractionPart_none (by simp)) power
    rw [if_pos (by simp), numeral_unsigned digit (by simp [exponent]) read]
    have scale : x.scale = k := by
      rw [List.length_singleton] at hk
      omega
    simp [Json.NumberText.magnitude, scale]
  | cons d ds =>
    have behind : Digits (d :: ds) := ⟨by simp, others⟩
    have ended : ∀ c ∈ ('e' :: Nat.toDigits 10 k).head?, c.isDigit = false := by simp
    have fraction := Json.fractionPart_point behind ended
    have read := Json.unsigned_reads false first (fun _ => rfl) (by simp) fraction power
    rw [if_neg (by simp), numeral_unsigned digit (by simp [pointed, exponent]) read]
    have scale : x.scale = k - (d :: ds).length := by
      rw [List.length_cons] at hk
      omega
    simp [Json.NumberText.magnitude, scale]

namespace Binary64

variable {m : Nat} {e : Int}

theorem onGrid_scale {scale : Int} {x : Decimal}
    (found : (neighbourhood m e).onGrid scale = some x) : x.scale = scale := by
  unfold Neighbourhood.onGrid at found
  simp only at found
  split at found <;> cases found
  · split <;> rfl
  · rfl
  · rfl

/-- At most seventeen digits, so far as those are not zeros at the end. -/
theorem shortest_on_grid (hm : 0 < m) : ∃ (g : Nat) (scale : Int),
    (neighbourhood m e).pointPosition - 17 ≤ scale ∧ (shortest m e).value = g * 10 ^ scale := by
  unfold shortest
  rw [if_neg hm.ne']
  simp only
  split
  · rename_i x found
    obtain ⟨i, inside, made⟩ := List.exists_of_findSome?_eq_some found
    rw [List.mem_range] at inside
    refine ⟨x.digits, x.scale, ?_, dropZeros_value ..⟩
    rw [onGrid_scale made]
    omega
  · exact ⟨_, _, le_refl _, rfl⟩

theorem ofInt_natCast (k : ℕ) : ofInt (k : ℤ) = ofRatio false k 1 := by
  rw [ofInt, decide_eq_false (by omega)]
  rfl

theorem unitExponent_large {k : ℕ} (low : 2 ^ 63 ≤ k) (high : k < 2 ^ 64) :
    unitExponent k 1 = 11 := by
  have low' : (2 : ℚ) ^ 63 ≤ k := by exact_mod_cast low
  have high' : (k : ℚ) < 2 ^ 64 := by exact_mod_cast high
  refine unitExponent_eq_of_bounds (by omega) one_pos (by decide) ?_ (.inr ?_)
  · norm_num
    linarith
  · norm_num
    linarith

theorem ofInt_large {n : Int} (low : 0x8000000000000000 ≤ n) (high : n < 0x10000000000000000) :
    ∃ m e, ofInt n = finite false m e ∧ (finite false m e).IsCanonical ∧
      (2 : ℚ) ^ 63 ≤ m * 2 ^ e := by
  obtain ⟨k, rfl⟩ := Int.eq_ofNat_of_zero_le (by omega : 0 ≤ n)
  have some : 0 < k := by omega
  have finite := ofInt_isFinite (n := (k : ℤ)) (by omega)
  rw [ofInt_natCast] at finite ⊢
  have canonical := ofRatio_isCanonical one_pos finite
  have scaled : descale k 1 11 = (k, 2 ^ 11) := by
    simp [descale]
  have rounded : 2 ^ 52 ≤ roundQuotient k (2 ^ 11) :=
    le_trans (by omega) (roundQuotient_bounds k (2 ^ 11)).1
  rw [ofRatio_eq_carried false some, unitExponent_large (by omega) (by omega), scaled]
    at canonical ⊢
  simp only at canonical ⊢
  generalize roundQuotient k (2 ^ 11) = r at *
  by_cases carry : r = 2 ^ 53
  · rw [carried, if_pos carry, if_neg (by decide)] at canonical ⊢
    exact ⟨_, _, rfl, canonical, by norm_num⟩
  · rw [carried, if_neg carry, if_neg (by decide)] at canonical ⊢
    have cast : (2 : ℚ) ^ 52 ≤ r := by exact_mod_cast rounded
    refine ⟨_, _, rfl, canonical, ?_⟩
    calc (2 : ℚ) ^ 63 = 2 ^ 52 * 2 ^ (11 : ℤ) := by norm_num
      _ ≤ (r : ℚ) * 2 ^ (11 : ℤ) := by gcongr

theorem value_pos_of_near {x : Decimal} (hm : 0 < m) (near : Near m e x.value) : x.digits ≠ 0 := by
  intro none
  have positive := value_near_positive hm near
  have power : (0 : ℚ) < 2 ^ e := by positivity
  simp [Decimal.value, none] at positive
  linarith

section

variable (canonical : (finite false m e).IsCanonical) (large : (2 : ℚ) ^ 63 ≤ m * 2 ^ e)

include large

theorem pos_of_large : 0 < m := by
  rcases Nat.eq_zero_or_pos m with rfl | hm
  · norm_num at large
  · exact hm

theorem large_hundreds : ∃ k : ℕ, (shortest m e).value = 100 * k := by
  have hm := pos_of_large large
  obtain ⟨g, scale, fine, value⟩ := shortest_on_grid (e := e) hm
  have point : (19 : ℤ) ≤ (neighbourhood m e).pointPosition := by
    have below : (10 : ℚ) ^ (18 : ℤ) < 10 ^ (neighbourhood m e).pointPosition :=
      lt_of_lt_of_le (by norm_num) (large.trans (pointPosition_bounds hm).2.le)
    have strict := (zpow_lt_zpow_iff_right₀ (by norm_num)).mp below
    omega
  obtain ⟨j, rfl⟩ : ∃ j : ℕ, scale = j + 2 := ⟨(scale - 2).toNat, by omega⟩
  refine ⟨g * 10 ^ j, ?_⟩
  rw [value, zpow_add₀ (by norm_num)]
  push_cast
  norm_cast
  ring

include canonical

theorem large_digits : (shortest m e).digits ≠ 0 :=
  value_pos_of_near (pos_of_large large) (shortest_near canonical (pos_of_large large))

theorem large_length :
    16 < ((Nat.toDigits 10 (shortest m e).digits).length : ℤ) + (shortest m e).scale := by
  have hm := pos_of_large large
  obtain ⟨low, -⟩ := (shortest_near canonical hm).bounds hm
  have one : (1 : ℚ) ≤ m := by exact_mod_cast hm
  have half : (m * 2 ^ e : ℚ) / 2 ≤ (shortest m e).value := by
    rw [le_div_iff₀ (by positivity)] at low
    refine le_trans ?_ low
    rw [mul_div_right_comm]
    gcongr
    linarith
  have above : (10 : ℚ) ^ (17 : ℤ) < (shortest m e).value :=
    lt_of_lt_of_le (by norm_num) ((div_le_div_of_nonneg_right large zero_le_two).trans half)
  obtain ⟨-, short⟩ :=
    decimalLength_bounds (Nat.pos_of_ne_zero (large_digits canonical large))
  have reach : (10 : ℚ) ^ (17 : ℤ) <
      10 ^ ((decimalLength (shortest m e).digits : ℤ) + (shortest m e).scale) := by
    rw [zpow_add₀ (by norm_num)]
    exact above.trans (by rw [Decimal.value]; gcongr)
  have strict := (zpow_lt_zpow_iff_right₀ (by norm_num)).mp reach
  rw [decimalLength] at strict
  omega

end

end Binary64

namespace Sql

def Token.isNumber : Token → Bool
  | .int _ | .float _ => true
  | _ => false

def integerText (d : Dialect) (n : Int) : String :=
  (Literal.ofJson (.int n)).token.text d

section

variable {d : Dialect} {n k : Int}

theorem integerText_small (small : n < 0x8000000000000000) : integerText d n = toString n := by
  rw [integerText, Literal.ofJson, if_pos small]
  rfl

theorem integerText_large (low : 0x8000000000000000 ≤ n) :
    integerText d n = (Binary64.ofInt n).text floatLayout := by
  rw [integerText, Literal.ofJson, if_neg (not_lt.mpr low)]
  rfl

theorem large_literal (low : 0x8000000000000000 ≤ n) (high : n < 0x10000000000000000) :
    ∃ m e, Binary64.ofInt n = .finite false m e ∧ (Binary64.finite false m e).IsCanonical ∧
      'e' ∈ (integerText d n).toList ∧
      numeral? (integerText d n) = some (Binary64.shortest m e).value ∧
      ∃ hundreds : ℕ, (Binary64.shortest m e).value = 100 * hundreds := by
  obtain ⟨m, e, rounded, canonical, large⟩ := Binary64.ofInt_large low high
  have some := Binary64.large_digits canonical large
  have long := Binary64.large_length canonical large
  have text : integerText d n = (Binary64.shortest m e).text floatLayout := by
    rw [integerText_large low, rounded]
    exact String.empty_append
  refine ⟨m, e, rounded, canonical, ?_, ?_, Binary64.large_hundreds large⟩
  · obtain ⟨k, -, power⟩ := power_text some long
    rw [text, power]
    simp
  · rw [text, power_numeral some long]

theorem no_exponent (n : Int) : 'e' ∉ (toString n).toList := by
  intro mem
  have digit {ds : List Char} (digits : Digits ds) : 'e' ∉ ds := fun inside => by
    cases digits.2 'e' inside
  obtain ⟨ds, digits, plain | negative⟩ := int_text n
  · exact digit digits (plain ▸ mem)
  · rw [negative] at mem
    rcases List.mem_cons.mp mem with sign | inside
    · cases sign
    · exact digit digits inside

/-- Integers have the same text only where they have the same nearest float. -/
theorem integerText_eq_iff (hn : n < 0x10000000000000000) (hk : k < 0x10000000000000000) :
    integerText d n = integerText d k ↔ n = k ∨
      0x8000000000000000 ≤ n ∧ 0x8000000000000000 ≤ k ∧ Binary64.ofInt n = Binary64.ofInt k := by
  constructor
  · intro same
    rcases lt_or_ge n 0x8000000000000000 with smallN | largeN <;>
      rcases lt_or_ge k 0x8000000000000000 with smallK | largeK
    · rw [integerText_small smallN, integerText_small smallK] at same
      have values := int_numeral n
      rw [same, int_numeral k] at values
      exact .inl (by exact_mod_cast (Option.some.inj values).symm)
    · obtain ⟨m, e, -, -, exponent, -⟩ := large_literal (d := d) largeK hk
      rw [← same, integerText_small smallN] at exponent
      exact absurd exponent (no_exponent n)
    · obtain ⟨m, e, -, -, exponent, -⟩ := large_literal (d := d) largeN hn
      rw [same, integerText_small smallK] at exponent
      exact absurd exponent (no_exponent k)
    · obtain ⟨m, e, roundedN, canonicalN, -, valueN, -⟩ := large_literal (d := d) largeN hn
      obtain ⟨m', e', roundedK, canonicalK, -, valueK, -⟩ := large_literal (d := d) largeK hk
      rw [same, valueK] at valueN
      have values := Option.some.inj valueN
      refine .inr ⟨largeN, largeK, ?_⟩
      rw [roundedN, roundedK, ← Binary64.ofDecimal_shortest canonicalK rfl,
        Binary64.ofDecimal_shortest canonicalN values]
  · rintro (rfl | ⟨largeN, largeK, same⟩)
    · rfl
    · rw [integerText_large largeN, integerText_large largeK, same]

end

end Sql

/-- Every number of an operand is written where it stands in it. The text of an integer is exact for
64 signed bits; beyond, it is a multiple of a hundred that rounds to the same float, and the same
for all integers of which that float is the nearest. -/
theorem integer_operands_written {f : Frame} {path : String} {op : Operator} {v : Json}
    {operand : Operand} {d : Dialect} {t : Target} {e : Sql.Expr}
    (compiled : Operand.ofJson f path op v = .ok operand)
    (rendered : Comparison.expr d ⟨t, op, operand⟩ = .ok e) :
    (e.tokens d).filter Sql.Token.isNumber =
      (v.parts.map fun w => (Sql.Literal.ofJson w).token).filter Sql.Token.isNumber ∧
    (∀ n : Int, n < 0x10000000000000000 → ∃ q, numeral? (Sql.integerText d n) = some q ∧
      (n < 0x8000000000000000 → q = n) ∧
      (0x8000000000000000 ≤ n → (∃ hundreds : ℕ, q = 100 * hundreds) ∧
        ∃ x : Decimal, q = x.value ∧ Binary64.ofDecimal false x.digits x.scale = .ofInt n)) ∧
    (∀ n k : Int, n < 0x10000000000000000 → k < 0x10000000000000000 →
      (Sql.integerText d n = Sql.integerText d k ↔ n = k ∨
        0x8000000000000000 ≤ n ∧ 0x8000000000000000 ≤ k ∧
          Binary64.ofInt n = Binary64.ofInt k)) := by
  refine ⟨?_, fun n high => ?_, fun n k hn hk => Sql.integerText_eq_iff hn hk⟩
  · have numbers (ts : List Sql.Token) :
        ts.filter Sql.Token.isNumber = (Sql.plainValues ts).filter Sql.Token.isNumber := by
      rw [Sql.plainValues, List.filter_filter]
      refine List.filter_congr fun token _ => ?_
      cases token <;> rfl
    have written := Operand.written_of_parts compiled
    rw [numbers, numbers (v.parts.map _)]
    by_cases test : Comparison.TestsNull ⟨t, op, operand⟩
    · rw [Comparison.no_values_written rendered test]
      obtain ⟨-, rfl⟩ := test
      have none : (Sql.writtenValues [.null]).filter Sql.Token.isNumber = [] := rfl
      exact none.symm.trans (congrArg _ written)
    · rw [Comparison.values_written rendered test]
      exact congrArg _ written
  · rcases lt_or_ge n 0x8000000000000000 with small | large
    · rw [Sql.integerText_small small]
      exact ⟨n, int_numeral n, fun _ => rfl, fun large => absurd small (not_lt.mpr large)⟩
    · obtain ⟨m, e, rounded, canonical, -, value, hundreds⟩ :=
        Sql.large_literal (d := d) large high
      have read := Binary64.ofDecimal_shortest canonical rfl
      rw [← rounded] at read
      exact ⟨_, value, fun small => absurd small (not_lt.mpr large),
        fun _ => ⟨hundreds, _, rfl, read⟩⟩

theorem length_range_written :
    ∃ e, Comparison.expr .mysql
        ⟨.field ⟨"length", ⟨"film", "length"⟩⟩, .between, .range (.int 90) (.int 120)⟩ = .ok e ∧
      (e.tokens .mysql).filter Sql.Token.isNumber = [.int 90, .int 120] := by
  have compiled : Operand.ofJson ⟨filmCatalog, filmEntity, .reject⟩ "length" .between
      (.arr [.int 90, .int 120]) = .ok (.range (.int 90) (.int 120)) := rfl
  exact ⟨_, rfl, (integer_operands_written compiled rfl).1⟩

/-- The first integer beyond 64 signed bits and the next one are both written as another one. -/
theorem large_integers_written_alike :
    (∃ e, Comparison.expr .postgres
        ⟨.field ⟨"film_id", ⟨"film", "film_id"⟩⟩, .eq, .value (.int 9223372036854775809)⟩ = .ok e ∧
      (Sql.Literal.ofJson (.int 9223372036854775809)).token ∈ e.tokens .postgres) ∧
    Sql.integerText .postgres 9223372036854775808 = "9.223372036854776e18" ∧
    Sql.integerText .postgres 9223372036854775809 = "9.223372036854776e18" ∧
    numeral? "9.223372036854776e18" = some 9223372036854776000 := by
  refine ⟨⟨_, rfl, List.mem_append_right _ (List.mem_cons_of_mem _ (List.mem_singleton_self _))⟩,
    by decide +kernel, by decide +kernel, ?_⟩
  have text : Decimal.text Sql.floatLayout ⟨9223372036854776, 3⟩ = "9.223372036854776e18" := by
    decide +kernel
  rw [← text, power_numeral (by decide) (by decide +kernel)]
  norm_num [Decimal.value]

end ReadPlan
