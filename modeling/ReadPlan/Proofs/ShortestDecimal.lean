import ReadPlan.Proofs.FloatRounding
import Mathlib.Tactic.NormNum

/-!
The shortest decimal of a number reads back as the number: it is in the neighbourhood of the number,
since the multiples of a power of ten with seventeen digits are closer together than the numbers.
-/

namespace ReadPlan

def Decimal.value (x : Decimal) : ℚ :=
  x.digits * 10 ^ x.scale

namespace Binary64

/-! Decimals of a given length. -/

theorem decimalLength_bounds {n : Nat} (hn : 0 < n) :
    (10 : ℚ) ^ ((decimalLength n : ℤ) - 1) ≤ n ∧ (n : ℚ) < 10 ^ (decimalLength n : ℤ) := by
  have long : 0 < decimalLength n := Nat.length_toDigits_pos
  have high : n < 10 ^ decimalLength n :=
    (Nat.length_toDigits_le_iff (by decide) long).mp (le_refl _)
  have low : 10 ^ (decimalLength n - 1) ≤ n := by
    rcases Nat.eq_or_lt_of_le (Nat.succ_le_of_lt long) with single | more
    · rw [← single]
      exact Nat.succ_le_of_lt hn
    · by_contra small
      rw [not_le] at small
      have shorter := (Nat.length_toDigits_le_iff (by decide) (by omega)).mpr small
      change decimalLength n ≤ decimalLength n - 1 at shorter
      omega
  constructor
  · have same : (decimalLength n : ℤ) - 1 = ((decimalLength n - 1 : ℕ) : ℤ) := by omega
    rw [same]
    exact_mod_cast low
  · exact_mod_cast high

theorem tenfold_ratio (n : Nat) {d : Nat} (hd : 0 < d) (p : Int) :
    0 < (tenfold n d p).2 ∧
      ((tenfold n d p).1 : ℚ) / (tenfold n d p).2 = (n : ℚ) / d * 10 ^ p := by
  unfold tenfold
  split
  · rename_i up
    lift p to ℕ using up
    refine ⟨hd, ?_⟩
    simp [mul_div_right_comm]
  · rename_i down
    obtain ⟨k, rfl⟩ : ∃ k : ℕ, p = -k := ⟨(-p).toNat, by omega⟩
    refine ⟨by simpa using hd, ?_⟩
    simp [div_eq_mul_inv, mul_assoc, mul_comm]

theorem two_pow_lt_ten_pow :
    (2 : ℚ) ^ (53 : ℕ) * 2 ^ (971 : ℤ) < 10 ^ (310 : ℤ) ∧
      (10 : ℚ) ^ (-330 : ℤ) < 1 / 2 * 2 ^ (-1074 : ℤ) := by
  have large : 2 ^ 53 * 2 ^ 971 < 10 ^ 310 := by decide +kernel
  have small : 2 * 2 ^ 1074 < 10 ^ 330 := by decide +kernel
  constructor
  · exact_mod_cast large
  · have inverse : ((10 : ℚ) ^ 330)⁻¹ < (2 * 2 ^ 1074)⁻¹ := by
      refine inv_strictAnti₀ (by positivity) ?_
      exact_mod_cast small
    calc (10 : ℚ) ^ (-330 : ℤ) = (10 ^ 330)⁻¹ := by rw [zpow_neg]; rfl
      _ < (2 * 2 ^ 1074)⁻¹ := inverse
      _ = 1 / 2 * 2 ^ (-1074 : ℤ) := by rw [zpow_neg, mul_inv, one_div]; rfl

theorem value_near_positive {m : Nat} {e : Int} {q : ℚ} (hm : 0 < m) (near : Near m e q) :
    (1 : ℚ) / 2 * 2 ^ e ≤ q := by
  obtain ⟨low, -⟩ := near.bounds hm
  have one : (1 : ℚ) ≤ m := by exact_mod_cast hm
  rw [← le_div_iff₀ (by positivity)]
  linarith

/-- A decimal in the neighbourhood of a number is neither beyond the floats nor vanishes. -/
theorem reach_of_near {negative : Bool} {m : Nat} {e : Int}
    (canonical : (finite negative m e).IsCanonical) (hm : 0 < m) {digits : Nat} {scale : Int}
    (some : 0 < digits) (near : Near m e (digits * 10 ^ scale)) :
    (decimalLength digits : ℤ) + scale ≤ 310 ∧ -330 ≤ (decimalLength digits : ℤ) + scale := by
  obtain ⟨bits, least, most, -⟩ := canonical
  obtain ⟨low, high⟩ := decimalLength_bounds some
  have ten : (1 : ℚ) < 10 := by norm_num
  have scaled : (0 : ℚ) < 10 ^ scale := by positivity
  constructor
  · have above : (digits : ℚ) * 10 ^ scale < 10 ^ (310 : ℤ) := by
      obtain ⟨-, upper, -⟩ := near.bounds hm
      have bits : (m : ℚ) + 1 ≤ 2 ^ 53 := by exact_mod_cast bits
      rw [div_le_iff₀ (by positivity)] at upper
      have power : (2 : ℚ) ^ e ≤ 2 ^ (971 : ℤ) := zpow_le_zpow_right₀ one_le_two most
      calc (digits : ℚ) * 10 ^ scale ≤ (m + 1 / 2) * 2 ^ e := upper
        _ ≤ 2 ^ 53 * 2 ^ (971 : ℤ) := by
            gcongr
            linarith
        _ < 10 ^ (310 : ℤ) := two_pow_lt_ten_pow.1
    have reach : (10 : ℚ) ^ ((decimalLength digits : ℤ) - 1 + scale) < 10 ^ (310 : ℤ) := by
      rw [zpow_add₀ (by norm_num)]
      exact lt_of_le_of_lt (by gcongr) above
    have bound := (zpow_lt_zpow_iff_right₀ ten).mp reach
    omega
  · have below : (10 : ℚ) ^ (-330 : ℤ) < digits * 10 ^ scale := by
      have power : (2 : ℚ) ^ (-1074 : ℤ) ≤ 2 ^ e := zpow_le_zpow_right₀ one_le_two least
      calc (10 : ℚ) ^ (-330 : ℤ) < 1 / 2 * 2 ^ (-1074 : ℤ) := two_pow_lt_ten_pow.2
        _ ≤ 1 / 2 * 2 ^ e := by gcongr
        _ ≤ digits * 10 ^ scale := value_near_positive hm near
    have reach : (10 : ℚ) ^ (-330 : ℤ) < 10 ^ ((decimalLength digits : ℤ) + scale) := by
      rw [zpow_add₀ (by norm_num)]
      exact below.trans (by gcongr)
    have bound := (zpow_lt_zpow_iff_right₀ ten).mp reach
    omega

theorem ofDecimal_eq_of_near {negative : Bool} {m : Nat} {e : Int}
    (canonical : (finite negative m e).IsCanonical) (hm : 0 < m) {digits : Nat} {scale : Int}
    (near : Near m e (digits * 10 ^ scale)) :
    ofDecimal negative digits scale = finite negative m e := by
  have some : 0 < digits := by
    rcases Nat.eq_zero_or_pos digits with rfl | some
    · have positive := value_near_positive hm near
      have power : (0 : ℚ) < 2 ^ e := by positivity
      simp at positive
      linarith
    · exact some
  obtain ⟨small, large⟩ := reach_of_near canonical hm some near
  unfold ofDecimal
  simp only
  rw [if_neg some.ne', if_neg (by omega), if_neg (by omega)]
  split
  · rename_i up
    lift scale to ℕ using up
    refine ofRatio_eq_of_neighbour canonical hm (Nat.mul_pos some (by simp)) one_pos ?_
    simpa using near
  · rename_i down
    obtain ⟨k, rfl⟩ : ∃ k : ℕ, scale = -k := ⟨(-scale).toNat, by omega⟩
    refine ofRatio_eq_of_neighbour canonical hm some (by simp) ?_
    simpa [div_eq_mul_inv] using near

/-! The multiples of a power of ten next to a number. -/

section

variable {m : Nat} {e : Int}

theorem contains_iff (x : Decimal) :
    (neighbourhood m e).contains x = true ↔ Near m e x.value := by
  obtain ⟨num, den, unit⟩ := neighbourhood_unit m e
  obtain ⟨positive, ratio⟩ := tenfold_ratio (x.digits * (neighbourhood m e).unitDen) num x.scale
  have positive' : (0 : ℚ) < (tenfold (x.digits * (neighbourhood m e).unitDen)
      (neighbourhood m e).unitNum x.scale).2 := by exact_mod_cast positive
  have units : x.value = (tenfold (x.digits * (neighbourhood m e).unitDen)
      (neighbourhood m e).unitNum x.scale).1 / (tenfold (x.digits * (neighbourhood m e).unitDen)
      (neighbourhood m e).unitNum x.scale).2 * 2 ^ (e - 2) := by
    have num' : ((neighbourhood m e).unitNum : ℚ) ≠ 0 := by positivity
    have den' : ((neighbourhood m e).unitDen : ℚ) ≠ 0 := by positivity
    rw [ratio, ← unit, Decimal.value]
    push_cast
    field_simp
  have scale : (0 : ℚ) < 2 ^ (e - 2) := by positivity
  unfold Near Neighbourhood.contains
  rw [units]
  simp only
  generalize tenfold _ _ _ = p at *
  split
  · rw [Bool.and_eq_true, decide_eq_true_eq, decide_eq_true_eq, mul_le_mul_iff_left₀ scale,
      mul_le_mul_iff_left₀ scale, le_div_iff₀ positive', div_le_iff₀ positive']
    norm_cast
  · rw [Bool.and_eq_true, decide_eq_true_eq, decide_eq_true_eq, mul_lt_mul_iff_left₀ scale,
      mul_lt_mul_iff_left₀ scale, lt_div_iff₀ positive', div_lt_iff₀ positive']
    norm_cast

theorem neighbourhood_value :
    (((neighbourhood m e).value * (neighbourhood m e).unitNum : ℕ) : ℚ) /
      (neighbourhood m e).unitDen = m * 2 ^ e := by
  obtain ⟨num, den, unit⟩ := neighbourhood_unit m e
  have value : (neighbourhood m e).value = 4 * m := rfl
  rw [value, Nat.cast_mul, mul_div_assoc, unit, zpow_sub₀ two_ne_zero]
  push_cast
  ring

theorem pointPosition_bounds (hm : 0 < m) :
    (10 : ℚ) ^ ((neighbourhood m e).pointPosition - 1) ≤ m * 2 ^ e ∧
      (m * 2 ^ e : ℚ) < 10 ^ (neighbourhood m e).pointPosition := by
  obtain ⟨num, den, -⟩ := neighbourhood_unit m e
  have exact := neighbourhood_value (m := m) (e := e)
  have some : 0 < (neighbourhood m e).value * (neighbourhood m e).unitNum :=
    Nat.mul_pos (by simpa [neighbourhood] using hm) num
  unfold Neighbourhood.pointPosition
  simp only
  generalize (neighbourhood m e).value * (neighbourhood m e).unitNum = n at *
  generalize (neighbourhood m e).unitDen = d at *
  obtain ⟨p, hp⟩ : ∃ p : ℤ, p = (decimalLength n : ℤ) - decimalLength d := ⟨_, rfl⟩
  rw [← hp]
  have ten : (10 : ℚ) ≠ 0 := by norm_num
  have positive : (0 : ℚ) < d := by exact_mod_cast den
  have size {k : Nat} (hk : 0 < k) : (10 : ℚ) ^ ((decimalLength k : ℤ) - 1) ≤ k ∧
      (k : ℚ) < 10 ^ ((decimalLength k : ℤ) - 1 + 1) := by
    rw [sub_add_cancel]
    exact decimalLength_bounds hk
  obtain ⟨low, high⟩ := ratio_bounds (by norm_num) (size some) (size den)
  rw [exact, sub_sub_sub_cancel_right, ← hp] at low high
  have compare : (tenfold d n p).1 ≤ (tenfold d n p).2 ↔ (10 : ℚ) ^ p ≤ m * 2 ^ e := by
    obtain ⟨scaled, ratio⟩ := tenfold_ratio d some p
    have scaled' : (0 : ℚ) < (tenfold d n p).2 := by exact_mod_cast scaled
    have whole : (0 : ℚ) < n := by exact_mod_cast some
    have cast : (tenfold d n p).1 ≤ (tenfold d n p).2 ↔
        ((tenfold d n p).1 : ℚ) ≤ (tenfold d n p).2 := Nat.cast_le.symm
    rw [cast, ← exact, le_div_iff₀ positive, ← div_le_one scaled', ratio, div_mul_eq_mul_div,
      div_le_one whole, mul_comm]
  split
  · rename_i reaches
    exact ⟨by simpa using compare.mp reaches, high⟩
  · rename_i short
    exact ⟨low, not_le.mp (mt compare.mpr short)⟩

theorem gridBelow_bounds (scale : Int) :
    ((neighbourhood m e).gridBelow scale : ℚ) * 10 ^ scale ≤ m * 2 ^ e ∧
      (m * 2 ^ e : ℚ) < ((neighbourhood m e).gridBelow scale + 1) * 10 ^ scale := by
  obtain ⟨-, den, -⟩ := neighbourhood_unit m e
  have exact := neighbourhood_value (m := m) (e := e)
  obtain ⟨scaled, ratio⟩ :=
    tenfold_ratio ((neighbourhood m e).value * (neighbourhood m e).unitNum) den (-scale)
  rw [exact, zpow_neg] at ratio
  unfold Neighbourhood.gridBelow
  simp only
  generalize tenfold _ _ _ = p at *
  have scaled' : (0 : ℚ) < p.2 := by exact_mod_cast scaled
  have power : (0 : ℚ) < 10 ^ scale := by positivity
  have number : (m * 2 ^ e : ℚ) = p.1 / p.2 * 10 ^ scale := by
    rw [ratio]
    field_simp
  rw [number, mul_le_mul_iff_left₀ power, mul_lt_mul_iff_left₀ power, le_div_iff₀ scaled',
    div_lt_iff₀ scaled']
  constructor
  · exact_mod_cast Nat.div_mul_le_self p.1 p.2
  · exact_mod_cast Nat.lt_mul_of_div_lt (Nat.lt_succ_self (p.1 / p.2)) scaled

theorem onGrid_near {scale : Int} {x : Decimal}
    (found : (neighbourhood m e).onGrid scale = some x) : Near m e x.value := by
  rw [← contains_iff]
  unfold Neighbourhood.onGrid at found
  simp only at found
  split at found
  · rename_i below above
    cases found
    split
    · exact above
    · exact below
  · rename_i below _
    cases found
    exact below
  · rename_i _ above
    cases found
    exact above
  · cases found

theorem near_of_inside {q : ℚ} (low : ((neighbourhood m e).low : ℚ) < 4 * (q / 2 ^ e))
    (high : 4 * (q / 2 ^ e) < (neighbourhood m e).high) : Near m e q := by
  have positive : (0 : ℚ) < 2 ^ (e - 2) := by positivity
  rw [quarters_eq, lt_div_iff₀ positive] at low
  rw [quarters_eq, div_lt_iff₀ positive] at high
  unfold Near
  simp only
  split
  · exact ⟨low.le, high.le⟩
  · exact ⟨low, high⟩

theorem onGrid_none {scale : Int} (none : (neighbourhood m e).onGrid scale = none) :
    ¬ Near m e ((neighbourhood m e).gridBelow scale * 10 ^ scale) ∧
      ¬ Near m e (((neighbourhood m e).gridBelow scale + 1) * 10 ^ scale) := by
  have below := contains_iff (m := m) (e := e) ⟨(neighbourhood m e).gridBelow scale, scale⟩
  have above := contains_iff (m := m) (e := e) ⟨(neighbourhood m e).gridBelow scale + 1, scale⟩
  simp only [Decimal.value] at below above
  push_cast at above
  rw [← below, ← above]
  unfold Neighbourhood.onGrid at none
  simp only at none
  split at none <;> simp_all

/-- With seventeen digits one of the two neighbours rounds to the number. -/
theorem onGrid_isSome {negative : Bool} (canonical : (finite negative m e).IsCanonical) (hm : 0 < m)
    {scale : Int} (fine : (10 : ℚ) ^ scale * 10 ^ 16 ≤ m * 2 ^ e) :
    ((neighbourhood m e).onGrid scale).isSome = true := by
  rw [Option.isSome_iff_ne_none]
  intro none
  obtain ⟨below, above⟩ := onGrid_none none
  obtain ⟨low, high⟩ := gridBelow_bounds (m := m) (e := e) scale
  have bits : (m : ℚ) < 2 ^ 53 := by exact_mod_cast canonical.1
  generalize ((neighbourhood m e).gridBelow scale : ℚ) = g at *
  have unit : (0 : ℚ) < 2 ^ e := by positivity
  -- all in units of the last place: the number is `m`, and the step of the grid is `t`
  obtain ⟨t, ht⟩ : ∃ t : ℚ, (10 : ℚ) ^ scale = t * 2 ^ e := ⟨10 ^ scale / 2 ^ e, by field_simp⟩
  rw [ht] at low high below above fine
  rw [← mul_assoc, mul_le_mul_iff_left₀ unit] at low
  rw [← mul_assoc, mul_lt_mul_iff_left₀ unit] at high
  rw [mul_right_comm, mul_le_mul_iff_left₀ unit] at fine
  have cancel (x : ℚ) : x * (t * 2 ^ e) / 2 ^ e = x * t := by
    field_simp
  have top := neighbourhood_high m e
  have bottom := neighbourhood_low m e hm
  have beneath : ((neighbourhood m e).low : ℚ) ≤ 4 * m - 1 := by
    rcases bottom with ⟨half, -⟩ | ⟨quarter, -⟩ <;> linarith
  have lowMiss : 4 * (g * t) ≤ (neighbourhood m e).low := by
    by_contra inside
    exact below (near_of_inside (by rw [cancel]; linarith) (by rw [cancel]; linarith))
  have highMiss : ((neighbourhood m e).high : ℚ) ≤ 4 * ((g + 1) * t) := by
    by_contra inside
    exact above (near_of_inside (by rw [cancel]; linarith) (by rw [cancel]; linarith))
  -- so the grid would be wider than the neighbourhood
  rcases bottom with ⟨half, -⟩ | ⟨quarter, power, -⟩
  · linarith
  · have power : (m : ℚ) = 2 ^ 52 := by exact_mod_cast power
    linarith

theorem dropZeros_value (k digits : Nat) (scale : Int) :
    (dropZeros k digits scale).value = digits * 10 ^ scale := by
  induction k generalizing digits scale with
  | zero => rfl
  | succ k ih =>
    rw [dropZeros]
    split
    · rename_i divides
      have tens : digits = digits / 10 * 10 := by omega
      have cast : (digits : ℚ) = (digits / 10 : ℕ) * 10 := by exact_mod_cast tens
      rw [ih, cast, zpow_add_one₀ (by norm_num)]
      ring
    · rfl

theorem shortest_near {negative : Bool} (canonical : (finite negative m e).IsCanonical)
    (hm : 0 < m) : Near m e (shortest m e).value := by
  unfold shortest
  rw [if_neg hm.ne']
  simp only
  split
  · rename_i x found
    obtain ⟨i, -, made⟩ := List.exists_of_findSome?_eq_some found
    have near := onGrid_near made
    rwa [dropZeros_value]
  · rename_i none
    have last := List.findSome?_eq_none_iff.mp none 16 (by simp)
    have fine : (10 : ℚ) ^ ((neighbourhood m e).pointPosition - ((16 + 1 : ℕ) : ℤ)) * 10 ^ 16 ≤
        m * 2 ^ e := by
      refine le_trans (le_of_eq ?_) (pointPosition_bounds hm).1
      rw [← zpow_natCast, ← zpow_add₀ (by norm_num)]
      congr 1
      omega
    have found := onGrid_isSome canonical hm fine
    rw [last] at found
    cases found

end

/-- A ratio of the same value as the shortest decimal of a canonical number rounds to it. -/
theorem ofRatio_shortest {negative : Bool} {m : Nat} {e : Int}
    (canonical : (finite negative m e).IsCanonical) {n d : Nat} (hd : 0 < d)
    (same : (n : ℚ) / d = (shortest m e).value) : ofRatio negative n d = finite negative m e := by
  rcases Nat.eq_zero_or_pos m with rfl | hm
  · obtain ⟨-, -, -, full⟩ := canonical
    obtain rfl : e = -1074 := full.resolve_left (by decide)
    have none : n = 0 := by
      rw [shortest, if_pos rfl] at same
      simpa [Decimal.value, hd.ne'] using same
    rw [ofRatio, if_pos none, zero]
  · have near := shortest_near canonical hm
    have positive := value_near_positive hm near
    rw [← same] at near positive
    refine ofRatio_eq_of_neighbour canonical hm (Nat.pos_of_ne_zero ?_) hd near
    rintro rfl
    have power : (0 : ℚ) < 2 ^ e := by positivity
    simp at positive
    linarith

/-- A canonical number is read from any decimal of the same value as its shortest one. -/
theorem ofDecimal_shortest {negative : Bool} {m : Nat} {e : Int}
    (canonical : (finite negative m e).IsCanonical) {digits : Nat} {scale : Int}
    (same : (digits * 10 ^ scale : ℚ) = (shortest m e).value) :
    ofDecimal negative digits scale = finite negative m e := by
  rcases Nat.eq_zero_or_pos m with rfl | hm
  · obtain ⟨-, -, -, full⟩ := canonical
    obtain rfl : e = -1074 := full.resolve_left (by decide)
    have none : digits = 0 := by
      have power : (0 : ℚ) < 10 ^ scale := by positivity
      rw [shortest, if_pos rfl] at same
      simpa [Decimal.value, power.ne'] using same
    rw [ofDecimal, if_pos none]
    rfl
  · refine ofDecimal_eq_of_near canonical hm ?_
    rw [same]
    exact shortest_near canonical hm

end Binary64

end ReadPlan
