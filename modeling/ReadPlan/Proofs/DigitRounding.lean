import ReadPlan.Proofs.ShortestDecimal

namespace ReadPlan

/-- The digits, with the zeros that the text of a whole number adds, and the power of ten are
binary64 numbers themselves. -/
def Decimal.IsShort (x : Decimal) : Prop :=
  x.digits * 5 ^ (x.scale + 1).toNat < 2 ^ 53 ∧ -22 ≤ x.scale

instance (x : Decimal) : Decidable x.IsShort :=
  inferInstanceAs (Decidable (_ ∧ _))

theorem Decimal.IsShort.scale_lt {x : Decimal} (short : x.IsShort) (some : 0 < x.digits) :
    x.scale < 22 := by
  have power : 5 ^ (x.scale + 1).toNat < 5 ^ 23 :=
    lt_of_le_of_lt (Nat.le_mul_of_pos_left _ some) (short.1.trans (by decide))
  have places := (Nat.pow_lt_pow_iff_right (by decide)).mp power
  omega

namespace Binary64

theorem ofRatio_of_value {negative : Bool} {m : Nat} {e : Int}
    (canonical : (finite negative m e).IsCanonical) {n d : Nat} (hd : 0 < d)
    (same : (n : ℚ) / d = m * 2 ^ e) : ofRatio negative n d = finite negative m e := by
  have unit : (2 : ℚ) ^ e ≠ 0 := by positivity
  have divisor : (d : ℚ) ≠ 0 := by positivity
  rcases Nat.eq_zero_or_pos m with rfl | hm
  · obtain ⟨-, -, -, full⟩ := canonical
    obtain rfl : e = -1074 := full.resolve_left (by decide)
    have none : n = 0 := by simpa [divisor] using same
    rw [ofRatio, if_pos none, zero]
  · have some : 0 < n := by
      rcases Nat.eq_zero_or_pos n with rfl | some
      · simp [unit, hm.ne'] at same
      · exact some
    refine ofRatio_eq_of_neighbour canonical hm some hd (near_of_inside ?_ ?_)
    all_goals rw [same, mul_div_cancel_right₀ _ unit]
    · rcases neighbourhood_low m e hm with ⟨half, -⟩ | ⟨quarter, -⟩ <;> linarith
    · linarith [neighbourhood_high m e]

theorem exists_canonical (negative : Bool) {n : Nat} (small : n < 2 ^ 53) {k : Nat} (hk : k ≤ 971) :
    ∃ m e, (finite negative m e).IsCanonical ∧ (m * 2 ^ e : ℚ) = n * 2 ^ k := by
  rcases Nat.eq_zero_or_pos n with rfl | hn
  · exact ⟨0, -1074, zero_isCanonical negative, by simp⟩
  · have low : 2 ^ n.log2 ≤ n := Nat.log2_self_le hn.ne'
    have high : n < 2 ^ (n.log2 + 1) := Nat.lt_log2_self
    have bits : n.log2 ≤ 52 := Nat.lt_succ_iff.mp ((Nat.log2_lt hn.ne').mpr small)
    obtain ⟨j, hj⟩ : ∃ j, n.log2 + j = 52 := ⟨52 - n.log2, by omega⟩
    have lower : 2 ^ 52 ≤ n * 2 ^ j := by
      rw [← hj, pow_add]
      exact Nat.mul_le_mul_right _ low
    have upper : n * 2 ^ j < 2 ^ 53 := by
      have places : 2 ^ 53 = 2 ^ (n.log2 + 1) * 2 ^ j := by
        rw [← pow_add]
        congr 1
        omega
      rw [places]
      exact Nat.mul_lt_mul_of_pos_right high (by positivity)
    refine ⟨n * 2 ^ j, k - j, ⟨upper, by omega, by omega, .inl lower⟩, ?_⟩
    rw [zpow_sub₀ two_ne_zero]
    push_cast
    simp only [zpow_natCast]
    field_simp

theorem tenPow_exact {j : Nat} (hj : j ≤ 22) : ∃ m e,
    ofDecimal false 1 j = finite false m e ∧ (m * 2 ^ e : ℚ) = 10 ^ j := by
  have small : 5 ^ j < 2 ^ 53 :=
    lt_of_le_of_lt (Nat.pow_le_pow_right (by decide) hj) (by norm_num)
  obtain ⟨m, e, canonical, value⟩ := exists_canonical false small (k := j) (by omega)
  have power : (m * 2 ^ e : ℚ) = 10 ^ j := by
    rw [value]
    push_cast
    rw [← mul_pow]
    norm_num
  refine ⟨m, e, ?_, power⟩
  have reach : decimalLength 1 = 1 := rfl
  unfold ofDecimal
  simp only [reach]
  rw [if_neg one_ne_zero, if_neg (by omega), if_neg (by omega), if_pos (by omega)]
  refine ofRatio_of_value canonical one_pos ?_
  simp [power]

theorem ofRatio_pos {negative sign : Bool} {n d m : Nat} {e : Int} (hd : 0 < d) (large : d ≤ n)
    (rounded : ofRatio negative n d = finite sign m e) : 0 < m := by
  have hn : 0 < n := lt_of_lt_of_le hd large
  have ratio_one : (1 : ℚ) ≤ n / d := by
    rw [le_div_iff₀ (by positivity), one_mul]
    exact_mod_cast large
  obtain ⟨scaled, ratio⟩ := descale_ratio n hd (unitExponent n d)
  have full : (1 : ℚ) ≤ n / d / 2 ^ unitExponent n d := by
    rcases (unit_bounds hn hd).2.2 with least | full
    · rw [least, zpow_neg, div_inv_eq_mul]
      exact one_le_mul_of_one_le_of_one_le ratio_one (one_le_zpow₀ one_le_two (by decide))
    · exact le_trans (by norm_num) full
  rw [← ratio, le_div_iff₀ (by positivity), one_mul] at full
  have quotient := (roundQuotient_bounds (descale n d (unitExponent n d)).1
    (descale n d (unitExponent n d)).2).1
  have positive := Nat.div_pos (by exact_mod_cast full) scaled
  rw [ofRatio_eq_carried negative hn, carried] at rounded
  split at rounded <;> split at rounded <;> cases rounded
  · positivity
  · omega

theorem tenPow_pos {sign : Bool} {j m : Nat} {e : Int}
    (power : ofDecimal false 1 j = finite sign m e) : 0 < m := by
  have reach : decimalLength 1 = 1 := rfl
  unfold ofDecimal at power
  simp only [reach] at power
  rw [if_neg one_ne_zero] at power
  split at power
  · cases power
  · rw [if_neg (by omega), if_pos (by omega)] at power
    exact ofRatio_pos one_pos (by simp [Nat.one_le_pow]) power

theorem timesTenPow_exact (negative : Bool) (m : Nat) (e : Int) {k : Int} (low : -22 ≤ k)
    (high : k ≤ 22) : ∃ a b : Nat, 0 < b ∧ (a / b : ℚ) = m * 2 ^ e * 10 ^ k ∧
      (finite negative m e).timesTenPow k = ofRatio negative a b := by
  obtain ⟨n, f, power, value⟩ := tenPow_exact (j := k.natAbs) (by omega)
  have two : (2 : ℚ) ≠ 0 := two_ne_zero
  unfold timesTenPow
  rw [power]
  dsimp only
  by_cases up : 0 ≤ k
  · rw [if_pos up]
    obtain ⟨j, rfl⟩ := Int.eq_ofNat_of_zero_le up
    obtain ⟨positive, ratio⟩ := descale_ratio (m * n) one_pos (-(e + f))
    refine ⟨_, _, positive, ?_, rfl⟩
    rw [Int.natAbs_natCast] at value
    rw [ratio, zpow_neg, zpow_add₀ two, zpow_natCast, ← value]
    push_cast
    field_simp
  · rw [if_neg up]
    obtain ⟨j, rfl⟩ : ∃ j : ℕ, k = -j := ⟨(-k).toNat, by omega⟩
    rw [Int.natAbs_neg, Int.natAbs_natCast] at value
    obtain ⟨positive, ratio⟩ := descale_ratio m (tenPow_pos power) (f - e)
    refine ⟨_, _, positive, ?_, rfl⟩
    rw [ratio, zpow_sub₀ two, zpow_neg, zpow_natCast, ← value]
    field_simp

/-- Digits of 53 bits, or such ones times a power of two, and a small power of ten are rounded only
once. -/
theorem ofDigits_exact (negative : Bool) {digits n j : Nat} (small : n < 2 ^ 53) (hj : j ≤ 971)
    (places : digits = n * 2 ^ j) {scale : Int} (low : -22 ≤ scale) (high : scale ≤ 22) :
    ∃ a b : Nat, 0 < b ∧ (a / b : ℚ) = digits * 10 ^ scale ∧
      ofDigits negative digits scale = ofRatio negative a b := by
  obtain ⟨m, e, canonical, value⟩ := exists_canonical negative small hj
  have read : ofRatio negative digits 1 = finite negative m e := by
    refine ofRatio_of_value canonical one_pos ?_
    rw [value, places]
    simp
  have whole : (digits : ℚ) = m * 2 ^ e := by
    rw [value, places]
    simp
  have steps : ((-scale).toNat - 1) / 308 = 0 := by omega
  obtain ⟨a, b, positive, ratio, rounded⟩ := timesTenPow_exact negative m e low high
  refine ⟨a, b, positive, by rw [ratio, whole], ?_⟩
  unfold ofDigits
  rw [if_neg (by omega), steps, read]
  simpa [dwindle] using rounded

theorem ofDigits_shortest {negative : Bool} {m : Nat} {e : Int}
    (canonical : (finite negative m e).IsCanonical) {digits n j : Nat} (small : n < 2 ^ 53)
    (hj : j ≤ 971) (places : digits = n * 2 ^ j) {scale : Int} (low : -22 ≤ scale)
    (high : scale ≤ 22) (same : (digits * 10 ^ scale : ℚ) = (shortest m e).value) :
    ofDigits negative digits scale = finite negative m e := by
  obtain ⟨a, b, positive, ratio, rounded⟩ := ofDigits_exact negative small hj places low high
  rw [rounded]
  exact ofRatio_shortest canonical positive (ratio.trans same)

/-! Reading digits gives a canonical number or none that is finite. -/

def Rounded (x : Binary64) : Prop :=
  x.isFinite = true → x.IsCanonical

theorem ofRatio_rounded (negative : Bool) (n : Nat) {d : Nat} (hd : 0 < d) :
    (ofRatio negative n d).Rounded :=
  ofRatio_isCanonical hd

theorem timesTenPow_rounded {x : Binary64} (rounded : x.Rounded) (k : Int) :
    (x.timesTenPow k).Rounded := by
  unfold timesTenPow
  split
  · rename_i negative m e sign n f power
    by_cases up : 0 ≤ k
    · simp only [up, if_true]
      exact ofRatio_rounded negative _ (descale_ratio _ one_pos _).1
    · simp only [up, if_false]
      exact ofRatio_rounded negative _ (descale_ratio _ (tenPow_pos power) _).1
  · exact rounded

theorem dwindle_rounded {x : Binary64} (rounded : x.Rounded) (n : Nat) : (x.dwindle n).Rounded := by
  induction n generalizing x with
  | zero => exact rounded
  | succ n ih =>
    rw [dwindle]
    split
    · exact rounded
    · exact ih (timesTenPow_rounded rounded _)

theorem ofDigits_rounded (negative : Bool) (digits : Nat) (scale : Int) :
    (ofDigits negative digits scale).Rounded := by
  have whole := ofRatio_rounded negative digits one_pos
  unfold ofDigits
  simp only
  split
  · split
    · exact whole
    · rintro ⟨⟩
  · exact timesTenPow_rounded (dwindle_rounded whole _) _

end Binary64

end ReadPlan
