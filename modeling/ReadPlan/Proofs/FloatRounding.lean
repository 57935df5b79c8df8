import ReadPlan.Number.Shortest
import Mathlib.Algebra.Order.Field.Power
import Mathlib.Data.Int.Log
import Mathlib.Data.Rat.Floor
import Mathlib.Tactic.Linarith
import Mathlib.Tactic.FieldSimp
import Mathlib.Tactic.Ring

namespace ReadPlan

namespace Binary64

/-- The significand has 53 bits, or fewer at the least exponent. -/
def IsCanonical : Binary64 → Prop
  | .finite _ m e => m < 2 ^ 53 ∧ -1074 ≤ e ∧ e ≤ 971 ∧ (2 ^ 52 ≤ m ∨ e = -1074)
  | .nan | .infinite _ => False

theorem IsCanonical.isFinite {x : Binary64} (h : x.IsCanonical) : x.isFinite = true := by
  cases x with
  | finite => rfl
  | nan | infinite => cases h

theorem zero_isCanonical (negative : Bool) : (zero negative).IsCanonical := by
  simp [zero, IsCanonical]

theorem descale_ratio (n : Nat) {d : Nat} (hd : 0 < d) (e : Int) :
    0 < (descale n d e).2 ∧
      ((descale n d e).1 : ℚ) / (descale n d e).2 = (n : ℚ) / d / 2 ^ e := by
  have nonzero : (d : ℚ) ≠ 0 := by positivity
  unfold descale
  split
  · rename_i up
    lift e to ℕ using up
    refine ⟨by simpa using hd, ?_⟩
    simp [div_div]
  · rename_i down
    obtain ⟨k, rfl⟩ : ∃ k : ℕ, e = -k := ⟨(-e).toNat, by omega⟩
    refine ⟨hd, ?_⟩
    simp [mul_div_right_comm]

/-- The nearest integer, where an odd one is not halfway to another. -/
theorem roundQuotient_eq {a b m : Nat} (hb : 0 < b) (low : 2 * (b * m) ≤ 2 * a + b)
    (high : 2 * a ≤ 2 * (b * m) + b)
    (apart : m % 2 = 1 → 2 * (b * m) < 2 * a + b ∧ 2 * a < 2 * (b * m) + b) :
    roundQuotient a b = m := by
  have split := Nat.div_add_mod a b
  have small := Nat.mod_lt a hb
  unfold roundQuotient
  simp only [Bool.or_eq_true, Bool.and_eq_true, decide_eq_true_eq, beq_iff_eq]
  generalize a / b = q at split ⊢
  generalize a % b = r at split small ⊢
  have above : m ≤ q + 1 := by
    by_contra more
    have steps : b * (q + 2) ≤ b * m := Nat.mul_le_mul_left b (by omega)
    rw [Nat.mul_add] at steps
    omega
  have below : q ≤ m := by
    by_contra less
    have steps : b * (m + 1) ≤ b * q := Nat.mul_le_mul_left b (by omega)
    rw [Nat.mul_add] at steps
    omega
  obtain rfl | rfl : m = q ∨ m = q + 1 := by omega
  · rw [if_neg]
    rintro (far | ⟨halfway, odd⟩)
    · omega
    · have strict := (apart odd).2
      omega
  · rw [Nat.mul_add, Nat.mul_one] at low apart
    rw [if_pos]
    by_contra near
    rw [not_or, not_and] at near
    have even : q % 2 ≠ 1 := near.2 (by omega)
    have strict := (apart (by omega)).1
    omega

theorem roundQuotient_bounds (a b : Nat) :
    a / b ≤ roundQuotient a b ∧ roundQuotient a b ≤ a / b + 1 := by
  unfold roundQuotient
  simp only
  split <;> omega

/-! The exponent of a ratio. -/

theorem two_zpow_log2 {n : Nat} (hn : 0 < n) :
    (2 : ℚ) ^ (n.log2 : ℤ) ≤ n ∧ (n : ℚ) < 2 ^ ((n.log2 : ℤ) + 1) := by
  have low : 2 ^ n.log2 ≤ n := Nat.log2_self_le hn.ne'
  have high : n < 2 ^ (n.log2 + 1) := Nat.lt_log2_self
  constructor
  · exact_mod_cast low
  · exact_mod_cast high

theorem ratio_bounds {b x y : ℚ} (hb : 1 < b) {i j : ℤ} (hx : b ^ i ≤ x ∧ x < b ^ (i + 1))
    (hy : b ^ j ≤ y ∧ y < b ^ (j + 1)) :
    b ^ (i - j - 1) ≤ x / y ∧ x / y < b ^ (i - j + 1) := by
  have base : 0 < b := zero_lt_one.trans hb
  have positive : 0 < y := (zpow_pos base j).trans_le hy.1
  constructor
  · rw [le_div_iff₀ positive]
    calc b ^ (i - j - 1) * y ≤ b ^ (i - j - 1) * b ^ (j + 1) := by
          gcongr
          exact hy.2.le
      _ = b ^ i := by
          rw [← zpow_add₀ base.ne']
          congr 1
          omega
      _ ≤ x := hx.1
  · rw [div_lt_iff₀ positive]
    calc x < b ^ (i + 1) := hx.2
      _ = b ^ (i - j + 1) * b ^ j := by
          rw [← zpow_add₀ base.ne']
          congr 1
          omega
      _ ≤ b ^ (i - j + 1) * y := by
          gcongr
          exact hy.1

/-- A ratio has fewer than 53 bits in a unit that is 52 places below one above its leading bit. -/
theorem descale_lt_iff {n d : Nat} (hn : 0 < n) (hd : 0 < d) (e : Int) :
    (descale n d (e - 52)).1 / (descale n d (e - 52)).2 < 0x10000000000000 ↔
      Int.log 2 ((n : ℚ) / d) < e := by
  have positive : (0 : ℚ) < n / d := by positivity
  obtain ⟨scaled, ratio⟩ := descale_ratio n hd (e - 52)
  have exact : (n : ℚ) / d =
      (descale n d (e - 52)).1 / (descale n d (e - 52)).2 * 2 ^ (e - 52) := by
    rw [ratio, div_mul_cancel₀]
    positivity
  have power : ((2 : ℕ) : ℚ) ^ e = 2 ^ 52 * 2 ^ (e - 52) := by
    rw [← zpow_natCast, ← zpow_add₀ two_ne_zero]
    congr 1
    omega
  rw [← Int.lt_zpow_iff_log_lt (by decide) positive, Nat.div_lt_iff_lt_mul scaled, exact, power,
    mul_lt_mul_iff_left₀ (by positivity), div_lt_iff₀ (by positivity)]
  norm_cast

/-- The ratio has its leading bit 52 places above the unit, unless that unit is too small. -/
theorem unitExponent_eq {n d : Nat} (hn : 0 < n) (hd : 0 < d) :
    unitExponent n d = max (-1074) (Int.log 2 ((n : ℚ) / d) - 52) := by
  have positive : (0 : ℚ) < n / d := by positivity
  obtain ⟨e, he⟩ : ∃ e : ℤ, e = (n.log2 : ℤ) - d.log2 := ⟨_, rfl⟩
  obtain ⟨low, high⟩ := ratio_bounds one_lt_two (two_zpow_log2 hn) (two_zpow_log2 hd)
  rw [← he] at low high
  have low : e - 1 ≤ Int.log 2 ((n : ℚ) / d) :=
    (Int.zpow_le_iff_le_log (by decide) positive).mp (by exact_mod_cast low)
  have high : Int.log 2 ((n : ℚ) / d) < e + 1 :=
    (Int.lt_zpow_iff_log_lt (by decide) positive).mp (by exact_mod_cast high)
  have unfolded : unitExponent n d = max (-1074)
      (if (descale n d (e - 52)).1 / (descale n d (e - 52)).2 < 0x10000000000000
        then e - 52 - 1 else e - 52) := by
    rw [he]
    rfl
  rw [unfolded]
  simp only [descale_lt_iff hn hd]
  split <;> omega

theorem unit_bounds {n d : Nat} (hn : 0 < n) (hd : 0 < d) :
    -1074 ≤ unitExponent n d ∧ (n : ℚ) / d / 2 ^ unitExponent n d < 2 ^ 53 ∧
      (unitExponent n d = -1074 ∨ 2 ^ 52 ≤ (n : ℚ) / d / 2 ^ unitExponent n d) := by
  have positive : (0 : ℚ) < n / d := by positivity
  have two : (1 : ℕ) < 2 := by decide
  have low : (2 : ℚ) ^ Int.log 2 ((n : ℚ) / d) ≤ n / d := by
    exact_mod_cast Int.zpow_log_le_self two positive
  have high : (n : ℚ) / d < 2 ^ (Int.log 2 ((n : ℚ) / d) + 1) := by
    exact_mod_cast Int.lt_zpow_succ_log_self two ((n : ℚ) / d)
  rw [unitExponent_eq hn hd]
  generalize Int.log 2 ((n : ℚ) / d) = l at low high
  refine ⟨le_max_left _ _, ?_, ?_⟩
  · rw [div_lt_iff₀ (by positivity)]
    calc (n : ℚ) / d < 2 ^ (l + 1) := high
      _ ≤ 2 ^ (53 + max (-1074) (l - 52)) := by
          refine zpow_le_zpow_right₀ one_le_two ?_
          omega
      _ = 2 ^ 53 * 2 ^ max (-1074) (l - 52) := by
          rw [zpow_add₀ two_ne_zero]
          norm_cast
  · by_cases least : l - 52 ≤ -1074
    · exact .inl (max_eq_left least)
    · rw [max_eq_right (by omega)]
      refine .inr ?_
      rw [le_div_iff₀ (by positivity)]
      calc (2 : ℚ) ^ 52 * 2 ^ (l - 52) = 2 ^ l := by
            rw [← zpow_natCast, ← zpow_add₀ two_ne_zero]
            congr 1
            omega
        _ ≤ n / d := low

/-- The number with a significand of at most 53 bits, or the next power of two. -/
def carried (negative : Bool) (m : Nat) (e : Int) : Binary64 :=
  if m = 2 ^ 53 then (if 971 < e + 1 then .infinite negative else .finite negative (2 ^ 52) (e + 1))
  else if 971 < e then .infinite negative else .finite negative m e

theorem ofRatio_eq_carried (negative : Bool) {n : Nat} (hn : 0 < n) (d : Nat) :
    ofRatio negative n d =
      carried negative (roundQuotient (descale n d (unitExponent n d)).1
        (descale n d (unitExponent n d)).2) (unitExponent n d) := by
  by_cases carry : roundQuotient (descale n d (unitExponent n d)).1
      (descale n d (unitExponent n d)).2 = 2 ^ 53
  · simp [ofRatio, carried, hn.ne', carry]
  · have same : (0x20000000000000 : Nat) = 2 ^ 53 := by norm_num
    simp only [ofRatio, carried, hn.ne', if_false, same, carry]

theorem carried_isCanonical {negative : Bool} {m : Nat} {e : Int} (least : -1074 ≤ e)
    (upper : m ≤ 2 ^ 53) (lower : e = -1074 ∨ 2 ^ 52 ≤ m)
    (finite : (carried negative m e).isFinite = true) : (carried negative m e).IsCanonical := by
  unfold carried at finite ⊢
  split
  · rename_i carry
    rw [if_pos carry] at finite
    split
    · rename_i large
      rw [if_pos large] at finite
      cases finite
    · refine ⟨?_, ?_, ?_, .inl (le_refl _)⟩ <;> omega
  · rename_i bits
    rw [if_neg bits] at finite
    split
    · rename_i large
      rw [if_pos large] at finite
      cases finite
    · exact ⟨by omega, least, by omega, lower.symm⟩

theorem ofRatio_isCanonical {negative : Bool} {n d : Nat} (hd : 0 < d)
    (finite : (ofRatio negative n d).isFinite = true) : (ofRatio negative n d).IsCanonical := by
  rcases Nat.eq_zero_or_pos n with rfl | hn
  · exact zero_isCanonical negative
  · rw [ofRatio_eq_carried negative hn] at finite ⊢
    obtain ⟨least, below, full⟩ := unit_bounds hn hd
    obtain ⟨scaled, ratio⟩ := descale_ratio n hd (unitExponent n d)
    obtain ⟨floor, ceil⟩ := roundQuotient_bounds (descale n d (unitExponent n d)).1
      (descale n d (unitExponent n d)).2
    rw [← ratio] at below full
    refine carried_isCanonical least (ceil.trans ?_) (full.imp_right fun full => floor.trans' ?_)
      finite
    · rw [div_lt_iff₀ (by positivity)] at below
      rw [Nat.succ_le_iff, Nat.div_lt_iff_lt_mul scaled]
      exact_mod_cast below
    · rw [le_div_iff₀ (by positivity)] at full
      rw [Nat.le_div_iff_mul_le scaled]
      exact_mod_cast full

/-- A ratio within half a unit of a significand rounds to it; halfway only an even one counts. -/
theorem ofRatio_eq_of_near (negative : Bool) {n d m : Nat} (hn : 0 < n) (hd : 0 < d)
    (low : (m : ℚ) - 1 / 2 ≤ n / d / 2 ^ unitExponent n d)
    (high : (n : ℚ) / d / 2 ^ unitExponent n d ≤ m + 1 / 2)
    (apart : m % 2 = 1 → (m : ℚ) - 1 / 2 < n / d / 2 ^ unitExponent n d ∧
      (n : ℚ) / d / 2 ^ unitExponent n d < m + 1 / 2) :
    ofRatio negative n d = carried negative m (unitExponent n d) := by
  obtain ⟨scaled, ratio⟩ := descale_ratio n hd (unitExponent n d)
  rw [ofRatio_eq_carried negative hn]
  rw [← ratio] at low high apart
  generalize (descale n d (unitExponent n d)).1 = a at *
  generalize (descale n d (unitExponent n d)).2 = b at *
  congr 1
  have positive : (0 : ℚ) < b := by positivity
  refine roundQuotient_eq scaled ?_ ?_ fun odd => ?_
  · rw [le_div_iff₀ positive] at low
    have doubled : (2 * (b * m) : ℚ) ≤ 2 * a + b := by linarith
    exact_mod_cast doubled
  · rw [div_le_iff₀ positive] at high
    have doubled : (2 * a : ℚ) ≤ 2 * (b * m) + b := by linarith
    exact_mod_cast doubled
  · obtain ⟨low, high⟩ := apart odd
    rw [lt_div_iff₀ positive] at low
    rw [div_lt_iff₀ positive] at high
    have below : (2 * (b * m) : ℚ) < 2 * a + b := by linarith
    have above : (2 * a : ℚ) < 2 * (b * m) + b := by linarith
    exact ⟨by exact_mod_cast below, by exact_mod_cast above⟩

/-! Neighbourhoods. -/

theorem neighbourhood_unit (m : Nat) (e : Int) :
    0 < (neighbourhood m e).unitNum ∧ 0 < (neighbourhood m e).unitDen ∧
      ((neighbourhood m e).unitNum : ℚ) / (neighbourhood m e).unitDen = 2 ^ (e - 2) := by
  simp only [neighbourhood]
  split
  · rename_i up
    obtain ⟨k, hk⟩ : ∃ k : ℕ, e - 2 = k := ⟨(e - 2).toNat, by omega⟩
    refine ⟨by simp, by simp, ?_⟩
    simp [hk]
  · rename_i down
    obtain ⟨k, hk⟩ : ∃ k : ℕ, e - 2 = -k := ⟨(2 - e).toNat, by omega⟩
    have same : (2 - e).toNat = k := by omega
    refine ⟨by simp, by simp, ?_⟩
    simp [hk, same]

theorem neighbourhood_high (m : Nat) (e : Int) :
    ((neighbourhood m e).high : ℚ) = 4 * m + 2 := by
  simp [neighbourhood]

/-- Below, a neighbourhood is half a unit wide, or a quarter at a power of two. -/
theorem neighbourhood_low (m : Nat) (e : Int) (hm : 0 < m) :
    ((neighbourhood m e).low : ℚ) = 4 * m - 2 ∧ ¬(m = 2 ^ 52 ∧ -1074 < e) ∨
      ((neighbourhood m e).low : ℚ) = 4 * m - 1 ∧ m = 2 ^ 52 ∧ -1074 < e := by
  have whole : (neighbourhood m e).low + 2 = 4 * m ∧ ¬(m = 2 ^ 52 ∧ -1074 < e) ∨
      (neighbourhood m e).low + 1 = 4 * m ∧ m = 2 ^ 52 ∧ -1074 < e := by
    simp only [neighbourhood]
    split <;> omega
  refine whole.imp (And.imp_left fun half => ?_) (And.imp_left fun quarter => ?_)
  · rw [eq_sub_iff_add_eq]
    exact_mod_cast half
  · rw [eq_sub_iff_add_eq]
    exact_mod_cast quarter

theorem quarters_eq (q : ℚ) (e : ℤ) : 4 * (q / 2 ^ e) = q / 2 ^ (e - 2) := by
  rw [zpow_sub₀ two_ne_zero]
  field_simp
  ring

/-- The ratio is in the neighbourhood of `m · 2 ^ e`. -/
def Near (m : Nat) (e : Int) (q : ℚ) : Prop :=
  let h := neighbourhood m e
  if h.closed then (h.low : ℚ) * 2 ^ (e - 2) ≤ q ∧ q ≤ h.high * 2 ^ (e - 2)
  else (h.low : ℚ) * 2 ^ (e - 2) < q ∧ q < h.high * 2 ^ (e - 2)

theorem near_quarters {m : Nat} {e : Int} {q : ℚ} (near : Near m e q) :
    ((neighbourhood m e).low : ℚ) ≤ 4 * (q / 2 ^ e) ∧ 4 * (q / 2 ^ e) ≤ (neighbourhood m e).high ∧
      (m % 2 = 1 → ((neighbourhood m e).low : ℚ) < 4 * (q / 2 ^ e) ∧
        4 * (q / 2 ^ e) < (neighbourhood m e).high) := by
  have positive : (0 : ℚ) < 2 ^ (e - 2) := by positivity
  rw [quarters_eq, le_div_iff₀ positive, div_le_iff₀ positive, lt_div_iff₀ positive,
    div_lt_iff₀ positive]
  unfold Near at near
  simp only at near
  split at near
  · rename_i closed
    refine ⟨near.1, near.2, fun odd => ?_⟩
    simp [neighbourhood, odd] at closed
  · exact ⟨near.1.le, near.2.le, fun _ => near⟩

theorem Near.bounds {m : Nat} {e : Int} {q : ℚ} (hm : 0 < m) (near : Near m e q) :
    (m : ℚ) - 1 / 2 ≤ q / 2 ^ e ∧ q / 2 ^ e ≤ m + 1 / 2 ∧
      (m % 2 = 1 → (m : ℚ) - 1 / 2 < q / 2 ^ e ∧ q / 2 ^ e < m + 1 / 2) ∧
        (m = 2 ^ 52 → -1074 < e → (m : ℚ) - 1 / 4 ≤ q / 2 ^ e) := by
  obtain ⟨low, high, apart⟩ := near_quarters near
  rw [neighbourhood_high] at high apart
  have half : (4 * m - 2 : ℚ) ≤ (neighbourhood m e).low := by
    rcases neighbourhood_low m e hm with ⟨half, -⟩ | ⟨quarter, -⟩ <;> linarith
  refine ⟨by linarith, by linarith, fun odd => ?_, fun power above => ?_⟩
  · obtain ⟨low, high⟩ := apart odd
    exact ⟨by linarith, by linarith⟩
  · rcases neighbourhood_low m e hm with ⟨-, other⟩ | ⟨quarter, -⟩
    · exact absurd ⟨power, above⟩ other
    · linarith

theorem unitExponent_eq_of_bounds {n d : Nat} {e : Int} (hn : 0 < n) (hd : 0 < d)
    (least : -1074 ≤ e) (below : (n : ℚ) / d / 2 ^ e < 2 ^ 53)
    (full : e = -1074 ∨ 2 ^ 52 ≤ (n : ℚ) / d / 2 ^ e) : unitExponent n d = e := by
  have positive : (0 : ℚ) < n / d := by positivity
  have two : (1 : ℕ) < 2 := by decide
  have upper : Int.log 2 ((n : ℚ) / d) < e + 53 := by
    refine (Int.lt_zpow_iff_log_lt two positive).mp ?_
    rw [div_lt_iff₀ (by positivity)] at below
    push_cast
    rw [zpow_add₀ two_ne_zero, mul_comm]
    exact_mod_cast below
  rw [unitExponent_eq hn hd]
  rcases full with rfl | full
  · omega
  · have lower : e + 52 ≤ Int.log 2 ((n : ℚ) / d) := by
      refine (Int.zpow_le_iff_le_log two positive).mp ?_
      rw [le_div_iff₀ (by positivity)] at full
      push_cast
      rw [zpow_add₀ two_ne_zero, mul_comm]
      exact_mod_cast full
    omega

/-- Everything in the neighbourhood of a number rounds to the number. -/
theorem ofRatio_eq_of_neighbour {negative : Bool} {m : Nat} {e : Int}
    (canonical : (finite negative m e).IsCanonical) (hm : 0 < m) {n d : Nat} (hn : 0 < n)
    (hd : 0 < d) (near : Near m e ((n : ℚ) / d)) : ofRatio negative n d = finite negative m e := by
  obtain ⟨bits, least, most, full⟩ := canonical
  obtain ⟨low, high, apart, quarter⟩ := near.bounds hm
  have bits' : (m : ℚ) ≤ 2 ^ 53 - 1 := by
    have whole : m + 1 ≤ 2 ^ 53 := bits
    have cast : (m : ℚ) + 1 ≤ 2 ^ 53 := by exact_mod_cast whole
    linarith
  by_cases binade : m = 2 ^ 52 ∧ -1074 < e ∧ (n : ℚ) / d / 2 ^ e < 2 ^ 52
  -- Below a power of two the unit is half as large, and the significand is carried.
  · obtain ⟨power, above, below⟩ := binade
    have quarter := quarter power above
    have doubled : (n : ℚ) / d / 2 ^ (e - 1) = 2 * (n / d / 2 ^ e) := by
      rw [zpow_sub_one₀ two_ne_zero]
      field_simp
    have cast : (m : ℚ) = 2 ^ 52 := by exact_mod_cast power
    have unit : unitExponent n d = e - 1 := by
      refine unitExponent_eq_of_bounds hn hd (by omega) ?_ (.inr ?_) <;> rw [doubled] <;> linarith
    have rounded := ofRatio_eq_of_near negative (m := 2 ^ 53) hn hd
      (by rw [unit, doubled]; push_cast; linarith) (by rw [unit, doubled]; push_cast; linarith)
      (fun odd => absurd odd (by decide))
    rw [rounded, unit, carried, if_pos rfl, if_neg (by omega), power, Int.sub_add_cancel]
  · have unit : unitExponent n d = e := by
      refine unitExponent_eq_of_bounds hn hd least (by linarith) ?_
      by_contra small
      rw [not_or, not_le] at small
      have least : 2 ^ 52 ≤ m := full.resolve_right small.1
      have most : (m : ℚ) < 2 ^ 52 + 1 := by linarith
      have most : m < 2 ^ 52 + 1 := by exact_mod_cast most
      exact binade ⟨by omega, by omega, small.2⟩
    have rounded := ofRatio_eq_of_near negative (m := m) hn hd (by rwa [unit]) (by rwa [unit])
      (by rwa [unit])
    rw [rounded, unit, carried, if_neg (by omega), if_neg (by omega)]

end Binary64

end ReadPlan
