import ReadPlan.Proofs.FilterOperands
import ReadPlan.Proofs.LooseParts

namespace ReadPlan

namespace Json

mutual

/-- Every integer fits 64 bits, signed or not, and every float is finite. -/
def hasMachineNumbers : Json → Bool
  | .arr items => itemsHaveMachineNumbers items
  | .obj ms => membersHaveMachineNumbers ms
  | .int n => decide (-0x8000000000000000 ≤ n ∧ n < 0x10000000000000000)
  | .float x => x.isFinite
  | .null | .bool _ | .str _ => true

def itemsHaveMachineNumbers : List Json → Bool
  | [] => true
  | v :: rest => v.hasMachineNumbers && itemsHaveMachineNumbers rest

def membersHaveMachineNumbers : List (String × Json) → Bool
  | [] => true
  | (_, v) :: rest => v.hasMachineNumbers && membersHaveMachineNumbers rest

end

theorem machineNumbers_hereditary : Hereditary fun v => v.hasMachineNumbers = true where
  items {vs} h := by
    rw [hasMachineNumbers] at h
    induction vs with
    | nil => simp
    | cons v rest ih =>
      rw [itemsHaveMachineNumbers, Bool.and_eq_true] at h
      exact List.forall_mem_cons.mpr ⟨h.1, ih h.2⟩
  members {ms} h := by
    rw [hasMachineNumbers] at h
    induction ms with
    | nil => simp
    | cons m rest ih =>
      rw [membersHaveMachineNumbers, Bool.and_eq_true] at h
      exact List.forall_mem_cons.mpr ⟨h.1, ih h.2⟩

end Json

namespace Binary64

theorem unitExponent_le (n d : Nat) : unitExponent n d ≤ max (-1074) ((Nat.log2 n : Int) - 52) := by
  unfold unitExponent
  simp only
  split <;> omega

theorem ofRatio_isFinite {n : Nat} (d : Nat) (negative : Bool) (h : n < 0x10000000000000000) :
    (ofRatio negative n d).isFinite = true := by
  unfold ofRatio
  split
  · rfl
  · rename_i nonzero
    have size : Nat.log2 n < 64 := (Nat.log2_lt nonzero).mpr (by omega)
    have bound := unitExponent_le n d
    simp only
    -- the exponent with or without the carry of the rounding
    split
    · rw [if_neg (by omega)]
      rfl
    · rw [if_neg (by omega)]
      rfl

theorem ofInt_isFinite {n : Int} (h : n.natAbs < 0x10000000000000000) : (ofInt n).isFinite = true :=
  ofRatio_isFinite 1 _ h

end Binary64

def Sql.Loose.isFinite : Sql.Loose → Bool
  | .float x => x.isFinite
  | .function _ | .raw _ => true

theorem literal_isFinite {v : Json} (h : v.hasMachineNumbers = true) :
    ∀ l ∈ (Sql.Literal.ofJson v).loose, l.isFinite = true := by
  cases v with
  | int n =>
    simp only [Json.hasMachineNumbers, decide_eq_true_eq] at h
    simp only [Sql.Literal.ofJson]
    split
    · simp [Sql.Literal.loose]
    · have finite := Binary64.ofInt_isFinite (n := n) (by omega)
      simpa [Sql.Literal.loose, Sql.Loose.isFinite] using finite
  | float x =>
    rw [Json.hasMachineNumbers] at h
    simpa [Sql.Literal.ofJson, Sql.Literal.loose, Sql.Loose.isFinite] using h
  | _ => simp [Sql.Literal.ofJson, Sql.Literal.loose]

end ReadPlan
