import ReadPlan.Proofs.LexerRuns
import ReadPlan.Sql.Token

namespace ReadPlan

open Sql Sql.Lexer

def Digits (cs : List Char) : Prop :=
  cs ≠ [] ∧ ∀ c ∈ cs, c.isDigit = true

theorem toDigits_digits (n : Nat) : Digits (Nat.toDigits 10 n) :=
  ⟨Nat.toDigits_ne_nil, fun _ => Nat.isDigit_of_mem_toDigits (by decide) (by decide)⟩

theorem zeros_isDigit (n : Nat) : ∀ c ∈ (zeros n).toList, c.isDigit = true := by
  intro c hc
  simp only [zeros, String.toList_ofList, List.mem_replicate] at hc
  rw [hc.2]
  rfl

theorem Digits.append {cs ds : List Char} (h : Digits cs) (hd : ∀ c ∈ ds, c.isDigit = true) :
    Digits (cs ++ ds) :=
  ⟨List.append_ne_nil_of_left_ne_nil h.1 ds, List.forall_mem_append.mpr ⟨h.2, hd⟩⟩

theorem Digits.after {cs ds : List Char} (h : Digits cs) (hd : ∀ c ∈ ds, c.isDigit = true) :
    Digits (ds ++ cs) :=
  ⟨List.append_ne_nil_of_right_ne_nil ds h.1, List.forall_mem_append.mpr ⟨hd, h.2⟩⟩

theorem Digits.take {ds : List Char} (h : Digits ds) {k : Nat} (some : 0 < k) :
    Digits (ds.take k) := by
  have long := List.length_pos_iff.mpr h.1
  refine ⟨?_, fun c hc => h.2 c (List.mem_of_mem_take hc)⟩
  rw [← List.length_pos_iff, List.length_take]
  omega

theorem Digits.drop {ds : List Char} (h : Digits ds) {k : Nat} (more : k < ds.length) :
    Digits (ds.drop k) := by
  refine ⟨?_, fun c hc => h.2 c (List.mem_of_mem_drop hc)⟩
  rw [← List.length_pos_iff, List.length_drop]
  omega

theorem int_text (n : Int) :
    ∃ ds, Digits ds ∧ ((toString n).toList = ds ∨ (toString n).toList = '-' :: ds) := by
  cases n with
  | ofNat m =>
    refine ⟨Nat.toDigits 10 m, toDigits_digits m, .inl ?_⟩
    exact Nat.toList_repr
  | negSucc m =>
    refine ⟨Nat.toDigits 10 (m + 1), toDigits_digits _, .inr ?_⟩
    have text : toString (Int.negSucc m) = "-" ++ (m + 1).repr := rfl
    rw [text, String.toList_append, Nat.toList_repr]
    rfl

namespace Sql.Lexer

def Phase.digits : Phase → Phase
  | start | sign | whole => whole
  | point | fraction => fraction
  | exponent | exponentSign | power => power

theorem next_digit (phase : Phase) {c : Char} (h : c.isDigit = true) :
    phase.next? c = some phase.digits := by
  cases phase <;> simp [Phase.next?, Phase.digits, h]

theorem foldlM_digits {ds : List Char} (h : Digits ds) (phase : Phase) :
    ds.foldlM Phase.next? phase = some phase.digits := by
  have stay : ∀ ds : List Char, (∀ c ∈ ds, c.isDigit = true) →
      ds.foldlM Phase.next? phase.digits = some phase.digits := by
    intro ds digits
    induction ds with
    | nil => rfl
    | cons c ds ih =>
      obtain ⟨first, others⟩ := List.forall_mem_cons.mp digits
      have same : phase.digits.digits = phase.digits := by cases phase <;> rfl
      simp [next_digit _ first, same, ih others]
  cases ds with
  | nil => exact absurd rfl h.1
  | cons c ds =>
    obtain ⟨first, others⟩ := List.forall_mem_cons.mp h.2
    simp [next_digit phase first, stay ds others]

/-- A number runs from the start, or from its sign, to a phase that may be the last. -/
def IsNumber (phase : Phase) (cs : List Char) : Prop :=
  ∃ last, cs.foldlM Phase.next? phase = some last ∧ last.isLast = true

theorem digits_isNumber {ds : List Char} (h : Digits ds) (phase : Phase) : IsNumber phase ds :=
  ⟨phase.digits, foldlM_digits h phase, by cases phase <;> rfl⟩

theorem IsNumber.negative {cs : List Char} (h : IsNumber .sign cs) :
    IsNumber .start ('-' :: cs) := by
  obtain ⟨last, run, ends⟩ := h
  exact ⟨last, run, ends⟩

theorem int_isNumber (n : Int) : IsNumber .start (toString n).toList := by
  obtain ⟨ds, digits, plain | negative⟩ := int_text n
  · rw [plain]
    exact digits_isNumber digits .start
  · rw [negative]
    exact (digits_isNumber digits .sign).negative

theorem foldlM_pointed {whole fraction : List Char} {phase : Phase} (hp : phase.digits = .whole)
    (hw : Digits whole) (hf : Digits fraction) :
    (whole ++ '.' :: fraction).foldlM Phase.next? phase = some .fraction := by
  have point : Phase.next? .whole '.' = some .point := rfl
  rw [List.foldlM_append, foldlM_digits hw, hp]
  simp [point, foldlM_digits hf .point, Phase.digits]

theorem power_isNumber {lead : List Char} {phase last : Phase} (power : Int)
    (run : lead.foldlM Phase.next? phase = some last) (ends : last.isLast = true)
    (once : last ≠ .power) : IsNumber phase (lead ++ 'e' :: (toString power).toList) := by
  have exponent : Phase.next? last 'e' = some .exponent := by
    cases last <;> first | rfl | contradiction
  refine ⟨.power, ?_, rfl⟩
  rw [List.foldlM_append, run]
  obtain ⟨ds, digits, plain | negative⟩ := int_text power
  · rw [plain]
    simp [exponent, foldlM_digits digits, Phase.digits]
  · have sign : Phase.next? .exponent '-' = some .exponentSign := rfl
    rw [negative]
    simp [exponent, sign, foldlM_digits digits, Phase.digits]

theorem foldlM_pointed_text {ds : List Char} (h : Digits ds) {k : Nat} (after : 0 < k)
    (before : k < ds.length) {phase : Phase} (hp : phase.digits = .whole) :
    (pointed ds k).toList.foldlM Phase.next? phase = some .fraction := by
  rw [pointed, String.toList_ofList]
  exact foldlM_pointed hp (h.take after) (h.drop before)

theorem decimal_isNumber (x : Decimal) {phase : Phase} (hp : phase.digits = .whole) :
    IsNumber phase (x.text floatLayout).toList := by
  have digits := toDigits_digits x.digits
  have zero : Digits ['0'] := ⟨by simp, forall_of_all (by decide)⟩
  unfold Decimal.text
  simp only
  split
  · exact ⟨.fraction, foldlM_pointed hp zero zero, rfl⟩
  split
  -- a whole number with its zeros
  · have whole := digits.append (zeros_isDigit x.scale.toNat)
    exact ⟨.fraction, by simpa using foldlM_pointed hp whole zero, rfl⟩
  split
  -- the point is among the digits
  · refine ⟨.fraction, foldlM_pointed_text digits ?_ ?_ hp, rfl⟩ <;> omega
  split
  -- zeros between the point and the digits
  · have fraction := digits.after
      (zeros_isDigit (-((Nat.toDigits 10 x.digits).length + x.scale)).toNat)
    exact ⟨.fraction, by simpa using foldlM_pointed hp zero fraction, rfl⟩
  -- one digit before the point, if there is one, and an exponent
  · have lead : ∃ last : Phase,
        (if (Nat.toDigits 10 x.digits).length = 1 then String.ofList (Nat.toDigits 10 x.digits)
          else pointed (Nat.toDigits 10 x.digits) 1).toList.foldlM Phase.next? phase = some last ∧
          last.isLast = true ∧ last ≠ .power := by
      split
      · rw [String.toList_ofList, foldlM_digits digits, hp]
        exact ⟨.whole, rfl, rfl, by simp⟩
      · have long := List.length_pos_iff.mpr digits.1
        exact ⟨.fraction, foldlM_pointed_text digits (by decide) (by omega) hp, rfl, by simp⟩
    obtain ⟨last, run, ends, once⟩ := lead
    simpa [floatLayout] using
      power_isNumber ((Nat.toDigits 10 x.digits).length + x.scale - 1) run ends once

theorem float_isNumber {x : Binary64} (h : x.isFinite = true) :
    IsNumber .start (x.text floatLayout).toList := by
  cases x with
  | finite negative m e =>
    rw [Binary64.text, String.toList_append]
    cases negative
    · exact decimal_isNumber _ rfl
    · exact (decimal_isNumber _ rfl).negative
  | nan | infinite => cases h

theorem number_reads {d : Dialect} {text : String} (h : IsNumber .start text.toList) :
    Reads d text.toList [.number text] := by
  obtain ⟨last, run, ends⟩ := h
  cases chars : text.toList with
  | nil =>
    rw [chars] at run
    cases run
    cases ends
  | cons c cs =>
    rw [chars] at run
    simp only [List.foldlM_cons, Option.bind_eq_bind, Option.bind_eq_some_iff] at run
    obtain ⟨first, step, run⟩ := run
    have begun : Mode.follow? d .between c = some ([], .number first [c]) := by
      simp [Mode.follow?, begin?, step]
    refine .of_run (m := .number last (c :: cs)) ?_ ?_
    · rw [run_cons begun, run_number run]
      rfl
    · rw [Mode.finish?, ends, ← chars, String.ofList_toList]
      rfl

end Sql.Lexer

end ReadPlan
