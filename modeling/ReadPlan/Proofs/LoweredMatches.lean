import ReadPlan.Proofs.LikePatterns
import ReadPlan.Proofs.RegexPatterns

/-!
Matches that ignore case, in a dialect that has to lower both operands. Lowering goes through the
wildcards and the escapes of a LIKE pattern, so the lowered operands decide as the texts do where
case is ignored. In a regular expression it also lowers the names of classes: what is outside of a
class is then looked for inside of it.
-/

namespace ReadPlan.Sql

def upperLetters : List Char :=
  "ABCDEFGHIJKLMNOPQRSTUVWXYZ".toList

theorem toLower_cases (c : Char) : c.toLower = c ∨ c ∈ upperLetters := by
  by_cases upper : 65 ≤ c.toNat ∧ c.toNat ≤ 90
  · right
    rw [← Char.ofNat_toNat c]
    obtain ⟨low, high⟩ := upper
    generalize c.toNat = n at low high
    have each : ∀ k : Fin 26, Char.ofNat (65 + k) ∈ upperLetters := by decide
    have here := each ⟨n - 65, by omega⟩
    simpa [Nat.add_sub_cancel' low] using here
  · left
    apply dif_neg
    rintro ⟨low, high⟩
    exact upper ⟨low, high⟩

theorem toLower_eq_iff {c m : Char} (plain : m.isAlpha = false) : c.toLower = m ↔ c = m := by
  rcases toLower_cases c with same | upper
  · rw [same]
  · have letters : ∀ c ∈ upperLetters, c.isAlpha = true ∧ c.toLower.isAlpha = true :=
      forall_of_all (by decide)
    obtain ⟨here, lower⟩ := letters c upper
    constructor
    · rintro rfl
      rw [plain] at lower
      cases lower
    · rintro rfl
      rw [plain] at here
      cases here

def lowered (x : List Char) : List Char :=
  x.map Char.toLower

/-- The texts that differ from one of the language in the case of letters at most. -/
def ignoringCase (l : Language Char) : Language Char :=
  {x | ∃ y ∈ l, lowered y = lowered x}

/-- Looking for lowered texts in the second language is looking for texts in the first one without
regard to case. -/
def Emulates (l l' : Language Char) : Prop :=
  ∀ x, lowered x ∈ l' ↔ x ∈ ignoringCase l

namespace Emulates

variable {l l' m m' : Language Char}

theorem mul (h : Emulates l l') (hm : Emulates m m') : Emulates (l * m) (l' * m') := by
  intro x
  rw [Language.mem_mul]
  constructor
  · rintro ⟨u', left, v', right, whole⟩
    obtain ⟨u, v, rfl, rfl, rfl⟩ := List.map_eq_append_iff.mp whole.symm
    obtain ⟨a, ha, same⟩ := (h u).mp left
    obtain ⟨b, hb, alike⟩ := (hm v).mp right
    refine ⟨a ++ b, ⟨a, ha, b, hb, rfl⟩, ?_⟩
    rw [lowered, List.map_append, ← lowered, ← lowered, same, alike, lowered, lowered, lowered,
      List.map_append]
  · rintro ⟨_, ⟨a, ha, b, hb, rfl⟩, same⟩
    rw [lowered, List.map_append] at same
    obtain ⟨u, v, rfl, left, right⟩ := List.map_eq_append_iff.mp same.symm
    refine ⟨lowered u, (h u).mpr ⟨a, ha, left.symm⟩, lowered v, (hm v).mpr ⟨b, hb, right.symm⟩, ?_⟩
    exact List.map_append.symm

theorem one : Emulates 1 1 := by
  intro x
  rw [Language.mem_one]
  constructor
  · intro none
    exact ⟨[], rfl, none.symm⟩
  · rintro ⟨_, rfl, same⟩
    exact same.symm

theorem zero : Emulates 0 0 := by
  intro x
  constructor
  · exact False.elim
  · rintro ⟨_, none, -⟩
    exact none.elim

theorem top : Emulates ⊤ ⊤ :=
  fun x => ⟨fun _ => ⟨x, trivial, rfl⟩, fun _ => trivial⟩

theorem single {P P' : Char → Prop}
    (each : ∀ c : Char, P' c.toLower ↔ ∃ d, P d ∧ d.toLower = c.toLower) :
    Emulates {x | ∃ c, P c ∧ x = [c]} {x | ∃ c, P' c ∧ x = [c]} := by
  intro x
  constructor
  · rintro ⟨c', holds, whole⟩
    obtain ⟨c, rfl, rfl⟩ := List.map_eq_singleton_iff.mp whole
    obtain ⟨d, other, same⟩ := (each c).mp holds
    exact ⟨[d], ⟨d, other, rfl⟩, congrArg ([·]) same⟩
  · rintro ⟨_, ⟨d, holds, rfl⟩, same⟩
    obtain ⟨c, rfl, lower⟩ := List.map_eq_singleton_iff.mp same.symm
    exact ⟨c.toLower, (each c).mpr ⟨d, holds, lower.symm⟩, rfl⟩

theorem prod {α : Type} {f g : α → Language Char} {as : List α}
    (each : ∀ a ∈ as, Emulates (f a) (g a)) : Emulates (as.map f).prod (as.map g).prod := by
  induction as with
  | nil => exact one
  | cons a as ih =>
    obtain ⟨here, others⟩ := List.forall_mem_cons.mp each
    rw [List.map_cons, List.map_cons, List.prod_cons, List.prod_cons]
    exact here.mul (ih others)

end Emulates

/-! LIKE patterns. -/

namespace PatternPart

def lowered : PatternPart → PatternPart
  | any => any
  | one => one
  | exactly c => exactly c.toLower

theorem ofChar_toLower (c : Char) : ofChar c.toLower = (ofChar c).lowered := by
  have percent : c.toLower = '%' ↔ c = '%' := toLower_eq_iff (by decide)
  have underscore : c.toLower = '_' ↔ c = '_' := toLower_eq_iff (by decide)
  simp only [ofChar, percent, underscore]
  split
  · rfl
  · split <;> rfl

theorem lowered_emulates (part : PatternPart) : Emulates part.texts part.lowered.texts := by
  cases part with
  | any => exact .top
  | one =>
    intro x
    have size (y : List Char) : (Sql.lowered y).length = y.length := List.length_map _
    constructor
    · intro single
      exact ⟨x, (size x).symm.trans single, rfl⟩
    · rintro ⟨y, single, same⟩
      exact (congrArg List.length same.symm).trans ((size y).trans single)
  | exactly c =>
    intro x
    constructor
    · intro same
      exact ⟨[c], rfl, same.symm⟩
    · rintro ⟨_, rfl, same⟩
      exact same.symm

end PatternPart

theorem patternParts_lowered (p : List Char) :
    patternParts? (lowered p) = (patternParts? p).map (·.map PatternPart.lowered) := by
  have backslash (c : Char) : c.toLower = '\\' ↔ c = '\\' := toLower_eq_iff (by decide)
  induction p using patternParts?.induct with
  | case1 => rfl
  | case2 => rfl
  | case3 taken rest ih =>
    have mark : '\\'.toLower = '\\' := by decide
    rw [lowered, List.map_cons, List.map_cons, mark, ← lowered]
    simp only [patternParts?, if_true, ih, Option.map_eq_map, Option.map_map]
    rfl
  | case4 c rest unescaped ih =>
    rw [lowered, List.map_cons, ← lowered, patternParts_cons (mt (backslash c).mp unescaped),
      patternParts_cons unescaped, ih, PatternPart.ofChar_toLower]
    simp only [Option.map_eq_map, Option.map_map]
    rfl

theorem like_lowered (p : List Char) : Emulates (like p) (like (lowered p)) := by
  rw [like, like, patternParts_lowered]
  cases patternParts? p with
  | none => exact .zero
  | some parts =>
    simp only [Option.map_some, Option.elim_some, partsLanguage, List.map_map]
    exact .prod fun part _ => part.lowered_emulates

/-! Regular expressions. -/

theorem CharClass.has_toLower (k : CharClass) (c : Char) : k.has c.toLower = k.has c := by
  rcases toLower_cases c with same | upper
  · rw [same]
  · have each : ∀ c ∈ upperLetters, k.has c.toLower = k.has c := by
      apply forall_of_all
      cases k <;> decide
    exact each c upper

namespace RegexAtom

def lowered : RegexAtom → RegexAtom
  | exactly c => exactly c.toLower
  | inside k | outside k => inside k

theorem lowered_takes_iff {a : RegexAtom} (named : ∀ k, a ≠ outside k) (c : Char) :
    a.lowered.Takes c.toLower ↔ ∃ d, a.Takes d ∧ d.toLower = c.toLower := by
  cases a with
  | exactly d =>
    constructor
    · intro same
      exact ⟨d, rfl, same.symm⟩
    · rintro ⟨_, rfl, same⟩
      exact same.symm
  | inside k =>
    have folded (d : Char) : (inside k).Takes d.toLower ↔ (inside k).Takes d := by
      rw [Takes, Takes, k.has_toLower]
    constructor
    · intro takes
      exact ⟨c, (folded c).mp takes, rfl⟩
    · rintro ⟨d, takes, same⟩
      exact same ▸ (folded d).mpr takes
  | outside k => exact absurd rfl (named k)

theorem lowered_emulates {a : RegexAtom} (named : ∀ k, a ≠ outside k) :
    Emulates a.texts a.lowered.texts :=
  .single (lowered_takes_iff named)

theorem lowered_outside (k : CharClass) :
    ¬ (outside k).lowered.Takes (outside k).sample.toLower := by
  rw [lowered, Takes, k.has_toLower]
  cases k <;> decide

end RegexAtom

theorem escaped_toLower (c : Char) : escaped? c.toLower = (escaped? c).map RegexAtom.lowered := by
  rcases toLower_cases c with same | upper
  · rw [same]
    unfold escaped?
    split
    · rfl
    · cases same
    · rfl
    · cases same
    · rfl
    · cases same
    · split
      · rfl
      · rw [Option.map_some, RegexAtom.lowered, same]
  · have each : ∀ c ∈ upperLetters, escaped? c.toLower = (escaped? c).map RegexAtom.lowered :=
      forall_of_all (by decide)
    exact each c upper

theorem regexAtoms_lowered (p : List Char) :
    regexAtoms? (lowered p) = (regexAtoms? p).map (·.map RegexAtom.lowered) := by
  have backslash (c : Char) : c.toLower = '\\' ↔ c = '\\' := toLower_eq_iff (by decide)
  have marks (c : Char) : c.toLower ∈ regexMarks ↔ c ∈ regexMarks := by
    have plain : ∀ m ∈ regexMarks, m.isAlpha = false := forall_of_all (by decide)
    constructor
    · intro mark
      have same : c = c.toLower := (toLower_eq_iff (plain _ mark)).mp rfl
      rw [same]
      exact mark
    · intro mark
      rw [(toLower_eq_iff (plain c mark)).mpr rfl]
      exact mark
  induction p using regexAtoms?.induct with
  | case1 => rfl
  | case2 => rfl
  | case3 e rest ih =>
    have mark : '\\'.toLower = '\\' := by decide
    rw [lowered, List.map_cons, List.map_cons, mark, ← lowered]
    simp only [regexAtoms?, if_true, ih, escaped_toLower]
    cases escaped? e <;> cases regexAtoms? rest <;> rfl
  | case4 c rest unescaped mark =>
    rw [lowered, List.map_cons, ← lowered, regexAtoms_cons (mt (backslash c).mp unescaped),
      regexAtoms_cons unescaped, if_pos mark, if_pos ((marks c).mpr mark)]
    rfl
  | case5 c rest unescaped plain ih =>
    rw [lowered, List.map_cons, ← lowered, regexAtoms_cons (mt (backslash c).mp unescaped),
      regexAtoms_cons unescaped, if_neg plain, if_neg (mt (marks c).mp plain), ih]
    simp only [Option.map_eq_map, Option.map_map]
    rfl

section

variable {p : List Char} {as : List RegexAtom}

theorem found_lowered (read : regexAtoms? p = some as) :
    found (lowered p) = ⊤ * atomsLanguage (as.map RegexAtom.lowered) * ⊤ := by
  refine found_of_atoms ?_
  rw [regexAtoms_lowered, read, Option.map_some]

theorem found_emulates (read : regexAtoms? p = some as) (named : ∀ k, .outside k ∉ as) :
    Emulates (found p) (found (lowered p)) := by
  rw [found_lowered read, found_of_atoms read, atomsLanguage, atomsLanguage, List.map_map]
  refine (Emulates.top.mul (.prod fun a ha => ?_)).mul .top
  exact RegexAtom.lowered_emulates fun k same => named k (same ▸ ha)

theorem sample_lost (read : regexAtoms? p = some as) {k : CharClass} (lost : .outside k ∈ as) :
    lowered (as.map RegexAtom.sample) ∉ found (lowered p) := by
  rw [found_lowered read, mem_found_of_length (by simp [lowered]), lowered, List.map_map,
    List.forall₂_map_left_iff, List.forall₂_map_right_iff, List.forall₂_same]
  intro takes
  exact RegexAtom.lowered_outside k (takes _ lost)

end

def IsAscii (x : List Char) : Prop :=
  ∀ c ∈ x, c.toNat < 128

theorem escaped_exactly {e c : Char} (h : escaped? e = some (.exactly c)) : c = e := by
  unfold escaped? at h
  split at h
  all_goals try cases h
  split at h <;> cases h
  rfl

theorem exactly_mem {p : List Char} {as : List RegexAtom} (read : regexAtoms? p = some as) {c : Char}
    (member : .exactly c ∈ as) : c ∈ p := by
  induction p using regexAtoms?.induct generalizing as with
  | case1 =>
    cases read
    cases member
  | case2 => cases read
  | case3 e rest ih =>
    simp only [regexAtoms?, if_true, Option.bind_eq_bind, Option.bind_eq_some_iff,
      Option.map_eq_map, Option.map_eq_some_iff] at read
    obtain ⟨a, escape, as, more, rfl⟩ := read
    rcases List.mem_cons.mp member with rfl | member
    · simp [escaped_exactly escape]
    · simp [ih more member]
  | case4 c rest unescaped mark =>
    rw [regexAtoms_cons unescaped, if_pos mark] at read
    cases read
  | case5 c rest unescaped plain ih =>
    rw [regexAtoms_cons unescaped, if_neg plain, Option.map_eq_map, Option.map_eq_some_iff] at read
    obtain ⟨as, more, rfl⟩ := read
    rcases List.mem_cons.mp member with same | member
    · cases same
      exact List.mem_cons_self
    · exact List.mem_cons_of_mem _ (ih more member)

theorem sample_ascii {p : List Char} {as : List RegexAtom} (read : regexAtoms? p = some as)
    (ascii : IsAscii p) : IsAscii (as.map RegexAtom.sample) := by
  rw [IsAscii, List.forall_mem_map]
  intro a ha
  rcases a with c | k | k
  · exact ascii c (exactly_mem read ha)
  · cases k <;> decide
  · cases k <;> decide

/-! The operators. -/

/-- Matches with a pattern that ignore case, and their negations. -/
inductive CaselessMatch
  | like (negated : Bool)
  | regex (negated : Bool)
  deriving DecidableEq

namespace CaselessMatch

def operator : CaselessMatch → Operator
  | like negated => if negated then .notILike else .iLike
  | regex negated => if negated then .notIRegexp else .iRegexp

def op : CaselessMatch → BinaryOp
  | like negated => if negated then .notILike else .iLike
  | regex negated => .regex negated true

def language : CaselessMatch → List Char → Language Char
  | like _ => Sql.like
  | regex _ => found

/-- Whether a text is in the language, or is not, where the match is negated. -/
def Decides (m : CaselessMatch) (l : Language Char) (x : List Char) : Prop :=
  match m with
  | like false | regex false => x ∈ l
  | like true | regex true => x ∉ l

/-- The match in a dialect that ignores case itself. -/
def Native (m : CaselessMatch) (p x : List Char) : Prop :=
  m.Decides (ignoringCase (m.language p)) x

/-- The match of lowered operands that regards case. -/
def Emulated (m : CaselessMatch) (p x : List Char) : Prop :=
  m.Decides (m.language (lowered p)) (lowered x)

variable (m : CaselessMatch)

theorem emulated_iff_native {p x : List Char} : (m.Emulated p x ↔ m.Native p x) ↔
    (lowered x ∈ m.language (lowered p) ↔ x ∈ ignoringCase (m.language p)) := by
  rcases m with negated | negated
  all_goals
    cases negated with
    | false => exact Iff.rfl
    | true => exact not_iff_not

theorem lowersOperands_iff (d : Dialect) : m.op.lowersOperands d = true ↔ d = .mysql := by
  rcases m with negated | negated
  all_goals cases negated <;> cases d <;> decide

theorem expr_eq (d : Dialect) (target : Target) (s : String) :
    Comparison.expr d ⟨target, m.operator, .value (.str s)⟩ =
      .ok (.binary target.expr m.op (.literal (.string s))) := by
  rcases m with negated | negated
  all_goals cases negated <;> rfl

theorem tokens_lowered {d : Dialect} (lowers : m.op.lowersOperands d = true) (left right : Expr) :
    (Expr.binary left m.op right).tokens d =
      callTokens "LOWER" (left.tokens d) ++ .space :: m.op.caseSensitive.tokens ++
        .space :: callTokens "LOWER" (right.tokens d) := by
  cases (m.lowersOperands_iff d).mp lowers
  rcases m with negated | negated
  · cases negated <;> rfl
  · simp [Expr.tokens, op, BinaryOp.lowersOperands, BinaryOp.caseSensitive, BinaryOp.tokens,
      Dialect.regexIsFunction, Dialect.supportsCaseInsensitiveRegex]

end CaselessMatch

/-- Where the operands are lowered, a match with a LIKE pattern decides as one that ignores case. A
match with a regular expression does so just when no class in it is negated by its capital: such a
class is found in lower case, and then some text that matches is lost. -/
theorem lowered_matches_decide_iff (m : CaselessMatch) (d : Dialect) (s : String) :
    (m.op.lowersOperands d = true ↔ d = .mysql) ∧
    (m.op.lowersOperands d = true → ∀ target,
      ∃ e, Comparison.expr d ⟨target, m.operator, .value (.str s)⟩ = .ok e ∧
        e.tokens d = callTokens "LOWER" (target.expr.tokens d) ++
          .space :: m.op.caseSensitive.tokens ++ .space :: callTokens "LOWER" [.string s] ∧
        lex d ((Token.string s).text d) = some [.string s]) ∧
    (∀ negated, m = .like negated → ∀ x, m.Emulated s.toList x ↔ m.Native s.toList x) ∧
    ∀ negated as, m = .regex negated → IsAscii s.toList → regexAtoms? s.toList = some as →
      ((∀ x, IsAscii x → (m.Emulated s.toList x ↔ m.Native s.toList x)) ↔
        ∀ k, RegexAtom.outside k ∉ as) := by
  refine ⟨m.lowersOperands_iff d, fun lowers target => ?_, ?_, ?_⟩
  · exact ⟨_, m.expr_eq d target s, m.tokens_lowered lowers _ _,
      Lexer.lex_of_reads (string_reads d s)⟩
  · rintro negated rfl x
    exact (CaselessMatch.emulated_iff_native _).mpr (like_lowered s.toList x)
  · rintro negated as rfl ascii read
    simp only [CaselessMatch.emulated_iff_native]
    constructor
    · intro faithful k lost
      have native : as.map RegexAtom.sample ∈ ignoringCase (found s.toList) :=
        ⟨_, sample_found read, rfl⟩
      exact sample_lost read lost ((faithful _ (sample_ascii read ascii)).mpr native)
    · intro named x _
      exact found_emulates read named x

theorem digit_between_letters :
    (∃ e, Comparison.expr .mysql
        ⟨.field ⟨"title", ⟨"film", "title"⟩⟩, .iRegexp, .value (.str "A\\dz")⟩ = .ok e ∧
      e.tokens .mysql =
        callTokens "LOWER" [.ident "film", .symbol .dot, .ident "title"] ++
          .space :: .regexMatch false false :: .space :: callTokens "LOWER" [.string "A\\dz"]) ∧
    (CaselessMatch.regex false).Native "A\\dz".toList "a0Z".toList ∧
      (CaselessMatch.regex false).Emulated "A\\dz".toList "a0Z".toList := by
  obtain ⟨lowers, rendered, -, decided⟩ :=
    lowered_matches_decide_iff (.regex false) .mysql "A\\dz"
  have read : regexAtoms? "A\\dz".toList = some [.exactly 'A', .inside .digit, .exactly 'z'] := rfl
  have native : (CaselessMatch.regex false).Native "A\\dz".toList "a0Z".toList :=
    ⟨_, sample_found read, rfl⟩
  obtain ⟨e, made, tokens, -⟩ :=
    rendered (lowers.mpr rfl) (.field ⟨"title", ⟨"film", "title"⟩⟩)
  refine ⟨⟨e, made, tokens⟩, native, ?_⟩
  have ascii : IsAscii "A\\dz".toList := forall_of_all (by decide)
  have ascii' : IsAscii "a0Z".toList := forall_of_all (by decide)
  exact ((decided false _ rfl ascii read).mpr (by simp) _ ascii').mpr native

/-- A title that is no number has something in it that is no digit, but its letter is looked for
among the digits. -/
theorem nondigit_lost :
    (∃ e, Comparison.expr .mysql
        ⟨.field ⟨"title", ⟨"film", "title"⟩⟩, .iRegexp, .value (.str "\\D")⟩ = .ok e ∧
      tokensText .mysql (e.tokens .mysql) =
        "LOWER(\x60film\x60.\x60title\x60) REGEXP LOWER('\\\\D')") ∧
    (CaselessMatch.regex false).Native "\\D".toList "a".toList ∧
      ¬ (CaselessMatch.regex false).Emulated "\\D".toList "a".toList := by
  have read : regexAtoms? "\\D".toList = some [.outside .digit] := rfl
  refine ⟨⟨_, rfl, by decide⟩, ⟨_, sample_found read, rfl⟩, ?_⟩
  exact sample_lost read (List.mem_singleton.mpr rfl)

end ReadPlan.Sql
