import Mathlib.Computability.Language
import ReadPlan.Proofs.OperatorExpr
import ReadPlan.Proofs.TokenText

/-!
LIKE patterns, and the tests for the beginning, the end and a part of a text. Such a test is a
pattern around the text as it was given, so it tests for just this text exactly when no character in
it means something else in a pattern.
-/

namespace ReadPlan

namespace Sql

/-- What stands in a pattern for a stretch of the text. -/
inductive PatternPart
  | any
  | one
  | exactly (c : Char)
  deriving DecidableEq

namespace PatternPart

def ofChar (c : Char) : PatternPart :=
  if c = '%' then any else if c = '_' then one else exactly c

def texts : PatternPart → Language Char
  | any => ⊤
  | one => {x | x.length = 1}
  | exactly c => {[c]}

/-- The shortest of its texts, where any character will do for one. -/
def least : PatternPart → List Char
  | any => []
  | one => ['-']
  | exactly c => [c]

theorem least_mem (part : PatternPart) : part.least ∈ part.texts := by
  cases part with
  | any => trivial
  | one | exactly => rfl

theorem least_length (part : PatternPart) : part.least.length ≤ 1 := by
  cases part <;> simp [least]

end PatternPart

/-- The parts of a pattern: a backslash takes the character after it as it is, and needs one. -/
def patternParts? : List Char → Option (List PatternPart)
  | [] => some []
  | c :: rest =>
    if c = '\\' then
      match rest with
      | [] => none
      | taken :: rest => (.exactly taken :: ·) <$> patternParts? rest
    else
      (.ofChar c :: ·) <$> patternParts? rest

def partsLanguage (parts : List PatternPart) : Language Char :=
  (parts.map PatternPart.texts).prod

def like (pattern : List Char) : Language Char :=
  (patternParts? pattern).elim 0 partsLanguage

def patternMarks : List Char :=
  ['%', '_', '\\']

def leastText (parts : List PatternPart) : List Char :=
  parts.flatMap PatternPart.least

theorem leastText_cons (part : PatternPart) (rest : List PatternPart) :
    leastText (part :: rest) = part.least ++ leastText rest :=
  rfl

theorem like_of_parts {pattern : List Char} {parts : List PatternPart}
    (read : patternParts? pattern = some parts) : like pattern = partsLanguage parts := by
  rw [like, read, Option.elim_some]

theorem partsLanguage_append (parts more : List PatternPart) :
    partsLanguage (parts ++ more) = partsLanguage parts * partsLanguage more := by
  rw [partsLanguage, List.map_append, List.prod_append]
  rfl

theorem partsLanguage_any : partsLanguage [.any] = ⊤ :=
  List.prod_singleton

theorem leastText_mem (parts : List PatternPart) : leastText parts ∈ partsLanguage parts := by
  induction parts with
  | nil => rfl
  | cons part rest ih =>
    rw [partsLanguage, List.map_cons, List.prod_cons]
    exact Language.append_mem_mul part.least_mem ih

theorem patternParts_cons {c : Char} (h : c ≠ '\\') (rest : List Char) :
    patternParts? (c :: rest) = (.ofChar c :: ·) <$> patternParts? rest := by
  rw [patternParts?.eq_def]
  simp [h]

inductive PartsOf : List Char → List PatternPart → Prop
  | nil : PartsOf [] []
  | taken (c) {rest parts} : PartsOf rest parts → PartsOf ('\\' :: c :: rest) (.exactly c :: parts)
  | char {c} (unescaped : c ≠ '\\') {rest parts} :
    PartsOf rest parts → PartsOf (c :: rest) (.ofChar c :: parts)

theorem partsOf {p : List Char} {parts : List PatternPart} (read : patternParts? p = some parts) :
    PartsOf p parts := by
  induction p using patternParts?.induct generalizing parts with
  | case1 =>
    cases read
    exact .nil
  | case2 => cases read
  | case3 taken rest ih =>
    simp only [patternParts?, if_true, Option.map_eq_map, Option.map_eq_some_iff] at read
    obtain ⟨others, read, rfl⟩ := read
    exact .taken taken (ih read)
  | case4 c rest unescaped ih =>
    simp only [patternParts_cons unescaped, Option.map_eq_map, Option.map_eq_some_iff] at read
    obtain ⟨others, read, rfl⟩ := read
    exact .char unescaped (ih read)

theorem PartsOf.append {p : List Char} {parts : List PatternPart} (h : PartsOf p parts)
    (q : List Char) : patternParts? (p ++ q) = (parts ++ ·) <$> patternParts? q := by
  induction h with
  | nil => simp
  | taken c _ ih => simp [patternParts?, ih, Function.comp_def]
  | char unescaped _ ih => simp [patternParts_cons unescaped, ih, Function.comp_def]

theorem PartsOf.read {p : List Char} {parts : List PatternPart} (h : PartsOf p parts) :
    patternParts? p = some parts := by
  simpa [patternParts?] using h.append []

theorem patternParts_none {p : List Char} (read : patternParts? p = none) :
    ∃ q parts, p = q ++ ['\\'] ∧ PartsOf q parts := by
  induction p using patternParts?.induct with
  | case1 => cases read
  | case2 => exact ⟨[], [], rfl, .nil⟩
  | case3 taken rest ih =>
    simp only [patternParts?, if_true, Option.map_eq_map, Option.map_eq_none_iff] at read
    obtain ⟨q, parts, rfl, whole⟩ := ih read
    exact ⟨'\\' :: taken :: q, _, rfl, .taken taken whole⟩
  | case4 c rest unescaped ih =>
    simp only [patternParts_cons unescaped, Option.map_eq_map, Option.map_eq_none_iff] at read
    obtain ⟨q, parts, rfl, whole⟩ := ih read
    exact ⟨c :: q, _, rfl, .char unescaped whole⟩

theorem PartsOf.leastText_length {p : List Char} {parts : List PatternPart} (h : PartsOf p parts) :
    (leastText parts).length ≤ p.length := by
  induction h with
  | nil => exact Nat.le_refl 0
  | taken c _ ih =>
    simp only [leastText_cons, List.length_append, List.length_cons, PatternPart.least,
      List.length_nil]
    omega
  | @char c _ _ _ _ ih =>
    have first := (PatternPart.ofChar c).least_length
    simp only [leastText_cons, List.length_append, List.length_cons]
    omega

theorem ofChar_plain {c : Char} (h : c ∉ patternMarks) : PatternPart.ofChar c = .exactly c := by
  simp only [patternMarks, List.mem_cons, List.not_mem_nil, or_false, not_or] at h
  simp [PatternPart.ofChar, h]

theorem unescaped_of_plain {c : Char} (h : c ∉ patternMarks) : c ≠ '\\' := by
  rintro rfl
  exact h (by decide)

theorem like_plain {p : List Char} (plain : ∀ c ∈ p, c ∉ patternMarks) :
    PartsOf p (p.map .exactly) ∧ partsLanguage (p.map .exactly) = {p} := by
  induction p with
  | nil => exact ⟨.nil, rfl⟩
  | cons c rest ih =>
    obtain ⟨first, others⟩ := List.forall_mem_cons.mp plain
    obtain ⟨read, language⟩ := ih others
    constructor
    · rw [List.map_cons, ← ofChar_plain first]
      exact .char (unescaped_of_plain first) read
    · rw [List.map_cons, ← List.singleton_append, partsLanguage_append, language]
      have single : partsLanguage [.exactly c] = {[c]} := List.prod_singleton
      ext x
      rw [single, Language.mem_mul]
      constructor
      · rintro ⟨_, rfl, _, rfl, rfl⟩
        rfl
      · rintro rfl
        exact ⟨[c], rfl, rest, rfl, rfl⟩

theorem PartsOf.plain {p : List Char} {parts : List PatternPart} (h : PartsOf p parts)
    (same : p = leastText parts) : ∀ c ∈ p, c ∉ patternMarks := by
  induction h with
  | nil => simp
  | taken c others =>
    have shorter := others.leastText_length
    have lengths := congrArg List.length same
    simp only [leastText_cons, PatternPart.least, List.length_append, List.length_cons,
      List.length_nil] at lengths
    omega
  | char unescaped others ih =>
    rw [leastText_cons, PatternPart.ofChar] at same
    split_ifs at same with percent underscore
    · have shorter := others.leastText_length
      have lengths := congrArg List.length same
      simp only [PatternPart.least, List.length_append, List.length_cons,
        List.length_nil] at lengths
      omega
    · obtain ⟨rfl, -⟩ := List.cons.inj same
      cases underscore
    · refine List.forall_mem_cons.mpr ⟨?_, ih (List.cons.inj same).2⟩
      simp [patternMarks, percent, underscore, unescaped]

/-- The tests of a text for what stands at its beginning, at its end or anywhere in it. -/
inductive TextTest
  | beginning
  | ending
  | part
  deriving DecidableEq

namespace TextTest

def operator : TextTest → Operator
  | beginning => .startsWith
  | ending => .endsWith
  | part => .substring

def pattern (t : TextTest) (s : String) : String :=
  match t with
  | beginning => s ++ "%"
  | ending => "%" ++ s
  | part => "%" ++ s ++ "%"

theorem beginning_toList (s : String) : (beginning.pattern s).toList = s.toList ++ ['%'] :=
  String.toList_append

theorem ending_toList (s : String) : (ending.pattern s).toList = '%' :: s.toList :=
  String.toList_append

theorem part_toList (s : String) : (part.pattern s).toList = '%' :: (s.toList ++ ['%']) := by
  simp [pattern, String.toList_append]

def Holds : TextTest → List Char → List Char → Prop
  | beginning, s, x => s <+: x
  | ending, s, x => s <:+ x
  | part, s, x => s <:+: x

theorem Holds.isInfix {t : TextTest} {s x : List Char} (h : t.Holds s x) : s <:+: x := by
  cases t with
  | beginning => exact List.IsPrefix.isInfix h
  | ending => exact List.IsSuffix.isInfix h
  | part => exact h

theorem Holds.refl (t : TextTest) (s : List Char) : t.Holds s s := by
  cases t with
  | beginning => exact List.prefix_refl s
  | ending => exact List.suffix_refl s
  | part => exact List.infix_refl s

theorem expr_eq (t : TextTest) (d : Dialect) (target : Target) (s : String) :
    Comparison.expr d ⟨target, t.operator, .value (.str s)⟩ =
      .ok (.binary target.expr .like (.literal (.string (t.pattern s)))) := by
  cases t <;> simp [Comparison.expr, operator, Operator.isArray, operatorExpr, patternOperand,
    pattern]

theorem operand_eq (t : TextTest) (f : Frame) (path s : String) :
    Operand.ofJson f path t.operator (.str s) = .ok (.value (.str s)) := by
  cases t <;> rfl

theorem like_pattern {t : TextTest} {s : String} {parts : List PatternPart}
    (h : PartsOf s.toList parts) (x : List Char) :
    x ∈ like (t.pattern s).toList ↔ ∃ y ∈ like s.toList, t.Holds y x := by
  have after : PartsOf (s.toList ++ ['%']) (parts ++ [.any]) :=
    partsOf (h.append ['%'])
  have before {p : List Char} {ps : List PatternPart} (h : PartsOf p ps) :
      PartsOf ('%' :: p) (.any :: ps) :=
    .char (by decide) h
  have language : partsLanguage (.any :: parts) = ⊤ * partsLanguage parts := by
    rw [← List.singleton_append, partsLanguage_append, partsLanguage_any]
  rw [like_of_parts h.read]
  cases t with
  | beginning =>
    rw [beginning_toList, like_of_parts after.read, partsLanguage_append, partsLanguage_any,
      Language.mem_mul]
    constructor
    · rintro ⟨y, like, z, -, rfl⟩
      exact ⟨y, like, z, rfl⟩
    · rintro ⟨y, like, z, rfl⟩
      exact ⟨y, like, z, trivial, rfl⟩
  | ending =>
    rw [ending_toList, like_of_parts (before h).read, language, Language.mem_mul]
    constructor
    · rintro ⟨z, -, y, like, rfl⟩
      exact ⟨y, like, z, rfl⟩
    · rintro ⟨y, like, z, rfl⟩
      exact ⟨z, trivial, y, like, rfl⟩
  | part =>
    rw [part_toList, like_of_parts (before after).read, ← List.cons_append, partsLanguage_append,
      language, partsLanguage_any, Language.mem_mul]
    constructor
    · rintro ⟨_, ⟨z, -, y, like, rfl⟩, w, -, rfl⟩
      exact ⟨y, like, z, w, rfl⟩
    · rintro ⟨y, like, z, w, rfl⟩
      exact ⟨z ++ y, ⟨z, trivial, y, like, rfl⟩, w, trivial, rfl⟩

/-- The backslash at the end of the text given takes the percent sign, so that a text like the
pattern is without the backslash; at the end of the pattern there is nothing to take. -/
theorem not_literal_of_partless {t : TextTest} {s : String}
    (partless : patternParts? s.toList = none)
    (literal : ∀ x, x ∈ like (t.pattern s).toList ↔ t.Holds s.toList x) : False := by
  obtain ⟨q, parts, last, whole⟩ := patternParts_none partless
  have held {ps : List PatternPart} (read : PartsOf (t.pattern s).toList ps)
      (least : leastText ps = leastText parts ++ ['%']) : False := by
    have found : leastText ps ∈ like (t.pattern s).toList := by
      rw [like_of_parts read.read]
      exact leastText_mem ps
    have shorter := whole.leastText_length
    have inside := ((literal _).mp found).isInfix
    have same := inside.eq_of_length_le (by
      rw [least, last, List.length_append, List.length_append]
      simpa using shorter)
    rw [least, last] at same
    cases (List.append_inj' same rfl).2
  have taken : PartsOf (s.toList ++ ['%']) (parts ++ [.exactly '%']) := by
    rw [last, List.append_assoc]
    exact partsOf (whole.append ['\\', '%'])
  cases t with
  | beginning =>
    rw [← beginning_toList] at taken
    exact held taken (by simp [leastText, PatternPart.least])
  | ending =>
    have found := (literal s.toList).mpr (Holds.refl _ _)
    rw [ending_toList, like, patternParts_cons (by decide), partless] at found
    exact found
  | part =>
    have read : PartsOf (part.pattern s).toList (.any :: (parts ++ [.exactly '%'])) := by
      rw [part_toList]
      exact .char (by decide) taken
    exact held read (by simp [leastText, PatternPart.least])

theorem literal_iff (t : TextTest) (s : String) :
    (∀ x, x ∈ like (t.pattern s).toList ↔ t.Holds s.toList x) ↔
      ∀ c ∈ s.toList, c ∉ patternMarks := by
  constructor
  · intro literal
    cases read : patternParts? s.toList with
    | none => exact (not_literal_of_partless read literal).elim
    | some parts =>
      have whole := partsOf read
      have least : leastText parts ∈ like s.toList := by
        rw [like_of_parts read]
        exact leastText_mem parts
      have found := (like_pattern whole _).mpr ⟨_, least, Holds.refl t _⟩
      have inside := ((literal _).mp found).isInfix
      exact whole.plain (inside.eq_of_length_le whole.leastText_length)
  · intro plain x
    obtain ⟨whole, language⟩ := like_plain plain
    rw [like_pattern whole, like_of_parts whole.read, language]
    exact exists_eq_left

end TextTest

/-- A text test is a pattern around the text as given: the text is read as a pattern itself, and so
the test is for just this text exactly when it holds no character that means more in a pattern. -/
theorem text_test_literal_iff (t : TextTest) (s : String) :
    (∀ f path, Operand.ofJson f path t.operator (.str s) = .ok (.value (.str s))) ∧
    (∀ d target, ∃ e, Comparison.expr d ⟨target, t.operator, .value (.str s)⟩ = .ok e ∧
      e.tokens d =
        target.expr.tokens d ++ [.space, .keyword .like, .space, .string (t.pattern s)] ∧
      lex d ((Token.string (t.pattern s)).text d) = some [.string (t.pattern s)]) ∧
    (patternParts? s.toList ≠ none →
      ∀ x, x ∈ like (t.pattern s).toList ↔ ∃ y ∈ like s.toList, t.Holds y x) ∧
    ((∀ x, x ∈ like (t.pattern s).toList ↔ t.Holds s.toList x) ↔
      ∀ c ∈ s.toList, c ∉ patternMarks) := by
  refine ⟨fun f path => t.operand_eq f path s, fun d target => ⟨_, t.expr_eq d target s, ?_, ?_⟩,
    fun read x => ?_, t.literal_iff s⟩
  · simp [Expr.tokens, BinaryOp.lowersOperands, BinaryOp.tokens, Literal.token]
  · exact Lexer.lex_of_reads (string_reads d _)
  · obtain ⟨parts, read⟩ := Option.ne_none_iff_exists'.mp read
    exact TextTest.like_pattern (partsOf read) x

theorem ace_literal (x : List Char) :
    x ∈ like "ACE%".toList ↔ "ACE".toList <+: x :=
  (text_test_literal_iff .beginning "ACE").2.2.2.mpr (by simp [patternMarks]) x

/-- The title `500 Days` passes a test for titles that begin with `50%`. -/
theorem percent_sign_not_literal :
    (∃ e, Comparison.expr .postgres
        ⟨.field ⟨"title", ⟨"film", "title"⟩⟩, .startsWith, .value (.str "50%")⟩ = .ok e ∧
      e.tokens .postgres = [.ident "film", .symbol .dot, .ident "title", .space, .keyword .like,
        .space, .string "50%%"]) ∧
    (Token.string "50%%").text .postgres = "'50%%'" ∧
    "500 Days".toList ∈ like "50%%".toList ∧ ¬ "50%".toList <+: "500 Days".toList := by
  refine ⟨⟨_, rfl, by decide⟩, by decide, ?_, by decide⟩
  have read : PartsOf "50%".toList [.exactly '5', .exactly '0', .any] := partsOf rfl
  refine (TextTest.like_pattern (t := .beginning) read _).mpr ⟨"50".toList, ?_, ?_⟩
  · rw [like_of_parts read.read]
    exact leastText_mem _
  · exact (by decide : "50".toList <+: "500 Days".toList)

end Sql

end ReadPlan
