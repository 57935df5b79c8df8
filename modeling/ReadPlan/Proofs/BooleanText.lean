import Mathlib.Data.List.Forall2
import ReadPlan.Proofs.BooleanReading
import ReadPlan.Proofs.CatalogBuild
import ReadPlan.Proofs.OperatorExpr

namespace ReadPlan

inductive Leaf
  | comparison (x : Comparison)
  | fragment (sql : String) (scope : FragmentScope)

def Valuation.leaf (v : Valuation) : Leaf → Truth
  | .comparison x => v.comparison x
  | .fragment sql scope => v.fragment sql scope

def Leaf.expr (c : Catalog) (d : Dialect) : Leaf → Except QueryError Sql.Expr
  | comparison x => x.expr d
  | fragment sql scope => c.fragmentExpr sql scope

namespace Sql

/-- What the text of a leaf says. It is one atom, but membership in no values is a truth value and
a negated match by a function is a negation. -/
def Expr.leafFormula (d : Dialect) (e : Expr) : Formula (List Token) :=
  match e with
  | .binary left (.regex true caseInsensitive) right =>
    if d.regexIsFunction then
      .not (.atom (visible ((Expr.binary left (.regex false caseInsensitive) right).tokens d)))
    else
      .atom (visible (e.tokens d))
  | .inList _ [] negated => .constant (if negated then .yes else .no)
  | e => .atom (visible (e.tokens d))

end Sql

def Leaf.formula (c : Catalog) (d : Dialect) (l : Leaf) : Sql.Formula (List Sql.Token) :=
  match l.expr c d with
  | .ok e => e.leafFormula d
  | .error _ => .constant .unknown

namespace Sql

def Expr.isOperand : Expr → Bool
  | .column .. | .literal _ | .array _ | .call .. | .paren _ => true
  | _ => false

@[simp] theorem Expr.isOperand_ofColumn (table column : String) :
    (Expr.ofColumn table column).isOperand = true := rfl

@[simp] theorem Expr.isOperand_value (value : Literal) :
    (Expr.literal value).isOperand = true := rfl

@[simp] theorem Expr.isOperand_literal (v : Json) : (Sql.literal v).isOperand = true := rfl

@[simp] theorem Expr.isOperand_array (items : List Expr) :
    (Expr.array items).isOperand = true := rfl

def Expr.isLeaf : Expr → Bool
  | .binary left op right => op != .and && op != .or && left.isOperand && right.isOperand
  | .inList e _ _ => e.isOperand
  | .between e low high _ => e.isOperand && low.isOperand && high.isOperand
  | .isNull e _ => e.isOperand
  | .is e value _ => e.isOperand && value.isOperand
  | .quantified e op _ _ => op != .and && op != .or && e.isOperand
  | .exists _ => true
  | _ => false

theorem Expr.isJunction_of_isLeaf {e : Expr} (h : e.isLeaf = true) : e.isJunction = false := by
  cases e with
  | binary left op right => cases op <;> first | rfl | contradiction
  | _ => rfl

def Plain (ts : List Token) : Prop :=
  ∃ ps, Adds ts ps ∧ ∀ p ∈ ps, p.isPlain = true

/-- The tokens read as at least one piece, and not as a negation. -/
def Solid (ts : List Token) : Prop :=
  ∃ p ps, Adds ts (p :: ps) ∧ p.isWord .not = false ∧ ∀ q ∈ p :: ps, q.isPlain = true

namespace Plain

theorem nil : Plain [] :=
  ⟨[], .nil, by simp⟩

theorem append {ts us : List Token} (ht : Plain ts) (hu : Plain us) : Plain (ts ++ us) := by
  obtain ⟨ps, adds, plain⟩ := ht
  obtain ⟨qs, addsToo, plainToo⟩ := hu
  refine ⟨ps ++ qs, adds.append addsToo, ?_⟩
  intro p hp
  rcases List.mem_append.mp hp with hp | hp
  · exact plain p hp
  · exact plainToo p hp

theorem space {ts : List Token} (ht : Plain ts) : Plain (.space :: ts) :=
  append ⟨[], .blank rfl, by simp⟩ ht

theorem token {t : Token} {ts : List Token} (solid : t.isBlank = false)
    (flat : t.isBracket = false) (plain : (Piece.token t).isPlain = true) (ht : Plain ts) :
    Plain (t :: ts) :=
  append ⟨[.token t], .token solid flat, by simpa using plain⟩ ht

theorem parens {ts us : List Token} (ht : Balanced ts) (hu : Plain us) :
    Plain (.symbol .openParen :: (ts ++ .symbol .closeParen :: us)) := by
  obtain ⟨ps, ht⟩ := ht
  have group : Plain (.symbol .openParen :: ts ++ [.symbol .closeParen]) :=
    ⟨_, ht.parens, by simp [Piece.isPlain, Piece.isWord]⟩
  simpa only [List.append_assoc, List.cons_append, List.nil_append] using group.append hu

end Plain

namespace Solid

theorem plain {ts : List Token} (h : Solid ts) : Plain ts := by
  obtain ⟨p, ps, adds, -, plain⟩ := h
  exact ⟨p :: ps, adds, plain⟩

theorem append {ts us : List Token} (ht : Solid ts) (hu : Plain us) : Solid (ts ++ us) := by
  obtain ⟨p, ps, adds, first, plain⟩ := ht
  obtain ⟨qs, addsToo, plainToo⟩ := hu
  refine ⟨p, ps ++ qs, adds.append addsToo, first, ?_⟩
  intro q hq
  rcases List.mem_append.mp (List.cons_append ▸ hq) with hq | hq
  · exact plain q hq
  · exact plainToo q hq

theorem token {t : Token} {ts : List Token} (solid : t.isBlank = false)
    (flat : t.isBracket = false) (first : (Piece.token t).isWord .not = false)
    (plain : (Piece.token t).isPlain = true) (ht : Plain ts) : Solid (t :: ts) := by
  have head : Solid [t] := ⟨.token t, [], .token solid flat, first, by simpa using plain⟩
  exact head.append ht

theorem callTokens {args : List Token} (function : String) (h : Balanced args) :
    Solid (callTokens function args) :=
  token rfl rfl rfl rfl (.parens h .nil)

end Solid

/-- The tokens stand between any words AND and OR for the formula. -/
def ReadsFactor (ts : List Token) (φ : Formula (List Token)) : Prop :=
  ∃ ps, Adds ts ps ∧ Uncut ps ∧ factor? ps = some φ

theorem reads_atom {ts : List Token} {p : Piece} {ps : List Piece} (adds : Adds ts (p :: ps))
    (more : ps ≠ []) (first : p.isWord .not = false) (uncut : Uncut (p :: ps)) :
    ReadsFactor ts (.atom (visible ts)) := by
  refine ⟨p :: ps, adds, uncut, ?_⟩
  rw [← adds.text]
  cases ps with
  | nil => contradiction
  | cons => simp [factor?, first, primary?]

theorem infix_reads {left right : List Token} {t : Token} (hl : Solid left)
    (solid : t.isBlank = false) (flat : t.isBracket = false)
    (plain : (Piece.token t).isPlain = true) (hr : Plain right) :
    ReadsFactor (left ++ .space :: t :: right)
      (.atom (visible (left ++ .space :: t :: right))) := by
  obtain ⟨p, ps, adds, first, leftPlain⟩ := hl
  obtain ⟨qs, addsRight, rightPlain⟩ := hr
  have word : Adds [.space, t] [.token t] := (Adds.blank rfl).append (.token solid flat)
  have uncut : Uncut ((p :: ps) ++ ([.token t] ++ qs)) :=
    .append (.of_plain leftPlain)
      (.append (.of_plain (by simpa using plain)) (.of_plain rightPlain))
  exact reads_atom (adds.append (word.append addsRight)) (by simp) first uncut

theorem range_reads {left low high : List Token} (hl : Solid left) (hlow : Plain low)
    (hhigh : Plain high) :
    ReadsFactor (left ++ ([.space, .keyword .between, .space] ++ low ++
        [.space, .keyword .and, .space]) ++ high)
      (.atom (visible (left ++ ([.space, .keyword .between, .space] ++ low ++
        [.space, .keyword .and, .space]) ++ high))) := by
  obtain ⟨p, ps, adds, first, leftPlain⟩ := hl
  obtain ⟨lows, addsLow, lowPlain⟩ := hlow
  obtain ⟨highs, addsHigh, highPlain⟩ := hhigh
  have gap : Adds [.space] [] := .blank rfl
  have word (w : Keyword) : Adds [.space, .keyword w, .space] [.token (.keyword w)] :=
    gap.append ((Adds.token rfl rfl).append gap)
  have uncut : Uncut ((p :: ps) ++ (([.token (.keyword .between)] ++ lows) ++
      [.token (.keyword .and)]) ++ highs) :=
    .append (.append (.of_plain leftPlain) (.between lowPlain)) (.of_plain highPlain)
  have all := (adds.append (((word .between).append addsLow).append (word .and))).append addsHigh
  exact reads_atom all (by simp) first uncut

section

variable (d : Dialect)

theorem operand_solid {e : Expr} (h : e.isOperand = true) : Solid (e.tokens d) := by
  cases e with
  | column table column =>
    cases table with
    | none => exact .token rfl rfl rfl rfl .nil
    | some t => exact .token rfl rfl rfl rfl (.token rfl rfl rfl (.token rfl rfl rfl .nil))
  | literal value =>
    rw [Expr.tokens]
    cases value <;> exact .token rfl rfl rfl rfl .nil
  | array items =>
    obtain ⟨ps, adds⟩ := list_balanced d items
    exact .token rfl rfl rfl rfl ⟨_, adds.brackets, by simp [Piece.isPlain, Piece.isWord]⟩
  | call function args distinct =>
    rw [Expr.tokens]
    refine .callTokens function (.append ?_ (list_balanced d args))
    cases distinct
    · exact .nil
    · exact .cons rfl (.single rfl)
  | paren e =>
    obtain ⟨ps, adds⟩ := e.balanced d
    exact ⟨_, [], adds.parens, rfl, by simp [Piece.isPlain, Piece.isWord]⟩
  | _ => contradiction

theorem binary_reads {left right : List Token} {op : BinaryOp} (hl : Solid left)
    (hr : Plain right) (notAnd : op ≠ .and) (notOr : op ≠ .or) :
    ReadsFactor (left ++ .space :: op.tokens ++ .space :: right)
      (.atom (visible (left ++ .space :: op.tokens ++ .space :: right))) := by
  have spaced : Plain (.space :: right) := .space hr
  rw [List.append_assoc, List.cons_append]
  cases op with
  | and | or => contradiction
  | notLike | notILike =>
    exact infix_reads hl rfl rfl rfl (.space (.token rfl rfl rfl spaced))
  | _ => exact infix_reads hl rfl rfl rfl spaced

theorem truthKeyword_plain {e : Expr} {word : Keyword} (h : e.truthKeyword? = some word) :
    (Piece.token (.keyword word)).isPlain = true := by
  unfold Expr.truthKeyword? at h
  split at h <;> cases h <;> rfl

theorem lowered_solid (e : Expr) : Solid (callTokens "LOWER" (e.tokens d)) :=
  .callTokens _ (e.balanced d)

theorem call_reads {args : List Token} (function : String) (h : Balanced args) :
    ReadsFactor (callTokens function args) (.atom (visible (callTokens function args))) := by
  obtain ⟨ps, adds⟩ := h
  have name : Adds [.functionName function] [.token (.functionName function)] := .token rfl rfl
  exact reads_atom (name.append adds.parens) (by simp) rfl
    (.of_plain (by simp [Piece.isPlain, Piece.isWord]))

theorem negation_reads {ts : List Token} {φ : Formula (List Token)} (h : ReadsFactor ts φ) :
    ReadsFactor (.keyword .not :: .space :: ts) (.not φ) := by
  obtain ⟨ps, adds, uncut, factor⟩ := h
  have word : Adds [.keyword .not, .space] [.token (.keyword .not)] :=
    (Adds.token rfl rfl).append (.blank rfl)
  refine ⟨.token (.keyword .not) :: ps, word.append adds, ?_, ?_⟩
  · exact .append (.of_plain (by simp [Piece.isPlain, Piece.isWord]) :
      Uncut [.token (.keyword .not)]) uncut
  · rw [factor?, factor]
    rfl

theorem Expr.and_tokens (left right : Expr) : (Expr.binary left .and right).tokens d =
    left.tokens d ++ .space :: .keyword .and :: .space :: right.tokens d := by
  simp [Expr.tokens, BinaryOp.lowersOperands, BinaryOp.tokens]

theorem Expr.or_tokens (left right : Expr) : (Expr.binary left .or right).tokens d =
    left.tokens d ++ .space :: .keyword .or :: .space :: right.tokens d := by
  simp [Expr.tokens, BinaryOp.lowersOperands, BinaryOp.tokens]

theorem regex_reads {left right : Expr} (hl : left.isOperand = true) (hr : right.isOperand = true)
    (negated caseInsensitive : Bool) :
    ReadsFactor ((Expr.binary left (.regex negated caseInsensitive) right).tokens d)
      ((Expr.binary left (.regex negated caseInsensitive) right).leafFormula d) := by
  have comma : Balanced separator := .cons rfl (.single rfl)
  have flag : Balanced (if caseInsensitive then separator ++ [.string "i"] else []) := by
    split
    · exact .append comma (.single rfl)
    · exact .nil
  have call := call_reads "regexp_matches"
    (.append (.append (.append (left.balanced d) comma) (right.balanced d)) flag)
  have matched {ts us : List Token} (ht : Solid ts) (hu : Solid us) (n i : Bool) :
      ReadsFactor (ts ++ .space :: .regexMatch n i :: .space :: us)
        (.atom (visible (ts ++ .space :: .regexMatch n i :: .space :: us))) :=
    infix_reads ht rfl rfl rfl (.space hu.plain)
  have lowered := matched (lowered_solid d left) (lowered_solid d right) negated false
  have plain := matched (operand_solid d hl) (operand_solid d hr) negated caseInsensitive
  cases function : d.regexIsFunction with
  | true =>
    cases negated with
    | true => simpa [Expr.tokens, Expr.leafFormula, function] using negation_reads call
    | false => simpa [Expr.tokens, Expr.leafFormula, function] using call
  | false =>
    cases lowers : BinaryOp.lowersOperands d (.regex negated caseInsensitive) with
    | true =>
      cases negated <;> simpa [Expr.tokens, Expr.leafFormula, function, lowers] using lowered
    | false =>
      cases negated <;> simpa [Expr.tokens, Expr.leafFormula, function, lowers] using plain

theorem leaf_reads {e : Expr} (h : e.isLeaf = true) :
    ReadsFactor (e.tokens d) (e.leafFormula d) := by
  cases e with
  | binary left op right =>
    simp only [Expr.isLeaf, Bool.and_eq_true, bne_iff_ne, ne_eq] at h
    obtain ⟨⟨⟨notAnd, notOr⟩, hl⟩, hr⟩ := h
    have lowered (o : BinaryOp) (ha : o ≠ .and) (ho : o ≠ .or) :=
      binary_reads (lowered_solid d left) (lowered_solid d right).plain ha ho
    have plain := binary_reads (operand_solid d hl) (operand_solid d hr).plain notAnd notOr
    cases op with
    | regex negated caseInsensitive => exact regex_reads d hl hr negated caseInsensitive
    | iLike | notILike =>
      simp only [Expr.tokens, Expr.leafFormula]
      split
      · exact lowered _ (by simp [BinaryOp.caseSensitive]) (by simp [BinaryOp.caseSensitive])
      · exact plain
    | _ => simpa [Expr.tokens, Expr.leafFormula, BinaryOp.lowersOperands] using plain
  | inList e values negated =>
    have he := operand_solid d h
    cases values with
    | nil =>
      cases negated <;>
        exact ⟨[.token _], .token rfl rfl, .of_plain (by simp [Piece.isPlain, Piece.isWord]), rfl⟩
    | cons value rest =>
      have members : Plain (.space :: .symbol .openParen ::
          (listTokens d (value :: rest) ++ [.symbol .closeParen])) :=
        .space (.parens (list_balanced d (value :: rest)) .nil)
      simp only [Expr.tokens, Expr.leafFormula, List.isEmpty_cons, Bool.false_eq_true, if_false,
        List.append_assoc, List.cons_append]
      cases negated with
      | true => exact infix_reads he rfl rfl rfl (.space (.token rfl rfl rfl members))
      | false => exact infix_reads he rfl rfl rfl members
  | between e low high negated =>
    simp only [Expr.isLeaf, Bool.and_eq_true] at h
    obtain ⟨⟨he, hlow⟩, hhigh⟩ := h
    have negation : Plain (notTokens negated) := by
      cases negated
      · exact .nil
      · exact .space (.token rfl rfl rfl .nil)
    have range := range_reads ((operand_solid d he).append negation) (operand_solid d hlow).plain
      (operand_solid d hhigh).plain
    simpa [Expr.tokens, Expr.leafFormula] using range
  | isNull e negated =>
    have he := operand_solid d h
    cases negated <;> exact infix_reads he rfl rfl rfl .nil
  | is e value negated =>
    simp only [Expr.isLeaf, Bool.and_eq_true] at h
    have he := operand_solid d h.1
    simp only [Expr.tokens, Expr.leafFormula, List.append_assoc, List.cons_append]
    split
    case h_1 word known =>
      have right : Plain [.keyword word] := .token rfl rfl (truthKeyword_plain known) .nil
      cases negated with
      | true => exact infix_reads he rfl rfl rfl (.space (.token rfl rfl rfl (.space right)))
      | false => exact infix_reads he rfl rfl rfl (.space right)
    case h_2 =>
      have right := (operand_solid d h.2).plain
      cases negated with
      | true => exact infix_reads he rfl rfl rfl (.space (.token rfl rfl rfl (.space right)))
      | false => exact infix_reads he rfl rfl rfl (.space right)
  | quantified e op q array =>
    simp only [Expr.isLeaf, Bool.and_eq_true, bne_iff_ne, ne_eq] at h
    obtain ⟨⟨notAnd, notOr⟩, he⟩ := h
    have right : Plain (q.token :: .symbol .openParen ::
        (array.tokens d ++ [.symbol .closeParen])) := by
      cases q <;> exact .token rfl rfl rfl (.parens (array.balanced d) .nil)
    simpa [Expr.tokens, Expr.leafFormula] using binary_reads (operand_solid d he) right notAnd notOr
  | «exists» query =>
    obtain ⟨ps, adds⟩ := query.balanced d .inline
    have word : Adds [.keyword .exists, .space] [.token (.keyword .exists)] :=
      (Adds.token rfl rfl).append (.blank rfl)
    exact reads_atom (word.append adds.parens) (by simp) rfl
      (.of_plain (by simp [Piece.isPlain, Piece.isWord]))
  | _ => contradiction

end

theorem compares_isLeaf {left e : Expr} {operand : Operand} (h : Compares left operand e)
    (hl : left.isOperand = true) : e.isLeaf = true := by
  cases h with
  | value v notAnd notOr => simp [Expr.isLeaf, hl, notAnd, notOr]
  | text s before after => simp [Expr.isLeaf, hl]
  | column field notAnd notOr => simp [Expr.isLeaf, hl, notAnd, notOr, ColumnRef.expr]
  | arrays vs notAnd notOr => simp [Expr.isLeaf, hl, notAnd, notOr]
  | isNull negated => exact hl
  | range low high negated => simp [Expr.isLeaf, hl]
  | inList vs negated => exact hl
  | quantified q vs => simp [Expr.isLeaf, hl]
  | is v negated => simp [Expr.isLeaf, hl]

end Sql

theorem Target.expr_isOperand (t : Target) : t.expr.isOperand = true := by
  cases t <;> rfl

theorem Comparison.expr_isLeaf {d : Dialect} {x : Comparison} {e : Sql.Expr}
    (h : x.expr d = .ok e) : e.isLeaf = true := by
  unfold Comparison.expr at h
  simp only at h
  split at h
  · cases h
  · exact Sql.compares_isLeaf (Sql.operatorExpr_compares h) x.target.expr_isOperand

theorem Leaf.expr_isLeaf {c : Catalog} {d : Dialect} {l : Leaf} {e : Sql.Expr}
    (h : l.expr c d = .ok e) : e.isLeaf = true := by
  cases l with
  | comparison x => exact Comparison.expr_isLeaf h
  | fragment sql scope =>
    cases scope with
    | field field =>
      cases h
      rfl
    | «exists» source a =>
      simp only [Leaf.expr, Catalog.fragmentExpr, bind_eq_ok, pure_eq_ok] at h
      obtain ⟨q, -, rfl⟩ := h
      rfl

section

variable (c : Catalog) (d : Dialect)

/-- The tokens say in the leaves of a predicate what has the truth `t`. -/
def TextMeans (ts : List Sql.Token) (t : Valuation → Truth) : Prop :=
  ∃ (ps : List Sql.Piece) (φ : Sql.Formula Leaf), Sql.Adds ts ps ∧
    Sql.formula? ps = some (φ.bind (Leaf.formula c d)) ∧ ∀ v, φ.truth v.leaf = t v

def FactorMeans (ts : List Sql.Token) (t : Valuation → Truth) : Prop :=
  ∃ φ : Sql.Formula Leaf, Sql.ReadsFactor ts (φ.bind (Leaf.formula c d)) ∧
    ∀ v, φ.truth v.leaf = t v

variable {c d}

theorem FactorMeans.text {ts : List Sql.Token} {t : Valuation → Truth} (h : FactorMeans c d ts t) :
    TextMeans c d ts t := by
  obtain ⟨φ, ⟨ps, adds, uncut, factor⟩, truth⟩ := h
  refine ⟨ps, .any [.all [φ]], adds, ?_, ?_⟩
  · have whole : Sql.alternatives ps = [ps] := Sql.alternatives_single uncut.noOr
    simp [Sql.formula?, whole, Sql.conjunction?, uncut.single, factor, Sql.Formula.bind,
      Sql.formulaBinds]
  · intro v
    simp [Sql.Formula.truth, Sql.formulaTruths, truth]

theorem TextMeans.parens {ts : List Sql.Token} {t : Valuation → Truth} (h : TextMeans c d ts t) :
    FactorMeans c d (.symbol .openParen :: ts ++ [.symbol .closeParen]) t := by
  obtain ⟨ps, φ, adds, formula, truth⟩ := h
  refine ⟨φ, ⟨_, adds.parens, .of_plain (by simp [Sql.Piece.isPlain, Sql.Piece.isWord]), ?_⟩, truth⟩
  simp [Sql.factor?, Sql.primary?, Sql.Piece.isWord, formula]

theorem FactorMeans.not {ts : List Sql.Token} {t : Valuation → Truth} (h : FactorMeans c d ts t) :
    FactorMeans c d (.keyword .not :: .space :: ts) (fun v => (t v).not) := by
  obtain ⟨φ, reads, truth⟩ := h
  refine ⟨.not φ, Sql.negation_reads reads, ?_⟩
  intro v
  rw [Sql.Formula.truth, truth]

variable (c d) in
/-- The text of an expression says what has the truth `t`, and between words AND and OR too if it is
in parentheses wherever it needs them. -/
structure Sql.Expr.Means (e : Sql.Expr) (t : Valuation → Truth) : Prop where
  whole : TextMeans c d (e.tokens d) t
  grouped : FactorMeans c d (e.grouped.tokens d) t

theorem FactorMeans.means {e : Sql.Expr} {t : Valuation → Truth}
    (h : FactorMeans c d (e.tokens d) t) (single : e.isJunction = false) : e.Means c d t := by
  refine ⟨h.text, ?_⟩
  rw [Sql.Expr.grouped, single]
  exact h

theorem TextMeans.means {e : Sql.Expr} {t : Valuation → Truth} (h : TextMeans c d (e.tokens d) t)
    (junction : e.isJunction = true) : e.Means c d t := by
  refine ⟨h, ?_⟩
  rw [Sql.Expr.grouped, junction]
  exact h.parens

def Sql.joinedTokens (d : Dialect) (word : Sql.Keyword) (es : List Sql.Expr) : List Sql.Token :=
  es.flatMap fun e => .space :: .keyword word :: .space :: e.grouped.tokens d

theorem joined_means {es : List Sql.Expr} {ps : List Predicate} (word : Sql.Keyword)
    (h : List.Forall₂ (fun e p => e.Means c d (p.truth ·)) es ps) :
    ∃ (qs : List (List Sql.Piece)) (φs : List (Sql.Formula Leaf)),
      Sql.Adds (Sql.joinedTokens d word es) (qs.flatMap (.token (.keyword word) :: ·)) ∧
      (∀ q ∈ qs, Sql.Uncut q) ∧
      qs.mapM Sql.factor? = some (φs.map (·.bind (Leaf.formula c d))) ∧
      ∀ v, φs.map (·.truth v.leaf) = predicateTruths v ps := by
  induction h with
  | nil => exact ⟨[], [], .nil, by simp, rfl, fun _ => rfl⟩
  | cons means _ ih =>
    obtain ⟨qs, φs, adds, whole, factors, truths⟩ := ih
    obtain ⟨φ, ⟨q, addsHere, uncut, factor⟩, truth⟩ := means.grouped
    have gap : Sql.Adds [.space] [] := .blank rfl
    have opening : Sql.Adds [.space, .keyword word, .space] [.token (.keyword word)] :=
      gap.append ((Sql.Adds.token rfl rfl).append gap)
    refine ⟨q :: qs, φ :: φs, (opening.append addsHere).append adds,
      List.forall_mem_cons.mpr ⟨uncut, whole⟩, ?_, ?_⟩
    · rw [List.mapM_cons, factor, factors]
      rfl
    · intro v
      rw [List.map_cons, predicateTruths, truth, truths]

theorem junction_tokens {op : Sql.BinaryOp} {word : Sql.Keyword}
    (infixed : ∀ left right : Sql.Expr, (Sql.Expr.binary left op right).tokens d =
      left.tokens d ++ .space :: .keyword word :: .space :: right.tokens d)
    (first : Sql.Expr) (rest : List Sql.Expr) :
    (rest.foldl (fun left right => .binary left op right.grouped) first).tokens d =
      first.tokens d ++ Sql.joinedTokens d word rest := by
  induction rest generalizing first with
  | nil => simp [Sql.joinedTokens]
  | cons e rest ih =>
    rw [List.foldl_cons, ih, infixed]
    simp [Sql.joinedTokens]

theorem junction_isJunction {op : Sql.BinaryOp} (h : op = .and ∨ op = .or) (first : Sql.Expr)
    {rest : List Sql.Expr} (more : rest ≠ []) :
    (rest.foldl (fun left right => .binary left op right.grouped) first).isJunction = true := by
  induction rest generalizing first with
  | nil => contradiction
  | cons e rest ih =>
    cases rest with
    | nil => rcases h with rfl | rfl <;> rfl
    | cons => exact ih _ (by simp)

theorem junction_means {op : Sql.BinaryOp} {word : Sql.Keyword}
    (infixed : ∀ left right : Sql.Expr, (Sql.Expr.binary left op right).tokens d =
      left.tokens d ++ .space :: .keyword word :: .space :: right.tokens d)
    {e : Sql.Expr} {es : List Sql.Expr} {ps : List Predicate}
    (h : List.Forall₂ (fun e p => e.Means c d (p.truth ·)) (e :: es) ps) :
    ∃ (q : List Sql.Piece) (qs : List (List Sql.Piece)) (φs : List (Sql.Formula Leaf)),
      Sql.Adds ((es.foldl (fun left right => .binary left op right.grouped) e.grouped).tokens d)
        (q ++ qs.flatMap (.token (.keyword word) :: ·)) ∧
      Sql.Uncut q ∧ (∀ r ∈ qs, Sql.Uncut r) ∧
      (q :: qs).mapM Sql.factor? = some (φs.map (·.bind (Leaf.formula c d))) ∧
      ∀ v, φs.map (·.truth v.leaf) = predicateTruths v ps := by
  cases h with
  | cons means rest =>
    obtain ⟨qs, φs, adds, whole, factors, truths⟩ := joined_means word rest
    obtain ⟨φ, ⟨q, addsHere, uncut, factor⟩, truth⟩ := means.grouped
    refine ⟨q, qs, φ :: φs, ?_, uncut, whole, ?_, ?_⟩
    · rw [junction_tokens infixed]
      exact addsHere.append adds
    · rw [List.mapM_cons, factor, factors]
      rfl
    · intro v
      rw [List.map_cons, predicateTruths, truth, truths]

theorem truth_means (b : Bool) :
    (Sql.Expr.literal (.bool b)).Means c d fun _ => if b then .yes else .no := by
  refine FactorMeans.means ⟨.constant (if b then .yes else .no), ?_, fun _ => rfl⟩ rfl
  have uncut : Sql.Uncut [.token (.bool b)] :=
    .of_plain (by simp [Sql.Piece.isPlain, Sql.Piece.isWord])
  exact ⟨[.token (.bool b)], .token rfl rfl, uncut, rfl⟩

theorem conjunction_means {es : List Sql.Expr} {ps : List Predicate}
    (h : List.Forall₂ (fun e p => e.Means c d (p.truth ·)) es ps) :
    ((Sql.conjunction es).getD (.literal (.bool true))).Means c d
      fun v => .all (predicateTruths v ps) := by
  match es, h with
  | [], .nil => exact truth_means true
  | [e], .cons means .nil => simpa [Sql.conjunction, Sql.joinWith, predicateTruths] using means
  | e :: f :: rest, h =>
    obtain ⟨q, qs, φs, adds, uncut, whole, factors, truths⟩ :=
      junction_means (Sql.Expr.and_tokens d) h
    refine TextMeans.means ⟨_, .any [.all φs], adds, ?_, ?_⟩
      (junction_isJunction (.inl rfl) _ (by simp))
    · rw [Sql.formula_conjuncts uncut whole factors]
      simp [Sql.Formula.bind, Sql.formulaBinds_eq_map]
    · intro v
      simp [Sql.Formula.truth, Sql.formulaTruths_eq_map, truths]

theorem disjunction_means {es : List Sql.Expr} {ps : List Predicate}
    (h : List.Forall₂ (fun e p => e.Means c d (p.truth ·)) es ps) :
    ((Sql.disjunction es).getD (.literal (.bool false))).Means c d
      fun v => .any (predicateTruths v ps) := by
  match es, h with
  | [], .nil => exact truth_means false
  | [e], .cons means .nil => simpa [Sql.disjunction, Sql.joinWith, predicateTruths] using means
  | e :: f :: rest, h =>
    obtain ⟨q, qs, φs, adds, uncut, whole, factors, truths⟩ :=
      junction_means (Sql.Expr.or_tokens d) h
    refine TextMeans.means ⟨_, .any (φs.map fun φ => .all [φ]), adds, ?_, ?_⟩
      (junction_isJunction (.inr rfl) _ (by simp))
    · rw [Sql.formula_alternatives uncut whole factors]
      simp [Sql.Formula.bind, Sql.formulaBinds_eq_map, Function.comp_def]
    · intro v
      have flat : (φs.map fun φ => Sql.Formula.all [φ]).map (·.truth v.leaf) =
          predicateTruths v ps := by
        rw [← truths, List.map_map]
        refine List.map_congr_left fun φ _ => ?_
        simp [Sql.Formula.truth, Sql.formulaTruths]
      rw [Sql.Formula.truth, Sql.formulaTruths_eq_map, flat]

theorem combined_means (op : Combinator) {es : List Sql.Expr} {ps : List Predicate}
    (h : List.Forall₂ (fun e p => e.Means c d (p.truth ·)) es ps) :
    (Sql.combined op es).Means c d ((Predicate.logical op ps).truth ·) := by
  cases op with
  | and => exact conjunction_means h
  | or => exact disjunction_means h
  | not => exact FactorMeans.means (conjunction_means h).whole.parens.not rfl

theorem leaf_means {l : Leaf} {e : Sql.Expr} (h : l.expr c d = .ok e) :
    e.Means c d (·.leaf l) := by
  have isLeaf := Leaf.expr_isLeaf h
  refine FactorMeans.means ⟨.atom l, ?_, fun _ => rfl⟩ ?_
  · have read := Sql.leaf_reads d isLeaf
    simpa [Sql.Formula.bind, Leaf.formula, h] using read
  · exact Sql.Expr.isJunction_of_isLeaf isLeaf

mutual

theorem predicate_means : (p : Predicate) → {e : Sql.Expr} → p.expr c d = .ok e →
    e.Means c d (p.truth ·)
  | .comparison x, _, h => leaf_means (l := .comparison x) h
  | .qualified _ x, _, h => leaf_means (l := .comparison x) h
  | .fragment sql scope, _, h => leaf_means (l := .fragment sql scope) h
  | .globalPattern _, _, h => by cases h
  | .logical op children, _, h => by
    simp only [Predicate.expr, bind_eq_ok, pure_eq_ok] at h
    obtain ⟨es, rendered, rfl⟩ := h
    exact combined_means op (predicates_mean children rendered)

theorem predicates_mean : (ps : List Predicate) → {es : List Sql.Expr} →
    Predicate.exprs c d ps = .ok es → List.Forall₂ (fun e p => e.Means c d (p.truth ·)) es ps
  | [], _, h => by
    cases h
    exact .nil
  | p :: rest, _, h => by
    simp only [Predicate.exprs, bind_eq_ok, pure_eq_ok] at h
    obtain ⟨e, here, es, others, rfl⟩ := h
    exact .cons (predicate_means p here) (predicates_mean rest others)

end

theorem TextMeans.read {ts : List Sql.Token} {t : Valuation → Truth} (h : TextMeans c d ts t) :
    ∃ φ : Sql.Formula Leaf, Sql.readFormula? ts = some (φ.bind (Leaf.formula c d)) ∧
      ∀ v, φ.truth v.leaf = t v := by
  obtain ⟨ps, φ, adds, formula, truth⟩ := h
  refine ⟨φ, ?_, truth⟩
  rw [Sql.readFormula?, adds.read]
  simpa [Sql.Level.add] using formula

end

/-- The text of a predicate, read back by the precedence of SQL, is a formula over the texts of the
predicate's leaves, and that formula is true, false or unknown exactly as the tree is. -/
theorem predicate_text_keeps_truth (c : Catalog) (d : Dialect) (p : Predicate) (e : Sql.Expr)
    (h : p.expr c d = .ok e) :
    ∃ φ : Sql.Formula Leaf, Sql.readFormula? (e.tokens d) = some (φ.bind (Leaf.formula c d)) ∧
      ∀ v : Valuation, φ.truth v.leaf = p.truth v :=
  (predicate_means p h).whole.read

def filmPredicate : Predicate :=
  .logical .not [
    .logical .or [
      .comparison ⟨.field ⟨"length", ⟨"film", "length"⟩⟩, .between, .range (.int 90) (.int 120)⟩,
      .logical .and [
        .comparison ⟨.field ⟨"title", ⟨"film", "title"⟩⟩, .notRegexp, .value (.str "^A")⟩,
        .fragment "last_name = 'Z'" (.exists "film" filmActors)]],
    .logical .or []]

theorem film_text_keeps_truth :
    ∃ (e : Sql.Expr) (φ : Sql.Formula Leaf), filmPredicate.expr filmCatalog .duckdb = .ok e ∧
      Sql.readFormula? (e.tokens .duckdb) = some (φ.bind (Leaf.formula filmCatalog .duckdb)) ∧
      ∀ v : Valuation, φ.truth v.leaf = filmPredicate.truth v := by
  obtain ⟨φ, read, truth⟩ := predicate_text_keeps_truth filmCatalog .duckdb filmPredicate _ rfl
  exact ⟨_, φ, rfl, read, truth⟩

end ReadPlan
