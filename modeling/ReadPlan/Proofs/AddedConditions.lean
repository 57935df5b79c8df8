import ReadPlan.Proofs.BooleanText

/-!
Conditions added to a query one after the other. Their text stands without parentheses, so a word OR
in one of them takes the words AND beside it apart: what is read back has the last alternative of
each condition joined with the first alternative of the next.
-/

namespace ReadPlan.Sql

/-- A text as it is read: its alternatives, and the factors of each. -/
abbrev Reading : Type :=
  List (List (Formula (List Token)))

def Reading.formula (r : Reading) : Formula (List Token) :=
  .any (List.map .all r)

/-- Two lists of parts one after the other, where the parts at the seam become one. -/
def joinEnds {α : Type} : List (List α) → List (List α) → List (List α)
  | [], ss => ss
  | [last], ss => (last ++ ss.headD []) :: ss.tail
  | r :: next :: rs, ss => r :: joinEnds (next :: rs) ss

/-- Whether a BETWEEN still waits for its AND after the piece. -/
def awaitsAnd (before : Bool) (p : Piece) : Bool :=
  p.isWord .between || before && !p.isWord .and && !p.isWord .or

def stretches (afterBetween : Bool) : List Piece → List (List (List Piece))
  | [] => [[[]]]
  | p :: rest =>
    let others := stretches (awaitsAnd afterBetween p) rest
    if p.isWord .or then [[]] :: others
    else if p.isWord .and && !afterBetween then others.modifyHead ([] :: ·)
    else others.modifyHead (·.modifyHead (p :: ·))

theorem word_ne {p : Piece} {w v : Keyword} (h : p.isWord w = true) (other : w ≠ v) :
    p.isWord v = false := by
  unfold Piece.isWord at h ⊢
  split at h
  · rename_i k
    rw [beq_iff_eq] at h
    simpa [h] using other
  · cases h

theorem conjuncts_ne_nil (b : Bool) (ps : List Piece) : ∃ s ss, conjuncts b ps = s :: ss := by
  induction ps generalizing b with
  | nil => exact ⟨[], [], rfl⟩
  | cons p rest ih =>
    rw [conjuncts]
    split
    · exact ⟨_, _, rfl⟩
    · obtain ⟨s, ss, head⟩ := ih (p.isWord .between || b && !p.isWord .and)
      exact ⟨p :: s, ss, by rw [head]; rfl⟩

theorem stretches_eq (b : Bool) (ps : List Piece) :
    ∃ a as, alternatives ps = a :: as ∧
      stretches b ps = conjuncts b a :: as.map (conjuncts false) := by
  induction ps generalizing b with
  | nil => exact ⟨[], [], rfl, rfl⟩
  | cons p rest ih =>
    obtain ⟨a, as, split, others⟩ := ih (awaitsAnd b p)
    rw [alternatives] at split
    rw [alternatives, List.splitOnP_cons_eq_if_modifyHead, split, stretches, others]
    cases or : p.isWord .or with
    | true =>
      have settled : awaitsAnd b p = false := by
        simp [awaitsAnd, or, word_ne or (v := .between) (by decide)]
      exact ⟨[], a :: as, rfl, by simp [settled, conjuncts]⟩
    | false =>
      refine ⟨p :: a, as, rfl, ?_⟩
      cases cut : p.isWord .and && !b with
      | true =>
        simp only [Bool.and_eq_true, Bool.not_eq_true'] at cut
        have settled : awaitsAnd b p = false := by
          simp [awaitsAnd, cut.2, word_ne cut.1 (v := .between) (by decide)]
        rw [settled]
        simp [conjuncts, cut]
      | false =>
        have same : (p.isWord .between || b && !p.isWord .and) = awaitsAnd b p := by
          simp [awaitsAnd, or]
        simp [conjuncts, cut, same]

theorem stretches_cons (b : Bool) (ps : List Piece) :
    ∃ s ss rs, stretches b ps = (s :: ss) :: rs := by
  obtain ⟨a, as, -, whole⟩ := stretches_eq b ps
  obtain ⟨s, ss, head⟩ := conjuncts_ne_nil b a
  exact ⟨s, ss, _, by rw [whole, head]⟩

theorem stretches_and {b : Bool} {ps : List Piece} (settled : ps.foldl awaitsAnd b = false)
    (qs : List Piece) : stretches b (ps ++ .token (.keyword .and) :: qs) =
      joinEnds (stretches b ps) (stretches false qs) := by
  obtain ⟨t, ts, more, right⟩ := stretches_cons false qs
  rw [right]
  induction ps generalizing b with
  | nil =>
    cases settled
    have cut : stretches false (.token (.keyword .and) :: qs) =
        (stretches false qs).modifyHead ([] :: ·) := rfl
    rw [List.nil_append, cut, right]
    rfl
  | cons p rest ih =>
    obtain ⟨s, ss, rs, left⟩ := stretches_cons (awaitsAnd b p) rest
    have seam := ih settled
    rw [List.cons_append, stretches, stretches, seam, left]
    cases rs <;> split_ifs <;> rfl

structure Stretch (ps : List Piece) : Prop where
  joined : ∀ p ∈ ps, p.isWord .and = false ∧ p.isWord .or = false
  reads : (factor? ps).isSome

theorem factor_cons {p : Piece} {ps : List Piece} (first : p.isWord .not = false)
    (more : ps ≠ []) : (factor? (p :: ps)).isSome := by
  cases ps with
  | nil => contradiction
  | cons => simp [factor?, first, primary?]

theorem factor_append {ps qs : List Piece} (h : (factor? ps).isSome) :
    (factor? (ps ++ qs)).isSome := by
  induction ps with
  | nil => cases h
  | cons p rest ih =>
    cases first : p.isWord .not with
    | true =>
      simp only [List.cons_append, factor?, first, if_true, Option.isSome_map] at h ⊢
      exact ih h
    | false =>
      cases qs with
      | nil => rwa [List.append_nil]
      | cons => exact factor_cons first (by simp)

namespace Stretch

variable {ps qs : List Piece}

theorem append (h : Stretch ps) (joined : ∀ p ∈ qs, p.isWord .and = false ∧ p.isWord .or = false) :
    Stretch (ps ++ qs) :=
  ⟨List.forall_mem_append.mpr ⟨h.joined, joined⟩, factor_append h.reads⟩

theorem negated (h : Stretch ps) : Stretch (.token (.keyword .not) :: ps) := by
  refine ⟨List.forall_mem_cons.mpr ⟨⟨rfl, rfl⟩, h.joined⟩, ?_⟩
  have read : factor? (.token (.keyword .not) :: ps) = (factor? ps).map .not := rfl
  rw [read, Option.isSome_map]
  exact h.reads

theorem stretches (h : Stretch ps) (b : Bool) (rest : List Piece) :
    Sql.stretches b (ps ++ rest) =
      (Sql.stretches (ps.foldl awaitsAnd b) rest).modifyHead (·.modifyHead (ps ++ ·)) := by
  have joined := h.joined
  clear h
  induction ps generalizing b with
  | nil =>
    obtain ⟨s, ss, rs, whole⟩ := stretches_cons b rest
    rw [List.nil_append, List.foldl_nil, whole]
    rfl
  | cons p others ih =>
    obtain ⟨⟨and, or⟩, joined⟩ := List.forall_mem_cons.mp joined
    obtain ⟨s, ss, rs, whole⟩ := stretches_cons (others.foldl awaitsAnd (awaitsAnd b p)) rest
    rw [List.cons_append, Sql.stretches, ih _ joined, List.foldl_cons, whole, and, or]
    rfl

end Stretch

inductive Sentence : List Piece → Prop
  | stretch {ps} : Stretch ps → Sentence ps
  | cut {ps p qs} : Stretch ps → p.isWord .and = true ∨ p.isWord .or = true → Sentence qs →
    Sentence (ps ++ p :: qs)

namespace Sentence

variable {ps qs : List Piece}

theorem extend (h : Sentence ps) (joined : ∀ p ∈ qs, p.isWord .and = false ∧ p.isWord .or = false) :
    Sentence (ps ++ qs) := by
  induction h with
  | stretch first => exact .stretch (first.append joined)
  | cut first word _ ih =>
    rw [List.append_assoc, List.cons_append]
    exact .cut first word ih

theorem cutBy {p : Piece} (hp : Sentence ps) (word : p.isWord .and = true ∨ p.isWord .or = true)
    (hq : Sentence qs) : Sentence (ps ++ p :: qs) := by
  induction hp with
  | stretch first => exact .cut first word hq
  | cut first inner _ ih =>
    rw [List.append_assoc, List.cons_append]
    exact .cut first inner ih

theorem append (hp : Sentence ps) (hq : Sentence qs) : Sentence (ps ++ qs) := by
  induction hp with
  | stretch first =>
    cases hq with
    | stretch next => exact .stretch (first.append next.joined)
    | cut next word rest =>
      rw [← List.append_assoc]
      exact .cut (first.append next.joined) word rest
  | cut first inner _ ih =>
    rw [List.append_assoc, List.cons_append]
    exact .cut first inner ih

theorem negated (h : Sentence ps) : Sentence (.token (.keyword .not) :: ps) := by
  cases h with
  | stretch first => exact .stretch first.negated
  | cut first word rest =>
    rw [← List.cons_append]
    exact .cut first.negated word rest

theorem stretches_read (h : Sentence ps) (b : Bool) :
    ∀ r ∈ stretches b ps, ∀ s ∈ r, (factor? s).isSome := by
  induction h generalizing b with
  | @stretch ps first =>
    have whole := first.stretches b []
    rw [List.append_nil] at whole
    rw [whole]
    simpa [stretches] using first.reads
  | @cut ps p qs first word _ ih =>
    obtain ⟨s, ss, rs, rest⟩ := stretches_cons (awaitsAnd (ps.foldl awaitsAnd b) p) qs
    have readable := ih (awaitsAnd (ps.foldl awaitsAnd b) p)
    rw [rest] at readable
    simp only [List.forall_mem_cons] at readable
    obtain ⟨⟨next, others⟩, alternatives⟩ := readable
    rw [first.stretches, stretches, rest]
    split_ifs with or and
    · simpa [first.reads, next] using ⟨others, alternatives⟩
    · simpa [first.reads, next] using ⟨others, alternatives⟩
    · simpa [factor_append first.reads] using ⟨others, alternatives⟩

end Sentence

def ReadsAs (ps : List Piece) (r : Reading) : Prop :=
  List.Forall₂ (List.Forall₂ fun s φ => factor? s = some φ) (stretches false ps) r

theorem forall₂_of_forall {α β : Type} {R : α → β → Prop} {xs : List α}
    (h : ∀ x ∈ xs, ∃ y, R x y) : ∃ ys, List.Forall₂ R xs ys := by
  induction xs with
  | nil => exact ⟨[], .nil⟩
  | cons x rest ih =>
    obtain ⟨⟨y, here⟩, others⟩ := List.forall_mem_cons.mp h
    obtain ⟨ys, others⟩ := ih others
    exact ⟨y :: ys, .cons here others⟩

theorem Sentence.read {ps : List Piece} (h : Sentence ps) : ∃ r, ReadsAs ps r := by
  refine forall₂_of_forall fun alternative mem => forall₂_of_forall fun s hs => ?_
  exact Option.isSome_iff_exists.mp (h.stretches_read false alternative mem s hs)

theorem ReadsAs.formula {ps : List Piece} {r : Reading} (h : ReadsAs ps r) :
    formula? ps = some r.formula := by
  obtain ⟨a, as, alternatives, whole⟩ := stretches_eq false ps
  rw [ReadsAs, whole, ← List.map_cons, ← alternatives,
    List.forall₂_map_left_iff] at h
  have read : (Sql.alternatives ps).mapM conjunction? = some (List.map .all r) := by
    refine mapM_eq_some_iff.mpr
      (List.forall₂_map_right_iff.mpr (h.imp fun stretch factors read => ?_))
    rw [conjunction?, mapM_eq_some_iff.mpr read]
    rfl
  rw [formula?, read]
  rfl

theorem awaitsAnd_plain {ps : List Piece} (plain : ∀ p ∈ ps, p.isPlain = true) (b : Bool) :
    ps.foldl awaitsAnd b = b := by
  induction ps with
  | nil => rfl
  | cons p rest ih =>
    obtain ⟨here, others⟩ := List.forall_mem_cons.mp plain
    simp only [Piece.isPlain, Bool.and_eq_true, Bool.not_eq_true'] at here
    have same : awaitsAnd b p = b := by simp [awaitsAnd, here]
    rw [List.foldl_cons, same, ih others]

theorem joined_of_plain {ps : List Piece} (plain : ∀ p ∈ ps, p.isPlain = true) :
    ∀ p ∈ ps, p.isWord .and = false ∧ p.isWord .or = false := by
  intro p hp
  have here := plain p hp
  simp only [Piece.isPlain, Bool.and_eq_true, Bool.not_eq_true'] at here
  exact ⟨here.1.2, here.1.1⟩

/-- The text of a whole expression: every BETWEEN in it has its AND. -/
def Complete (ts : List Token) : Prop :=
  ∃ ps, Adds ts ps ∧ Sentence ps ∧ ps.foldl awaitsAnd false = false

namespace Complete

variable {ts us : List Token}

theorem of_plain {ps : List Piece} (adds : Adds ts ps) (plain : ∀ p ∈ ps, p.isPlain = true)
    (reads : (factor? ps).isSome) : Complete ts :=
  ⟨ps, adds, .stretch ⟨joined_of_plain plain, reads⟩, awaitsAnd_plain plain false⟩

theorem extend (h : Complete ts) (hu : Plain us) : Complete (ts ++ us) := by
  obtain ⟨ps, adds, sentence, settled⟩ := h
  obtain ⟨qs, more, plain⟩ := hu
  refine ⟨ps ++ qs, adds.append more, sentence.extend (joined_of_plain plain), ?_⟩
  rw [List.foldl_append, settled, awaitsAnd_plain plain]

theorem append (ht : Complete ts) (hu : Complete us) : Complete (ts ++ us) := by
  obtain ⟨ps, adds, sentence, settled⟩ := ht
  obtain ⟨qs, more, next, settledToo⟩ := hu
  refine ⟨ps ++ qs, adds.append more, sentence.append next, ?_⟩
  rw [List.foldl_append, settled, settledToo]

theorem word_adds (w : Keyword) : Adds [.space, .keyword w, .space] [.token (.keyword w)] :=
  (Adds.blank rfl).append ((Adds.token rfl rfl).append (.blank rfl))

theorem cut {w : Keyword} (word : w = .and ∨ w = .or) (ht : Complete ts) (hu : Complete us) :
    Complete (ts ++ .space :: .keyword w :: .space :: us) := by
  obtain ⟨ps, adds, sentence, settled⟩ := ht
  obtain ⟨qs, more, next, settledToo⟩ := hu
  refine ⟨ps ++ .token (.keyword w) :: qs, adds.append ((word_adds w).append more), ?_, ?_⟩
  · exact sentence.cutBy (by rcases word with rfl | rfl <;> simp [Piece.isWord]) next
  · rcases word with rfl | rfl <;> rw [List.foldl_append, settled] <;> exact settledToo

theorem negated (h : Complete ts) : Complete (.keyword .not :: .space :: ts) := by
  obtain ⟨ps, adds, sentence, settled⟩ := h
  have word : Adds [.keyword .not, .space] [.token (.keyword .not)] :=
    (Adds.token rfl rfl).append (.blank rfl)
  exact ⟨_, word.append adds, sentence.negated, settled⟩

theorem between {low high : List Token} (ht : Complete ts) (hlow : Complete low)
    (hhigh : Complete high) :
    Complete (ts ++ ([.space, .keyword .between, .space] ++
      (low ++ ([.space, .keyword .and, .space] ++ high)))) := by
  obtain ⟨ps, adds, sentence, settled⟩ := ht
  obtain ⟨lows, addsLow, lowSentence, -⟩ := hlow
  obtain ⟨highs, addsHigh, highSentence, highSettled⟩ := hhigh
  refine ⟨ps ++ ([.token (.keyword .between)] ++ (lows ++ ([.token (.keyword .and)] ++ highs))),
    adds.append ((word_adds .between).append (addsLow.append ((word_adds .and).append addsHigh))),
    ?_, ?_⟩
  · have opened : Sentence (ps ++ [.token (.keyword .between)]) :=
      sentence.extend (by simp [Piece.isWord])
    rw [← List.append_assoc]
    exact opened.append (lowSentence.cutBy (.inl rfl) highSentence)
  · have closed (b : Bool) : awaitsAnd b (.token (.keyword .and)) = false := by
      cases b <;> rfl
    rw [List.foldl_append, settled, List.foldl_append, List.foldl_append, List.foldl_append,
      List.foldl_cons, List.foldl_nil, closed, highSettled]

theorem token {t : Token} (solid : t.isBlank = false) (flat : t.isBracket = false)
    (plain : (Piece.token t).isPlain = true) (first : (Piece.token t).isWord .not = false) :
    Complete [t] :=
  of_plain (.token solid flat) (by simpa using plain) (by simp [factor?, first, primary?])

theorem called {t : Token} (solid : t.isBlank = false) (flat : t.isBracket = false)
    (plain : (Piece.token t).isPlain = true) (first : (Piece.token t).isWord .not = false)
    (h : Balanced ts) : Complete (t :: .symbol .openParen :: ts ++ [.symbol .closeParen]) := by
  obtain ⟨ps, adds⟩ := h
  exact of_plain ((Adds.token solid flat).append adds.parens)
    (by simpa [Piece.isPlain, Piece.isWord] using plain) (factor_cons first (by simp))

theorem infixed {words : List Token} (ht : Complete ts) (hw : Plain words) (hu : Complete us) :
    Complete (ts ++ .space :: (words ++ .space :: us)) := by
  have spaced := (ht.extend (.space hw)).extend (.space .nil)
  simpa only [List.append_assoc, List.cons_append, List.nil_append] using spaced.append hu

theorem binary (op : BinaryOp) (ht : Complete ts) (hu : Complete us) :
    Complete (ts ++ .space :: op.tokens ++ .space :: us) := by
  rw [List.append_assoc, List.cons_append]
  cases op with
  | and => exact cut (.inl rfl) ht hu
  | or => exact cut (.inr rfl) ht hu
  | notLike | notILike =>
    exact ht.infixed (.token rfl rfl rfl (.space (.token rfl rfl rfl .nil))) hu
  | _ => exact ht.infixed (.token rfl rfl rfl .nil) hu

end Complete

theorem notTokens_plain (negated : Bool) : Plain (notTokens negated) := by
  cases negated
  · exact .nil
  · exact .space (.token rfl rfl rfl .nil)

theorem truthKeyword_first {e : Expr} {word : Keyword} (h : e.truthKeyword? = some word) :
    (Piece.token (.keyword word)).isWord .not = false := by
  unfold Expr.truthKeyword? at h
  split at h <;> cases h <;> rfl

section

variable (d : Dialect)

theorem lowered_complete (e : Expr) : Complete (callTokens "LOWER" (e.tokens d)) :=
  .called rfl rfl rfl rfl (e.balanced d)

theorem binary_complete {left right : Expr} (op : BinaryOp) (hl : Complete (left.tokens d))
    (hr : Complete (right.tokens d)) : Complete ((Expr.binary left op right).tokens d) := by
  cases op with
  | regex negated caseInsensitive =>
    simp only [Expr.tokens]
    split
    · have comma : Balanced separator := .cons rfl (.single rfl)
      have flag : Balanced (if caseInsensitive then separator ++ [.string "i"] else []) := by
        split
        · exact .append comma (.single rfl)
        · exact .nil
      have call : Complete (callTokens "regexp_matches" (left.tokens d ++ separator ++
          right.tokens d ++ (if caseInsensitive then separator ++ [.string "i"] else []))) :=
        .called rfl rfl rfl rfl
          (.append (.append (.append (left.balanced d) comma) (right.balanced d)) flag)
      cases negated
      · exact call
      · exact call.negated
    · have matched (n i : Bool) : Plain [.regexMatch n i] := .token rfl rfl rfl .nil
      split
      · exact (lowered_complete d left).infixed (matched _ _) (lowered_complete d right)
      · exact hl.infixed (matched _ _) hr
  | _ =>
    simp only [Expr.tokens]
    split
    · exact .binary _ (lowered_complete d left) (lowered_complete d right)
    · exact hl.binary _ hr

/-- However an expression is nested, the pieces of its text make a sentence. -/
theorem Expr.complete : (e : Expr) → Complete (e.tokens d)
  | .column none _ | .literal (.int _) | .literal (.float _) | .literal (.string _)
  | .literal (.bool _) | .literal .null | .star none | .raw _ => .token rfl rfl rfl rfl
  | .column (some _) _ | .star (some _) =>
    (Complete.token rfl rfl rfl rfl).extend (.token rfl rfl rfl (.token rfl rfl rfl .nil))
  | .array items => by
    obtain ⟨ps, adds⟩ := list_balanced d items
    exact .of_plain ((Adds.token rfl rfl).append adds.brackets)
      (by simp [Piece.isPlain, Piece.isWord]) (factor_cons rfl (by simp))
  | .binary left op right => binary_complete d op left.complete right.complete
  | .not e => e.complete.negated
  | .call function args distinct => by
    rw [Expr.tokens]
    refine .called rfl rfl rfl rfl (.append ?_ (list_balanced d args))
    cases distinct
    · exact .nil
    · exact .cons rfl (.single rfl)
  | .inList e values negated => by
    rw [Expr.tokens]
    split
    · cases negated <;> exact .token rfl rfl rfl rfl
    · have members : Plain (.space :: .keyword .in :: .space :: .symbol .openParen ::
          (listTokens d values ++ [.symbol .closeParen])) :=
        .space (.token rfl rfl rfl (.space (.parens (list_balanced d values) .nil)))
      simpa only [List.append_assoc, List.cons_append] using
        (e.complete.extend (notTokens_plain negated)).extend members
  | .between e low high negated => by
    simpa only [Expr.tokens, List.append_assoc, List.cons_append, List.nil_append] using
      (e.complete.extend (notTokens_plain negated)).between low.complete high.complete
  | .isNull e negated => by
    cases negated <;> exact e.complete.extend (.space (.token rfl rfl rfl .nil))
  | .is e value negated => by
    have test : Plain (.keyword .is :: notTokens negated) :=
      .token rfl rfl rfl (notTokens_plain negated)
    simp only [Expr.tokens, List.append_assoc, List.cons_append]
    refine e.complete.infixed test ?_
    split
    · rename_i word known
      exact .token rfl rfl (truthKeyword_plain known) (truthKeyword_first known)
    · exact value.complete
  | .quantified e op quantifier items => by
    have right : Complete (quantifier.token :: .symbol .openParen :: items.tokens d ++
        [.symbol .closeParen]) := by
      cases quantifier <;> exact .called rfl rfl rfl rfl (items.balanced d)
    simpa only [Expr.tokens, List.append_assoc, List.cons_append] using e.complete.binary op right
  | .exists query => by
    obtain ⟨ps, adds⟩ := query.balanced d .inline
    have word : Adds [.keyword .exists, .space] [.token (.keyword .exists)] :=
      (Adds.token rfl rfl).append (.blank rfl)
    exact .of_plain (word.append adds.parens) (by simp [Piece.isPlain, Piece.isWord])
      (factor_cons rfl (by simp))
  | .paren e => by
    obtain ⟨ps, adds, sentence, -⟩ := e.complete
    obtain ⟨r, read⟩ := sentence.read
    refine .of_plain adds.parens (by simp [Piece.isPlain, Piece.isWord]) ?_
    simp [factor?, primary?, Piece.isWord, read.formula]

end

/-- The text reads as the reading, and no BETWEEN in it waits for an AND after it. -/
def TextReads (ts : List Token) (r : Reading) : Prop :=
  ∃ ps, Adds ts ps ∧ ReadsAs ps r ∧ ps.foldl awaitsAnd false = false

theorem Expr.textReads (d : Dialect) (e : Expr) : ∃ r, TextReads (e.tokens d) r := by
  obtain ⟨ps, adds, sentence, settled⟩ := e.complete d
  obtain ⟨r, read⟩ := sentence.read
  exact ⟨r, ps, adds, read, settled⟩

theorem forall₂_joinEnds {α β : Type} {R : α → β → Prop} {xs us : List (List α)}
    {ys vs : List (List β)} (h : List.Forall₂ (List.Forall₂ R) xs ys)
    (next : List.Forall₂ (List.Forall₂ R) us vs) :
    List.Forall₂ (List.Forall₂ R) (joinEnds xs us) (joinEnds ys vs) := by
  induction h with
  | nil => exact next
  | cons here others ih =>
    cases others with
    | nil =>
      cases next with
      | nil => simpa [joinEnds] using here
      | cons seam rest => exact .cons (List.rel_append here seam) rest
    | cons => exact .cons here ih

namespace TextReads

variable {ts us : List Token} {r s : Reading}

theorem formula (h : TextReads ts r) : readFormula? ts = some r.formula := by
  obtain ⟨ps, adds, read, -⟩ := h
  rw [readFormula?, adds.read, ← read.formula]
  rfl

theorem and (ht : TextReads ts r) (hu : TextReads us s) :
    TextReads (ts ++ .space :: .keyword .and :: .space :: us) (joinEnds r s) := by
  obtain ⟨ps, adds, read, settled⟩ := ht
  obtain ⟨qs, more, next, settledToo⟩ := hu
  refine ⟨ps ++ .token (.keyword .and) :: qs,
    adds.append ((Complete.word_adds .and).append more), ?_, ?_⟩
  · rw [ReadsAs, stretches_and settled]
    exact forall₂_joinEnds read next
  · rw [List.foldl_append, settled]
    exact settledToo

end TextReads

/-- What conditions say when their texts stand one after the other with AND between them. -/
def Reading.joined? : List Reading → Option Reading
  | [] => none
  | r :: rest => some (rest.foldl joinEnds r)

theorem filter_textReads (d : Dialect) (cs : List Expr) {e : Expr} {r : Reading}
    (h : TextReads (e.tokens d) r) : ∃ rs whole,
      List.Forall₂ (fun c r => TextReads (c.tokens d) r) cs rs ∧
      TextReads ((cs.foldl (fun left c => .binary left .and c) e).tokens d) whole ∧
      whole = rs.foldl joinEnds r := by
  induction cs generalizing e r with
  | nil => exact ⟨[], r, .nil, h, rfl⟩
  | cons c rest ih =>
    obtain ⟨s, here⟩ := c.textReads d
    have both : TextReads ((Expr.binary e .and c).tokens d) (joinEnds r s) := by
      rw [Expr.and_tokens]
      exact h.and here
    obtain ⟨rs, whole, others, read, rfl⟩ := ih both
    exact ⟨s :: rs, _, .cons here others, read, rfl⟩

theorem foldl_addFilter (q : Query) (cs : List Expr) :
    cs.foldl Query.addFilter q = { q with filter := match q.filter.toList ++ cs with
      | [] => none
      | e :: rest => some (rest.foldl (fun left c => .binary left .and c) e) } := by
  induction cs generalizing q with
  | nil => cases q with | mk _ _ _ filter => cases filter <;> rfl
  | cons c rest ih =>
    rw [List.foldl_cons, ih]
    cases q with | mk _ _ _ filter => cases filter <;> rfl

theorem tokens_around_filter (d : Dialect) (layout : Layout) (q : Query) :
    ∃ before after, q.tokens d layout =
        before ++ clauseTokens d layout .where q.filter ++ after ∧
      ∀ filter, { q with filter := filter }.tokens d layout =
        before ++ clauseTokens d layout .where filter ++ after := by
  obtain ⟨select, source, joins, written, groupBy, having, orderBy, page⟩ := q
  have around (filter : Option Expr) :
      Query.tokens d layout ⟨select, source, joins, filter, groupBy, having, orderBy, page⟩ =
        (.keyword .select :: selectTokens d layout select ++ sourceTokens layout source ++
          joinTokens d layout joins) ++ clauseTokens d layout .where filter ++
        ((if groupBy.isEmpty then []
          else layout.clauseBreak :: .keyword .groupBy :: .space :: listTokens d groupBy) ++
        clauseTokens d layout .having having ++
        (if orderBy.isEmpty then []
          else layout.clauseBreak :: .keyword .orderBy :: .space :: orderTokens d orderBy) ++
        (if page.isWhole then [] else layout.clauseBreak :: pageTokens d page)) := by
    simp only [Query.tokens, List.append_assoc]
  exact ⟨_, _, around written, around⟩

theorem Reading.truth (r : Reading) (ν : List Token → Truth) :
    r.formula.truth ν = .any (r.map fun φs => .all (φs.map (·.truth ν))) := by
  simp [Reading.formula, Formula.truth, formulaTruths_eq_map, Function.comp_def]

theorem joined_singles {rs : List Reading} (single : ∀ r ∈ rs, r.length = 1)
    (φs : List (Formula (List Token))) (ν : List Token → Truth) :
    (Reading.formula (rs.foldl joinEnds [φs])).truth ν =
      Truth.all (.all (φs.map (·.truth ν)) :: rs.map (·.formula.truth ν)) := by
  induction rs generalizing φs with
  | nil => simp [Reading.truth]
  | cons r rest ih =>
    obtain ⟨here, others⟩ := List.forall_mem_cons.mp single
    obtain ⟨ψs, rfl⟩ := List.length_eq_one_iff.mp here
    have seam : joinEnds [φs] [ψs] = [φs ++ ψs] := rfl
    rw [List.foldl_cons, seam, ih others, List.map_append, Truth.all_append, List.map_cons,
      Reading.truth, List.map_singleton, Truth.any_singleton]
    exact Truth.and_assoc ..

theorem mem_joinEnds {r : Reading} {φs : List (Formula (List Token))} (h : φs ∈ r.dropLast)
    (s : Reading) : φs ∈ (joinEnds r s).dropLast := by
  have nonempty (ψs) (rest : Reading) : joinEnds (ψs :: rest) s ≠ [] := by
    cases rest <;> simp [joinEnds]
  induction r with
  | nil => cases h
  | cons first rest ih =>
    cases rest with
    | nil => cases h
    | cons next rest =>
      rw [joinEnds, List.dropLast_cons_of_ne_nil (nonempty next rest)]
      rcases List.mem_cons.mp h with rfl | h
      · exact List.mem_cons_self
      · exact List.mem_cons_of_mem _ (ih h)

theorem mem_foldl_joinEnds {r : Reading} {φs : List (Formula (List Token))} (h : φs ∈ r.dropLast)
    (rs : List Reading) : φs ∈ rs.foldl joinEnds r := by
  induction rs generalizing r with
  | nil => exact List.dropLast_subset _ h
  | cons s rest ih => exact ih (mem_joinEnds h s)

/-- Adding conditions writes AND between their texts and changes nothing else in the statement. What
is read back is the conjunction of conditions without alternatives; but an alternative that stands
before the first AND between two conditions passes by itself, whatever was added. -/
theorem added_filters_read (d : Dialect) (q : Query) (cs : List Expr) :
    (∀ layout, ∃ before after,
      q.tokens d layout = before ++ clauseTokens d layout .where q.filter ++ after ∧
      (cs.foldl Query.addFilter q).tokens d layout =
        before ++ clauseTokens d layout .where (cs.foldl Query.addFilter q).filter ++ after) ∧
    ∃ rs : List Reading,
      List.Forall₂ (fun c (r : Reading) => readFormula? (c.tokens d) = some r.formula)
        (q.filter.toList ++ cs) rs ∧
      (cs.foldl Query.addFilter q).filter.map (fun e => readFormula? (e.tokens d)) =
        (Reading.joined? rs).map (some ·.formula) ∧
      ∀ whole ∈ Reading.joined? rs, ∀ ν,
        (rs.length = 1 ∨ (∀ r ∈ rs, r.length = 1) →
          whole.formula.truth ν = .all (rs.map (·.formula.truth ν))) ∧
        (∀ r ∈ rs.head?, ∀ φs ∈ r.dropLast, (Formula.all φs).truth ν = .yes →
          whole.formula.truth ν = .yes) := by
  rw [foldl_addFilter]
  refine ⟨fun layout => ?_, ?_⟩
  · obtain ⟨before, after, written, around⟩ := tokens_around_filter d layout q
    exact ⟨before, after, written, around _⟩
  · cases q.filter.toList ++ cs with
    | nil => exact ⟨[], .nil, rfl, by simp [Reading.joined?]⟩
    | cons e rest =>
      obtain ⟨r, first⟩ := e.textReads d
      obtain ⟨rs, whole, others, read, rfl⟩ := filter_textReads d rest first
      refine ⟨r :: rs, .cons first.formula (others.imp fun _ _ => TextReads.formula), ?_, ?_⟩
      · simp [Reading.joined?, read.formula]
      · rintro _ ⟨⟩ ν
        constructor
        · rintro (alone | single)
          · obtain rfl := List.length_eq_zero_iff.mp (Nat.succ.inj alone)
            simp
          · obtain ⟨here, others⟩ := List.forall_mem_cons.mp single
            obtain ⟨φs, rfl⟩ := List.length_eq_one_iff.mp here
            rw [joined_singles others, List.map_cons, Reading.truth [φs], List.map_singleton,
              Truth.any_singleton]
        · rintro _ ⟨⟩ φs mem yes
          rw [Reading.truth]
          refine Truth.any_of_mem (List.mem_map.mpr ⟨φs, mem_foldl_joinEnds mem rs, ?_⟩)
          rwa [Formula.truth, formulaTruths_eq_map] at yes

def columnIs (column : String) (n : Int) : Expr :=
  (Expr.ofColumn "t" column).equals (.literal (.int n))

/-- After `a = 1 OR b = 2` the added `c = 3` says nothing about a row with `a = 1`. -/
theorem added_condition_evaded :
    ∃ whole first added ν,
      readFormula? ((Expr.binary (columnIs "a" 1) .or (columnIs "b" 2)).tokens .postgres) =
        some first ∧
      readFormula? ((columnIs "c" 3).tokens .postgres) = some added ∧
      ([.binary (columnIs "a" 1) .or (columnIs "b" 2), columnIs "c" 3].foldl Query.addFilter
        .empty).filter.map (fun e => readFormula? (e.tokens .postgres)) = some (some whole) ∧
      whole.truth ν = .yes ∧ Truth.all [first.truth ν, added.truth ν] = .no := by
  refine ⟨_, _, _, fun ts => if ts.contains (.ident "a") then .yes else .no,
    rfl, rfl, rfl, ?_, ?_⟩ <;> decide

end ReadPlan.Sql
