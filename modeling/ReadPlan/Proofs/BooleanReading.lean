import ReadPlan.Proofs.RenderedTokens
import ReadPlan.Proofs.Truth

/-!
Reading a boolean text back from its tokens by the precedence of SQL: parentheses first, then
comparisons, NOT, AND, OR. The reader knows the brackets and these words alone; whatever stands
between them is an atom, a raw fragment is one token of it.
-/

namespace ReadPlan.Sql

/-- What a boolean text says about its atoms. -/
inductive Formula (α : Type)
  | constant (t : Truth)
  | atom (a : α)
  | not (φ : Formula α)
  | all (φs : List (Formula α))
  | any (φs : List (Formula α))

section

variable {α β : Type}

mutual

def Formula.truth (ν : α → Truth) : Formula α → Truth
  | .constant t => t
  | .atom a => ν a
  | .not φ => (φ.truth ν).not
  | .all φs => .all (formulaTruths ν φs)
  | .any φs => .any (formulaTruths ν φs)

def formulaTruths (ν : α → Truth) : List (Formula α) → List Truth
  | [] => []
  | φ :: rest => φ.truth ν :: formulaTruths ν rest

end

mutual

def Formula.bind (f : α → Formula β) : Formula α → Formula β
  | .constant t => .constant t
  | .atom a => f a
  | .not φ => .not (φ.bind f)
  | .all φs => .all (formulaBinds f φs)
  | .any φs => .any (formulaBinds f φs)

def formulaBinds (f : α → Formula β) : List (Formula α) → List (Formula β)
  | [] => []
  | φ :: rest => φ.bind f :: formulaBinds f rest

end

theorem formulaTruths_eq_map (ν : α → Truth) (φs : List (Formula α)) :
    formulaTruths ν φs = φs.map (·.truth ν) := by
  induction φs with
  | nil => rfl
  | cons φ rest ih => rw [formulaTruths, ih, List.map_cons]

theorem formulaBinds_eq_map (f : α → Formula β) (φs : List (Formula α)) :
    formulaBinds f φs = φs.map (·.bind f) := by
  induction φs with
  | nil => rfl
  | cons φ rest ih => rw [formulaBinds, ih, List.map_cons]

end

def visible (ts : List Token) : List Token :=
  ts.filter fun t => !t.isBlank

def Token.truth? : Token → Option Truth
  | .bool b => some (if b then .yes else .no)
  | .keyword .true => some .yes
  | .keyword .false => some .no
  | .keyword .null => some .unknown
  | _ => none

/-- What stands at one depth of a text: a token, or a pair of brackets with what it holds. -/
inductive Piece
  | token (t : Token)
  | group (inside : Option (Formula (List Token))) (text : List Token)

namespace Piece

def text : Piece → List Token
  | token t => [t]
  | group _ text => text

def isWord (w : Keyword) : Piece → Bool
  | token (.keyword k) => k == w
  | _ => false

end Piece

/-- The stretches between the words AND; the first AND after a BETWEEN belongs to it. -/
def conjuncts (afterBetween : Bool) : List Piece → List (List Piece)
  | [] => [[]]
  | p :: rest =>
    if p.isWord .and && !afterBetween then
      [] :: conjuncts false rest
    else
      (conjuncts (p.isWord .between || afterBetween && !p.isWord .and) rest).modifyHead (p :: ·)

def alternatives (ps : List Piece) : List (List Piece) :=
  ps.splitOnP (·.isWord .or)

def primary? : List Piece → Option (Formula (List Token))
  | [.group inside _] => inside
  | [.token t] => some (t.truth?.elim (.atom [t]) .constant)
  | ps => some (.atom (ps.flatMap Piece.text))

def factor? : List Piece → Option (Formula (List Token))
  | [] => none
  | p :: rest => if p.isWord .not then (factor? rest).map .not else primary? (p :: rest)

def conjunction? (ps : List Piece) : Option (Formula (List Token)) :=
  .all <$> (conjuncts false ps).mapM factor?

def formula? (ps : List Piece) : Option (Formula (List Token)) :=
  .any <$> (alternatives ps).mapM conjunction?

/-- What was read so far between two brackets, and the bracket that has to come. -/
structure Level where
  closing : Option Symbol
  pieces : List Piece

namespace Level

def add (l : Level) (ps : List Piece) : Level :=
  { l with pieces := l.pieces ++ ps }

def text (l : Level) : List Token :=
  l.pieces.flatMap Piece.text

end Level

def openLevel (closing : Symbol) (levels : List Level) : Option (List Level) :=
  some (⟨some closing, []⟩ :: levels)

def closeLevel (closing : Symbol) (group : Level → Piece) : List Level → Option (List Level)
  | inner :: outer :: rest =>
    if inner.closing = some closing then some (outer.add [group inner] :: rest) else none
  | _ => none

def parenthesized (l : Level) : Piece :=
  .group (formula? l.pieces) (.symbol .openParen :: l.text ++ [.symbol .closeParen])

def bracketed (l : Level) : Piece :=
  .group none (.symbol .openBracket :: l.text ++ [.symbol .closeBracket])

def addToken (t : Token) : List Level → Option (List Level)
  | level :: rest => some (level.add [.token t] :: rest)
  | [] => none

def readToken (levels : List Level) (t : Token) : Option (List Level) :=
  match t with
  | .symbol .openParen => openLevel .closeParen levels
  | .symbol .openBracket => openLevel .closeBracket levels
  | .symbol .closeParen => closeLevel .closeParen parenthesized levels
  | .symbol .closeBracket => closeLevel .closeBracket bracketed levels
  | t => if t.isBlank then some levels else addToken t levels

def readFormula? (ts : List Token) : Option (Formula (List Token)) :=
  match ts.foldlM readToken [⟨none, []⟩] with
  | some [level] => formula? level.pieces
  | _ => none

/-- Reading the tokens adds the pieces to the innermost level and leaves those around it alone. -/
structure Adds (ts : List Token) (ps : List Piece) : Prop where
  read : ∀ level rest, ts.foldlM readToken (level :: rest) = some (level.add ps :: rest)
  text : ps.flatMap Piece.text = visible ts

namespace Adds

theorem nil : Adds [] [] :=
  ⟨fun level rest => by simp [Level.add], rfl⟩

theorem append {ts us : List Token} {ps qs : List Piece} (ht : Adds ts ps) (hu : Adds us qs) :
    Adds (ts ++ us) (ps ++ qs) := by
  constructor
  · intro level rest
    rw [List.foldlM_append, ht.read, Option.bind_eq_bind, Option.bind_some, hu.read]
    simp [Level.add]
  · rw [List.flatMap_append, ht.text, hu.text]
    simp [visible]

theorem blank {t : Token} (h : t.isBlank = true) : Adds [t] [] := by
  constructor
  · intro level rest
    cases t <;> simp_all [readToken, Token.isBlank, Level.add]
  · simp [visible, h]

theorem token {t : Token} (solid : t.isBlank = false) (single : t.isBracket = false) :
    Adds [t] [.token t] := by
  constructor
  · intro level rest
    cases t with
    | symbol s => cases s <;> first | rfl | contradiction
    | space | newline | indent => contradiction
    | _ => rfl
  · simp [visible, solid, Piece.text]

theorem closes {closing : Symbol} (group : Level → Piece) {inner : Level} (level : Level)
    (rest : List Level) (h : inner.closing = some closing) :
    closeLevel closing group (inner :: level :: rest) = some (level.add [group inner] :: rest) := by
  simp only [closeLevel, h, if_true]

theorem enclosed {opening closing : Symbol} (group : Level → Piece) {ts : List Token}
    {ps : List Piece} (ht : Adds ts ps)
    (opens : ∀ levels, readToken levels (.symbol opening) = openLevel closing levels)
    (closed : ∀ levels, readToken levels (.symbol closing) = closeLevel closing group levels)
    (text : (group ⟨some closing, ps⟩).text = .symbol opening :: visible ts ++ [.symbol closing]) :
    Adds (.symbol opening :: ts ++ [.symbol closing]) [group ⟨some closing, ps⟩] := by
  constructor
  · intro level rest
    have inner := ht.read ⟨some closing, []⟩ (level :: rest)
    have outer : closeLevel closing group (⟨some closing, ps⟩ :: level :: rest) =
        some (level.add [group ⟨some closing, ps⟩] :: rest) := closes group level rest rfl
    simp only [List.cons_append, List.foldlM_cons, List.foldlM_append, List.foldlM_nil, opens,
      closed, openLevel, Option.bind_eq_bind, Option.bind_some, inner, Level.add,
      List.nil_append] at outer ⊢
    rw [outer]
    rfl
  · rw [List.flatMap_singleton, text]
    simp [visible, Token.isBlank]

theorem parens {ts : List Token} {ps : List Piece} (ht : Adds ts ps) :
    Adds (.symbol .openParen :: ts ++ [.symbol .closeParen])
      [.group (formula? ps) (.symbol .openParen :: visible ts ++ [.symbol .closeParen])] := by
  rw [← ht.text]
  exact enclosed parenthesized ht (fun _ => rfl) (fun _ => rfl) (by rw [← ht.text]; rfl)

theorem brackets {ts : List Token} {ps : List Piece} (ht : Adds ts ps) :
    Adds (.symbol .openBracket :: ts ++ [.symbol .closeBracket])
      [.group none (.symbol .openBracket :: visible ts ++ [.symbol .closeBracket])] := by
  rw [← ht.text]
  exact enclosed bracketed ht (fun _ => rfl) (fun _ => rfl) (by rw [← ht.text]; rfl)

end Adds

def Balanced (ts : List Token) : Prop :=
  ∃ ps, Adds ts ps

namespace Balanced

theorem nil : Balanced [] :=
  ⟨[], .nil⟩

theorem append {ts us : List Token} (ht : Balanced ts) (hu : Balanced us) :
    Balanced (ts ++ us) := by
  obtain ⟨ps, ht⟩ := ht
  obtain ⟨qs, hu⟩ := hu
  exact ⟨ps ++ qs, ht.append hu⟩

theorem single {t : Token} (h : t.isBracket = false) : Balanced [t] := by
  cases blank : t.isBlank with
  | true => exact ⟨[], .blank blank⟩
  | false => exact ⟨[.token t], .token blank h⟩

theorem cons {t : Token} {ts : List Token} (h : t.isBracket = false) (ht : Balanced ts) :
    Balanced (t :: ts) :=
  (single h).append ht

theorem composable : Composable (fun _ => True) Balanced where
  nil := nil
  fixed {t} h := by
    refine single ?_
    cases t with
    | symbol s => simpa [Token.isFixed] using h
    | _ => rfl
  loose {l} _ := single (by cases l <;> rfl)
  gap {t ts} h ht := by
    refine cons ?_ ht
    cases t with
    | symbol s => cases s <;> first | rfl | contradiction
    | _ => rfl
  append ht _ hu := ht.append hu
  parens := fun ⟨_, ht⟩ => ⟨_, ht.parens⟩
  brackets := fun ⟨_, ht⟩ => ⟨_, ht.brackets⟩
  column := cons rfl (cons rfl (single rfl))
  star := cons rfl (cons rfl (single rfl))

end Balanced

theorem Expr.balanced (d : Dialect) (e : Expr) : Balanced (e.tokens d) :=
  e.composed d Balanced.composable fun _ _ => trivial

theorem list_balanced (d : Dialect) (es : List Expr) : Balanced (listTokens d es) :=
  list_composed d Balanced.composable es fun _ _ => trivial

theorem Query.balanced (d : Dialect) (layout : Layout) (q : Query) :
    Balanced (q.tokens d layout) :=
  q.composed d Balanced.composable layout fun _ _ => trivial

/-- Pieces among which no word cuts a text: no OR, and no AND but that of a BETWEEN. -/
structure Uncut (ps : List Piece) : Prop where
  noOr : ∀ p ∈ ps, p.isWord .or = false
  whole : ∀ rest, conjuncts false (ps ++ rest) = (conjuncts false rest).modifyHead (ps ++ ·)

def Piece.isPlain (p : Piece) : Bool :=
  !p.isWord .or && !p.isWord .and && !p.isWord .between

theorem conjuncts_plain {ps : List Piece} (plain : ∀ p ∈ ps, p.isPlain = true)
    (afterBetween : Bool) (rest : List Piece) :
    conjuncts afterBetween (ps ++ rest) =
      (conjuncts afterBetween rest).modifyHead (ps ++ ·) := by
  induction ps with
  | nil => cases h : conjuncts afterBetween rest <;> simp [h]
  | cons p ps ih =>
    obtain ⟨here, others⟩ := List.forall_mem_cons.mp plain
    simp only [Piece.isPlain, Bool.and_eq_true, Bool.not_eq_true'] at here
    simp only [List.cons_append, conjuncts, here.1.2, here.2, Bool.false_and, Bool.false_or,
      Bool.not_false, Bool.and_true, Bool.false_eq_true, if_false, ih others]
    cases conjuncts afterBetween rest <;> rfl

namespace Uncut

theorem of_plain {ps : List Piece} (plain : ∀ p ∈ ps, p.isPlain = true) : Uncut ps := by
  constructor
  · intro p hp
    have here := plain p hp
    simp only [Piece.isPlain, Bool.and_eq_true, Bool.not_eq_true'] at here
    exact here.1.1
  · exact conjuncts_plain plain false

theorem append {ps qs : List Piece} (hp : Uncut ps) (hq : Uncut qs) : Uncut (ps ++ qs) := by
  constructor
  · intro p h
    rcases List.mem_append.mp h with h | h
    · exact hp.noOr p h
    · exact hq.noOr p h
  · intro rest
    rw [List.append_assoc, hp.whole, hq.whole]
    cases conjuncts false rest <;> simp

theorem between {low : List Piece} (plain : ∀ p ∈ low, p.isPlain = true) :
    Uncut (.token (.keyword .between) :: low ++ [.token (.keyword .and)]) := by
  constructor
  · intro p hp
    simp only [List.cons_append, List.mem_cons, List.mem_append, List.not_mem_nil, or_false] at hp
    rcases hp with rfl | hp | rfl
    · rfl
    · exact (of_plain plain).noOr p hp
    · rfl
  · intro rest
    have opened : conjuncts false
        (.token (.keyword .between) :: (low ++ .token (.keyword .and) :: rest)) =
        (conjuncts true (low ++ .token (.keyword .and) :: rest)).modifyHead
          (.token (.keyword .between) :: ·) := rfl
    have closed : conjuncts true (.token (.keyword .and) :: rest) =
        (conjuncts false rest).modifyHead (.token (.keyword .and) :: ·) := rfl
    simp only [List.cons_append, List.append_assoc, List.nil_append]
    rw [opened, conjuncts_plain plain, closed]
    cases conjuncts false rest <;> simp

theorem single {ps : List Piece} (h : Uncut ps) : conjuncts false ps = [ps] := by
  have whole := h.whole []
  simpa [conjuncts] using whole

end Uncut

theorem conjuncts_joined {ps : List Piece} (hp : Uncut ps) {qs : List (List Piece)}
    (hq : ∀ q ∈ qs, Uncut q) :
    conjuncts false (ps ++ qs.flatMap (.token (.keyword .and) :: ·)) = ps :: qs := by
  induction qs generalizing ps with
  | nil => simpa using hp.single
  | cons q rest ih =>
    obtain ⟨here, others⟩ := List.forall_mem_cons.mp hq
    rw [List.flatMap_cons, List.cons_append, hp.whole]
    have cut : conjuncts false (.token (.keyword .and) ::
        (q ++ rest.flatMap (.token (.keyword .and) :: ·))) =
        [] :: conjuncts false (q ++ rest.flatMap (.token (.keyword .and) :: ·)) := rfl
    rw [cut, ih here others]
    simp

theorem alternatives_single {ps : List Piece} (noOr : ∀ p ∈ ps, p.isWord .or = false) :
    alternatives ps = [ps] :=
  List.splitOnP_eq_singleton noOr

theorem alternatives_joined {ps : List Piece} (hp : Uncut ps) {qs : List (List Piece)}
    (hq : ∀ q ∈ qs, Uncut q) :
    alternatives (ps ++ qs.flatMap (.token (.keyword .or) :: ·)) = ps :: qs := by
  induction qs generalizing ps with
  | nil =>
    simp only [List.flatMap_nil, List.append_nil]
    exact alternatives_single hp.noOr
  | cons q rest ih =>
    obtain ⟨here, others⟩ := List.forall_mem_cons.mp hq
    rw [List.flatMap_cons, List.cons_append, alternatives,
      List.splitOnP_append_cons_of_forall_mem hp.noOr _ rfl]
    exact congrArg (ps :: ·) (ih here others)

theorem formula_conjuncts {ps : List Piece} {qs : List (List Piece)}
    {φs : List (Formula (List Token))} (hp : Uncut ps) (hq : ∀ q ∈ qs, Uncut q)
    (factors : (ps :: qs).mapM factor? = some φs) :
    formula? (ps ++ qs.flatMap (.token (.keyword .and) :: ·)) = some (.any [.all φs]) := by
  have noOr : ∀ p ∈ ps ++ qs.flatMap (.token (.keyword .and) :: ·), p.isWord .or = false := by
    intro p h
    simp only [List.mem_append, List.mem_flatMap, List.mem_cons] at h
    rcases h with h | ⟨q, mem, rfl | h⟩
    · exact hp.noOr p h
    · rfl
    · exact (hq q mem).noOr p h
  rw [formula?, alternatives_single noOr]
  simp [conjunction?, conjuncts_joined hp hq, factors]

theorem conjunctions_of_factors {qs : List (List Piece)} {φs : List (Formula (List Token))}
    (whole : ∀ q ∈ qs, Uncut q) (factors : qs.mapM factor? = some φs) :
    qs.mapM conjunction? = some (φs.map fun φ => .all [φ]) := by
  induction qs generalizing φs with
  | nil =>
    cases factors
    rfl
  | cons q rest ih =>
    obtain ⟨here, others⟩ := List.forall_mem_cons.mp whole
    simp only [List.mapM_cons, Option.bind_eq_bind, Option.bind_eq_some_iff, Option.pure_def,
      Option.some.injEq] at factors
    obtain ⟨φ, factor, φs, factors, rfl⟩ := factors
    have first : conjunction? q = some (.all [φ]) := by simp [conjunction?, here.single, factor]
    rw [List.mapM_cons, first, ih others factors]
    rfl

theorem formula_alternatives {ps : List Piece} {qs : List (List Piece)}
    {φs : List (Formula (List Token))} (hp : Uncut ps) (hq : ∀ q ∈ qs, Uncut q)
    (factors : (ps :: qs).mapM factor? = some φs) :
    formula? (ps ++ qs.flatMap (.token (.keyword .or) :: ·)) =
      some (.any (φs.map fun φ => .all [φ])) := by
  have whole : ∀ q ∈ ps :: qs, Uncut q := List.forall_mem_cons.mpr ⟨hp, hq⟩
  rw [formula?, alternatives_joined hp hq, conjunctions_of_factors whole factors]
  rfl

example (a b c : String) :
    readFormula? [.ident a, .space, .keyword .or, .space, .keyword .not, .space, .ident b, .space,
        .keyword .and, .space, .symbol .openParen, .ident c, .symbol .closeParen] =
      some (.any [.all [.atom [.ident a]],
        .all [.not (.atom [.ident b]), .any [.all [.atom [.ident c]]]]]) := by
  rfl

end ReadPlan.Sql
