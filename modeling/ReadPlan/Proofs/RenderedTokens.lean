import ReadPlan.Sql.Statement

/-!
One induction over the rendering of expressions and queries. What is true of single tokens, and
stays true where token lists are put side by side at a gap or between brackets, is true of all that
is rendered.
-/

namespace ReadPlan.Sql

/-- What an expression puts into its text without quotes, beyond the words and signs of SQL. -/
inductive Loose
  | float (x : Binary64)
  | function (name : String)
  | raw (sql : String)

namespace Loose

def token : Loose → Token
  | float x => .float x
  | function name => .functionName name
  | raw sql => .raw sql

end Loose

def Literal.loose : Literal → List Loose
  | .float x => [.float x]
  | _ => []

mutual

def Expr.loose : Expr → List Loose
  | .column .. | .star _ => []
  | .literal value => value.loose
  | .array items => listLoose items
  | .binary left _ right => left.loose ++ right.loose
  | .not e | .isNull e _ | .paren e => e.loose
  | .call function args _ => .function function :: listLoose args
  | .inList e values _ => e.loose ++ listLoose values
  | .between e low high _ => e.loose ++ (low.loose ++ high.loose)
  | .is e value _ => e.loose ++ value.loose
  | .quantified e _ _ array => e.loose ++ array.loose
  | .exists query => query.loose
  | .raw sql => [.raw sql]

def listLoose : List Expr → List Loose
  | [] => []
  | e :: rest => e.loose ++ listLoose rest

def Query.loose : Query → List Loose
  | ⟨select, _, joins, filter, groupBy, having, orderBy, _⟩ =>
    selectLoose select ++ (joinLoose joins ++ (clauseLoose filter ++ (listLoose groupBy ++
      (clauseLoose having ++ orderLoose orderBy))))

def selectLoose : List SelectItem → List Loose
  | [] => []
  | ⟨e, _⟩ :: rest => e.loose ++ selectLoose rest

def joinLoose : List Join → List Loose
  | [] => []
  | ⟨_, _, on⟩ :: rest => on.loose ++ joinLoose rest

def clauseLoose : Option Expr → List Loose
  | none => []
  | some e => e.loose

def orderLoose : List OrderItem → List Loose
  | [] => []
  | ⟨e, _⟩ :: rest => e.loose ++ orderLoose rest

end

theorem listLoose_eq_flatMap (es : List Expr) : listLoose es = es.flatMap Expr.loose := by
  induction es with
  | nil => rfl
  | cons e rest ih => rw [listLoose, ih, List.flatMap_cons]

theorem selectLoose_eq_flatMap (items : List SelectItem) :
    selectLoose items = items.flatMap (·.expr.loose) := by
  induction items with
  | nil => rfl
  | cons item rest ih =>
    cases item
    rw [selectLoose, ih, List.flatMap_cons]

theorem joinLoose_eq_flatMap (joins : List Join) :
    joinLoose joins = joins.flatMap (·.on.loose) := by
  induction joins with
  | nil => rfl
  | cons join rest ih =>
    cases join
    rw [joinLoose, ih, List.flatMap_cons]

namespace Token

def isBlank : Token → Bool
  | .space | .newline | .indent _ => true
  | _ => false

def isBracket : Token → Bool
  | .symbol .openParen | .symbol .closeParen | .symbol .openBracket | .symbol .closeBracket => true
  | _ => false

/-- Blanks and commas keep what stands on their sides apart, and an empty indent does not. -/
def isGap (t : Token) : Bool :=
  (t.isBlank && t != .indent 0) || t == .symbol .comma

def isFixed : Token → Bool
  | .float _ => false
  | .functionName name => name == "LOWER" || name == "regexp_matches"
  | .raw sql => sql == allRows
  | t => !t.isBracket

end Token

def startsApart : List Token → Bool
  | [] => true
  | t :: _ => t.isGap || t == .symbol .openParen || t == .symbol .openBracket

theorem startsApart_append {ts us : List Token} (ht : startsApart ts = true)
    (hu : startsApart us = true) : startsApart (ts ++ us) = true := by
  cases ts with
  | nil => exact hu
  | cons => exact ht

/-- A property of token lists that holds of all that is rendered once `Q` holds of its loose
parts. -/
structure Composable (Q : Loose → Prop) (P : List Token → Prop) : Prop where
  nil : P []
  fixed : ∀ {t}, t.isFixed = true → P [t]
  loose : ∀ {l}, Q l → P [l.token]
  gap : ∀ {t ts}, t.isGap = true → P ts → P (t :: ts)
  append : ∀ {ts us}, P ts → startsApart us = true → P us → P (ts ++ us)
  parens : ∀ {ts}, P ts → P (.symbol .openParen :: ts ++ [.symbol .closeParen])
  brackets : ∀ {ts}, P ts → P (.symbol .openBracket :: ts ++ [.symbol .closeBracket])
  column : ∀ {table column}, P [.ident table, .symbol .dot, .ident column]
  star : ∀ {table}, P [.ident table, .symbol .dot, .symbol .star]

namespace Composable

variable {Q : Loose → Prop} {P : List Token → Prop} (h : Composable Q P)

include h

theorem word {t : Token} {ts : List Token} (fixed : t.isFixed = true)
    (apart : startsApart ts = true) (ht : P ts) : P (t :: ts) :=
  h.append (h.fixed fixed) apart ht

theorem spaced {ts us : List Token} (ht : P ts) (hu : P us) : P (ts ++ .space :: us) :=
  h.append ht rfl (h.gap rfl hu)

theorem lead {t : Token} {ts : List Token} (fixed : t.isFixed = true) (ht : P ts) :
    P (t :: .space :: ts) :=
  h.word fixed rfl (h.gap rfl ht)

theorem call {name : Token} {args : List Token} (hn : P [name]) (ha : P args) :
    P (name :: .symbol .openParen :: args ++ [.symbol .closeParen]) := by
  have whole := h.append hn rfl (h.parens ha)
  simpa only [List.append_assoc, List.cons_append, List.nil_append] using whole

theorem negation (negated : Bool) : P (notTokens negated) := by
  cases negated
  · exact h.nil
  · exact h.gap rfl (h.fixed rfl)

theorem negated {left : List Token} (hl : P left) (negated : Bool) :
    P (left ++ notTokens negated) :=
  h.append hl (by cases negated <;> rfl) (h.negation negated)

theorem operator (op : BinaryOp) : P op.tokens := by
  cases op with
  | notLike | notILike => exact h.lead rfl (h.fixed rfl)
  | _ => exact h.fixed rfl

theorem named (name : Option String) : P (aliasTokens name) := by
  cases name
  · exact h.nil
  · exact h.gap rfl (h.lead rfl (h.fixed rfl))

theorem table (t : TableRef) : P t.tokens :=
  h.word rfl (by cases name : t.name <;> simp only [aliasTokens] <;> rfl) (h.named t.name)

theorem joinKind (kind : JoinKind) : P kind.tokens := by
  cases kind
  · exact h.fixed rfl
  · exact h.lead rfl (h.fixed rfl)

theorem page (d : Dialect) (p : Page) : P (pageTokens d p) := by
  have limit (n : Nat) : P (limitTokens n) := h.lead rfl (h.fixed rfl)
  have offset (n : Nat) : P (offsetTokens n) := h.lead rfl (h.fixed rfl)
  unfold pageTokens
  split
  · exact h.nil
  · exact limit _
  · exact h.spaced (limit _) (offset _)
  · split
    · exact h.lead rfl (h.lead rfl (offset _))
    · exact offset _

theorem infixed {left right words : List Token} (hl : P left) (hw : P words) (hr : P right) :
    P (left ++ .space :: words ++ .space :: right) :=
  h.spaced (h.spaced hl hw) hr

end Composable

section

variable (d : Dialect)

theorem listTokens_cons (e : Expr) {rest : List Expr} (more : rest ≠ []) :
    listTokens d (e :: rest) = e.tokens d ++ (separator ++ listTokens d rest) := by
  cases rest with
  | nil => contradiction
  | cons => simp [listTokens]

theorem clauseBreak_isGap (layout : Layout) : layout.clauseBreak.isGap = true := by
  cases layout <;> rfl

theorem startsApart_gap {t : Token} (h : t.isGap = true) (ts : List Token) :
    startsApart (t :: ts) = true := by
  rw [startsApart, h]
  rfl

theorem joinTokens_apart (layout : Layout) (joins : List Join) :
    startsApart (joinTokens d layout joins) = true := by
  match joins with
  | [] => rfl
  | ⟨kind, table, on⟩ :: rest =>
    simp only [joinTokens, List.cons_append]
    exact startsApart_gap (clauseBreak_isGap layout) _

theorem selectTokens_apart (layout : Layout) (items : List SelectItem) :
    startsApart (selectTokens d layout items) = true := by
  match items with
  | [] => rfl
  | [item] => cases layout <;> rfl
  | item :: next :: rest => cases layout <;> rfl

variable {Q : Loose → Prop} {P : List Token → Prop} (h : Composable Q P)

include h

theorem Composable.clauses {ts us : List Token} (ht : startsApart ts = true ∧ P ts)
    (hu : startsApart us = true ∧ P us) : startsApart (ts ++ us) = true ∧ P (ts ++ us) :=
  ⟨startsApart_append ht.1 hu.1, h.append ht.2 hu.1 hu.2⟩

theorem Composable.line (layout : Layout) (absent : Bool) {ts : List Token} (ht : P ts) :
    startsApart (if absent then [] else layout.clauseBreak :: ts) = true ∧
      P (if absent then [] else layout.clauseBreak :: ts) := by
  cases absent
  · exact ⟨startsApart_gap (clauseBreak_isGap layout) ts, h.gap (clauseBreak_isGap layout) ht⟩
  · exact ⟨rfl, h.nil⟩

theorem Composable.lowered {ts : List Token} (ht : P ts) : P (callTokens "LOWER" ts) :=
  h.call (h.fixed rfl) ht

theorem Composable.listed {ts us : List Token} (ht : P ts) (hu : P us) :
    P (ts ++ separator ++ us) := by
  have whole := h.append ht rfl (h.gap rfl (h.gap rfl hu) : P (.symbol .comma :: .space :: us))
  simpa only [List.append_assoc, separator, List.cons_append, List.nil_append] using whole

theorem Composable.regex {left right : Expr} (negated caseInsensitive : Bool)
    (hl : P (left.tokens d)) (hr : P (right.tokens d)) :
    P ((Expr.binary left (.regex negated caseInsensitive) right).tokens d) := by
  simp only [Expr.tokens]
  split
  · have args : P (left.tokens d ++ separator ++ right.tokens d ++
        (if caseInsensitive then separator ++ [.string "i"] else [])) := by
      cases caseInsensitive
      · simpa using h.listed hl hr
      · simpa only [List.append_assoc, if_true] using h.listed (h.listed hl hr) (h.fixed rfl)
    have call : P (callTokens "regexp_matches" _) := h.call (h.fixed rfl) args
    cases negated
    · exact call
    · exact h.lead rfl call
  · split
    · exact h.spaced (h.lowered hl) (h.lead rfl (h.lowered hr))
    · exact h.spaced hl (h.lead rfl hr)

theorem Composable.binary {left right : Expr} (op : BinaryOp) (hl : P (left.tokens d))
    (hr : P (right.tokens d)) : P ((Expr.binary left op right).tokens d) := by
  cases op with
  | regex negated caseInsensitive => exact h.regex d negated caseInsensitive hl hr
  | _ =>
    simp only [Expr.tokens]
    split
    · exact h.infixed (h.lowered hl) (h.operator _) (h.lowered hr)
    · exact h.infixed hl (h.operator _) hr

mutual

theorem Expr.composed : (e : Expr) → (∀ l ∈ e.loose, Q l) → P (e.tokens d)
  | .column none _, _ => h.fixed rfl
  | .column (some _) _, _ => h.column
  | .literal value, q => by
    rw [Expr.tokens]
    cases value with
    | float x => exact h.loose (q (.float x) (by simp [Expr.loose, Literal.loose]))
    | _ => exact h.fixed rfl
  | .array items, q => by
    have inside := h.brackets (list_composed items (by simpa only [Expr.loose] using q))
    exact h.word rfl rfl inside
  | .binary left op right, q => by
    simp only [Expr.loose, List.forall_mem_append] at q
    exact h.binary d op (left.composed q.1) (right.composed q.2)
  | .not e, q => h.lead rfl (e.composed (by simpa only [Expr.loose] using q))
  | .call function args distinct, q => by
    simp only [Expr.loose, List.forall_mem_cons] at q
    have inside := list_composed args q.2
    rw [Expr.tokens]
    refine h.call (h.loose q.1) ?_
    cases distinct
    · exact inside
    · exact h.lead rfl inside
  | .inList e values negated, q => by
    simp only [Expr.loose, List.forall_mem_append] at q
    rw [Expr.tokens]
    split
    · exact h.fixed rfl
    · have members : P (.keyword .in :: .space :: .symbol .openParen :: listTokens d values ++
          [.symbol .closeParen]) := h.lead rfl (h.parens (list_composed values q.2))
      simpa only [List.append_assoc, List.cons_append] using
        h.spaced (h.negated (e.composed q.1) negated) members
  | .between e low high negated, q => by
    simp only [Expr.loose, List.forall_mem_append] at q
    have range : P (low.tokens d ++ .space :: .keyword .and :: .space :: high.tokens d) :=
      h.spaced (low.composed q.2.1) (h.lead rfl (high.composed q.2.2))
    have word : P (.keyword .between :: .space :: (low.tokens d ++
        .space :: .keyword .and :: .space :: high.tokens d)) := h.lead rfl range
    simpa only [Expr.tokens, List.append_assoc, List.cons_append] using
      h.spaced (h.negated (e.composed q.1) negated) word
  | .isNull e negated, q =>
    h.spaced (e.composed (by simpa only [Expr.loose] using q)) (h.fixed rfl)
  | .is e value negated, q => by
    simp only [Expr.loose, List.forall_mem_append] at q
    have test : P (e.tokens d ++ .space :: .keyword .is :: notTokens negated) := by
      simpa using h.negated (h.spaced (e.composed q.1) (h.fixed rfl : P [.keyword .is])) negated
    rw [Expr.tokens]
    refine h.spaced test ?_
    split
    · exact h.fixed rfl
    · exact value.composed q.2
  | .quantified e op quantifier array, q => by
    simp only [Expr.loose, List.forall_mem_append] at q
    have right : P (quantifier.token :: .symbol .openParen :: array.tokens d ++
        [.symbol .closeParen]) :=
      h.call (by cases quantifier <;> exact h.fixed rfl) (array.composed q.2)
    simpa only [Expr.tokens, List.append_assoc, List.cons_append] using
      h.infixed (e.composed q.1) (h.operator op) right
  | .exists query, q =>
    h.lead rfl (h.parens (query.composed .inline (by simpa only [Expr.loose] using q)))
  | .star none, _ => h.fixed rfl
  | .star (some _), _ => h.star
  | .paren e, q => h.parens (e.composed (by simpa only [Expr.loose] using q))
  | .raw sql, q => h.loose (q (.raw sql) (by simp [Expr.loose]))

theorem list_composed : (es : List Expr) → (∀ l ∈ listLoose es, Q l) → P (listTokens d es)
  | [], _ => h.nil
  | [e], q => e.composed (by simpa [listLoose] using q)
  | e :: f :: rest, q => by
    rw [listLoose, List.forall_mem_append] at q
    rw [listTokens_cons d e (by simp)]
    exact h.append (e.composed q.1) rfl (h.gap rfl (h.gap rfl (list_composed (f :: rest) q.2)))

theorem Query.composed (layout : Layout) :
    (query : Query) → (∀ l ∈ query.loose, Q l) → P (query.tokens d layout)
  | ⟨select, source, joins, filter, groupBy, having, orderBy, page⟩, q => by
    simp only [Query.loose, List.forall_mem_append] at q
    obtain ⟨qSelect, qJoins, qFilter, qGroup, qHaving, qOrder⟩ := q
    have selected := select_composed layout select qSelect
    have origin :
        startsApart (sourceTokens layout source) = true ∧ P (sourceTokens layout source) := by
      cases source with
      | none => exact ⟨rfl, h.nil⟩
      | some t => exact h.line layout false (h.lead rfl (h.table t))
    have joined := join_composed layout joins qJoins
    have grouped := h.line layout groupBy.isEmpty
      (h.lead rfl (list_composed groupBy qGroup) : P (.keyword .groupBy :: _))
    have ordered := h.line layout orderBy.isEmpty
      (h.lead rfl (order_composed orderBy qOrder) : P (.keyword .orderBy :: _))
    have paged := h.line layout page.isWhole (h.page d page)
    have rest := h.clauses ⟨selectTokens_apart d layout select, selected⟩ (h.clauses origin
      (h.clauses ⟨joinTokens_apart d layout joins, joined⟩
        (h.clauses (clause_composed layout .where filter qFilter) (h.clauses grouped
          (h.clauses (clause_composed layout .having having qHaving) (h.clauses ordered paged))))))
    simpa only [Query.tokens, List.append_assoc, List.cons_append] using h.word rfl rest.1 rest.2

theorem select_composed (layout : Layout) :
    (items : List SelectItem) → (∀ l ∈ selectLoose items, Q l) → P (selectTokens d layout items)
  | [], _ => h.nil
  | ⟨e, name⟩ :: rest, q => by
    rw [selectLoose, List.forall_mem_append] at q
    have item : P (SelectItem.tokens d ⟨e, name⟩) :=
      h.append (e.composed q.1) (by cases name <;> rfl) (h.named name)
    have broken {ts : List Token} (ht : P ts) : P (layout.itemBreak ++ ts) := by
      cases layout
      · exact h.gap rfl (h.gap rfl ht)
      · exact h.gap rfl ht
    cases rest with
    | nil => exact broken item
    | cons next rest =>
      have others := select_composed layout (next :: rest) q.2
      exact h.append (broken item) rfl (h.gap rfl others)

theorem join_composed (layout : Layout) :
    (joins : List Join) → (∀ l ∈ joinLoose joins, Q l) → P (joinTokens d layout joins)
  | [], _ => h.nil
  | ⟨kind, table, on⟩ :: rest, q => by
    rw [joinLoose, List.forall_mem_append] at q
    have others := join_composed layout rest q.2
    have condition : P (.keyword .on :: .space :: (on.tokens d ++ joinTokens d layout rest)) :=
      h.lead rfl (h.append (on.composed q.1) (joinTokens_apart d layout rest) others)
    have joined : P (.keyword .join :: .space :: (table.tokens ++ .space :: .keyword .on ::
        .space :: (on.tokens d ++ joinTokens d layout rest))) :=
      h.lead rfl (h.spaced (h.table table) condition)
    simp only [joinTokens, List.append_assoc, List.cons_append]
    exact h.gap (clauseBreak_isGap layout) (h.spaced (h.joinKind kind) joined)

theorem clause_composed (layout : Layout) (word : Keyword) :
    (clause : Option Expr) → (∀ l ∈ clauseLoose clause, Q l) →
      startsApart (clauseTokens d layout word clause) = true ∧ P (clauseTokens d layout word clause)
  | none, _ => ⟨rfl, h.nil⟩
  | some e, q =>
    h.line layout false (h.lead rfl (e.composed (by simpa only [clauseLoose] using q)))

theorem order_composed :
    (items : List OrderItem) → (∀ l ∈ orderLoose items, Q l) → P (orderTokens d items)
  | [], _ => h.nil
  | ⟨e, direction⟩ :: rest, q => by
    rw [orderLoose, List.forall_mem_append] at q
    have item : P (e.tokens d ++ [.space, directionToken direction]) :=
      h.spaced (e.composed q.1) (by cases direction <;> exact h.fixed rfl)
    cases rest with
    | nil => exact item
    | cons next rest =>
      have others := order_composed (next :: rest) q.2
      simpa [orderTokens, separator] using h.append item rfl (h.gap rfl (h.gap rfl others))

end

end

/-- What is true of brackets, of the tokens that any statement may hold and of the loose parts is
true of every token. -/
theorem Composable.of_tokens {Q : Loose → Prop} {R : Token → Prop}
    (bracket : ∀ t : Token, t.isBracket = true → R t) (fixed : ∀ t : Token, t.isFixed = true → R t)
    (loose : ∀ l, Q l → R l.token) : Composable Q fun ts => ∀ t ∈ ts, R t where
  nil := by simp
  fixed h := by simpa using fixed _ h
  loose h := by simpa using loose _ h
  gap {t ts} h ht := by
    refine List.forall_mem_cons.mpr ⟨fixed t ?_, ht⟩
    cases t with
    | symbol s => cases s <;> first | rfl | contradiction
    | space | newline | indent => rfl
    | _ => contradiction
  append ht _ hu := List.forall_mem_append.mpr ⟨ht, hu⟩
  parens {ts} ht := by
    have opening := bracket (.symbol .openParen) rfl
    have closing := bracket (.symbol .closeParen) rfl
    simpa [or_imp, forall_and, opening, closing] using ht
  brackets {ts} ht := by
    have opening := bracket (.symbol .openBracket) rfl
    have closing := bracket (.symbol .closeBracket) rfl
    simpa [or_imp, forall_and, opening, closing] using ht
  column {table column} := by
    simp [fixed (.ident table) rfl, fixed (.symbol .dot) rfl, fixed (.ident column) rfl]
  star {table} := by
    simp [fixed (.ident table) rfl, fixed (.symbol .dot) rfl, fixed (.symbol .star) rfl]

end ReadPlan.Sql
