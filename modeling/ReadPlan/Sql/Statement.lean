import ReadPlan.Sql.Expr

/-!
The token lists of expressions and queries. A dialect without an operator gets an expression that
means the same: lowered operands for a case-insensitive match, a function for a regular expression.
-/

namespace ReadPlan.Sql

/-- A query stands on several lines, or on one line inside another. -/
inductive Layout
  | lines | inline
  deriving DecidableEq

namespace Layout

def clauseBreak : Layout → Token
  | lines => .newline
  | inline => .space

def itemBreak : Layout → List Token
  | lines => [.newline, .indent 1]
  | inline => [.space]

end Layout

def BinaryOp.tokens : BinaryOp → List Token
  | eq => [.symbol .eq]
  | ne => [.symbol .ne]
  | lt => [.symbol .lt]
  | gt => [.symbol .gt]
  | lte => [.symbol .lte]
  | gte => [.symbol .gte]
  | and => [.keyword .and]
  | or => [.keyword .or]
  | like => [.keyword .like]
  | notLike => [.keyword .not, .space, .keyword .like]
  | iLike => [.keyword .iLike]
  | notILike => [.keyword .not, .space, .keyword .iLike]
  | regex negated caseInsensitive => [.regexMatch negated caseInsensitive]
  | overlap => [.symbol .overlap]
  | contains => [.symbol .contains]
  | containedBy => [.symbol .containedBy]

/-- Whether the dialect has to match lowered operands because it cannot ignore case itself. -/
def BinaryOp.lowersOperands (d : Dialect) : BinaryOp → Bool
  | iLike | notILike => !d.supportsILike
  | regex _ caseInsensitive => caseInsensitive && !d.supportsCaseInsensitiveRegex
  | _ => false

def BinaryOp.caseSensitive : BinaryOp → BinaryOp
  | iLike => like
  | notILike => notLike
  | regex negated _ => regex negated false
  | op => op

def Literal.token : Literal → Token
  | int n => .int n
  | float x => .float x
  | string s => .string s
  | bool b => .bool b
  | null => .keyword .null

def Expr.truthKeyword? : Expr → Option Keyword
  | .literal (.bool true) => some .true
  | .literal (.bool false) => some .false
  | .literal .null => some .null
  | _ => none

def notTokens (negated : Bool) : List Token :=
  if negated then [.space, .keyword .not] else []

def aliasTokens : Option String → List Token
  | none => []
  | some name => [.space, .keyword .as, .space, .ident name]

def TableRef.tokens (t : TableRef) : List Token :=
  .qualifiedIdent t.schema t.table :: aliasTokens t.name

def JoinKind.tokens : JoinKind → List Token
  | inner => [.keyword .inner]
  | left => [.keyword .left, .space, .keyword .outer]

def directionToken : Direction → Token
  | .asc => .keyword .asc
  | .desc => .keyword .desc

def Quantifier.token : Quantifier → Token
  | any => .keyword .any
  | all => .keyword .all

def sourceTokens (layout : Layout) : Option TableRef → List Token
  | none => []
  | some t => layout.clauseBreak :: .keyword .from :: .space :: t.tokens

def tableTokens : Option String → List Token
  | none => []
  | some t => [.ident t, .symbol .dot]

def separator : List Token :=
  [.symbol .comma, .space]

def callTokens (function : String) (args : List Token) : List Token :=
  .functionName function :: .symbol .openParen :: args ++ [.symbol .closeParen]

mutual

/-- Membership in an empty list is a truth value: no dialect has an empty list. -/
def Expr.tokens (d : Dialect) : Expr → List Token
  | .column table column => tableTokens table ++ [.ident column]
  | .literal value => [value.token]
  | .array items =>
    .keyword .array :: .symbol .openBracket :: listTokens d items ++ [.symbol .closeBracket]
  | .binary left (.regex negated caseInsensitive) right =>
    if d.regexIsFunction then
      (if negated then [.keyword .not, .space] else []) ++
        callTokens "regexp_matches" (left.tokens d ++ separator ++ right.tokens d ++
          (if caseInsensitive then separator ++ [.string "i"] else []))
    else if BinaryOp.lowersOperands d (.regex negated caseInsensitive) then
      callTokens "LOWER" (left.tokens d) ++
        .space :: .regexMatch negated false :: .space :: callTokens "LOWER" (right.tokens d)
    else
      left.tokens d ++ .space :: .regexMatch negated caseInsensitive :: .space :: right.tokens d
  | .binary left op right =>
    if op.lowersOperands d then
      callTokens "LOWER" (left.tokens d) ++ .space :: op.caseSensitive.tokens ++
        .space :: callTokens "LOWER" (right.tokens d)
    else
      left.tokens d ++ .space :: op.tokens ++ .space :: right.tokens d
  | .not expr => .keyword .not :: .space :: expr.tokens d
  | .call function args distinct =>
    callTokens function
      ((if distinct then [.keyword .distinct, .space] else []) ++ listTokens d args)
  | .inList expr values negated =>
    if values.isEmpty then
      [.keyword (if negated then .true else .false)]
    else
      expr.tokens d ++ notTokens negated ++ .space :: .keyword .in :: .space ::
        .symbol .openParen :: listTokens d values ++ [.symbol .closeParen]
  | .between expr low high negated =>
    expr.tokens d ++ notTokens negated ++ .space :: .keyword .between :: .space :: low.tokens d ++
      .space :: .keyword .and :: .space :: high.tokens d
  | .isNull expr negated =>
    expr.tokens d ++ [.space, .keyword (if negated then .isNotNull else .isNull)]
  | .is expr value negated =>
    expr.tokens d ++ .space :: .keyword .is :: notTokens negated ++ .space ::
      (match value.truthKeyword? with
        | some word => [.keyword word]
        | none => value.tokens d)
  | .quantified expr op quantifier array =>
    expr.tokens d ++ .space :: op.tokens ++ .space :: quantifier.token :: .symbol .openParen ::
      array.tokens d ++ [.symbol .closeParen]
  | .exists query =>
    .keyword .exists :: .space :: .symbol .openParen :: query.tokens d .inline ++
      [.symbol .closeParen]
  | .star table => tableTokens table ++ [.symbol .star]
  | .paren expr => .symbol .openParen :: expr.tokens d ++ [.symbol .closeParen]
  | .raw sql => [.raw sql]

def listTokens (d : Dialect) : List Expr → List Token
  | [] => []
  | [e] => e.tokens d
  | e :: rest => e.tokens d ++ separator ++ listTokens d rest

def Query.tokens (d : Dialect) (layout : Layout) : Query → List Token
  | ⟨select, source, joins, filter, groupBy, having, orderBy, page⟩ =>
    .keyword .select :: selectTokens d layout select ++ sourceTokens layout source ++
      joinTokens d layout joins ++ clauseTokens d layout .where filter ++
      (if groupBy.isEmpty then []
        else layout.clauseBreak :: .keyword .groupBy :: .space :: listTokens d groupBy) ++
      clauseTokens d layout .having having ++
      (if orderBy.isEmpty then []
        else layout.clauseBreak :: .keyword .orderBy :: .space :: orderTokens d orderBy) ++
      (if page.isWhole then [] else layout.clauseBreak :: pageTokens d page)

def SelectItem.tokens (d : Dialect) : SelectItem → List Token
  | ⟨expr, name⟩ => expr.tokens d ++ aliasTokens name

def selectTokens (d : Dialect) (layout : Layout) : List SelectItem → List Token
  | [] => []
  | [item] => layout.itemBreak ++ item.tokens d
  | item :: rest =>
    layout.itemBreak ++ item.tokens d ++ .symbol .comma :: selectTokens d layout rest

def joinTokens (d : Dialect) (layout : Layout) : List Join → List Token
  | [] => []
  | ⟨kind, table, on⟩ :: rest =>
    layout.clauseBreak :: kind.tokens ++ .space :: .keyword .join :: .space :: table.tokens ++
      .space :: .keyword .on :: .space :: on.tokens d ++ joinTokens d layout rest

def clauseTokens (d : Dialect) (layout : Layout) (word : Keyword) : Option Expr → List Token
  | none => []
  | some e => layout.clauseBreak :: .keyword word :: .space :: e.tokens d

def orderTokens (d : Dialect) : List OrderItem → List Token
  | [] => []
  | [⟨e, direction⟩] => e.tokens d ++ [.space, directionToken direction]
  | ⟨e, direction⟩ :: rest =>
    e.tokens d ++ .space :: directionToken direction :: separator ++ orderTokens d rest

end

def Query.text (d : Dialect) (q : Query) : Except FloatFault String :=
  write d (q.tokens d .lines)

def countAlias : String := "subquery"

def countStatement (d : Dialect) (statement : String) : String :=
  tokensText d <|
    [.keyword .select, .space] ++ callTokens "count" [.symbol .star] ++
      [.space, .keyword .from, .space, .symbol .openParen, .raw statement, .symbol .closeParen,
        .space, .keyword .as, .space, .ident countAlias]

end ReadPlan.Sql
