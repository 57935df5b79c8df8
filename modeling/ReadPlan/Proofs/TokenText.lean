import ReadPlan.Proofs.NumberText
import ReadPlan.Proofs.RenderedTokens
import ReadPlan.Text.Class

namespace ReadPlan.Sql

def Keyword.words : Keyword → List String
  | .groupBy => ["GROUP", "BY"]
  | .orderBy => ["ORDER", "BY"]
  | .isNull => ["IS", "NULL"]
  | .isNotNull => ["IS", "NOT", "NULL"]
  | word => [word.text]

/-- What a token stands for in a statement: raw text is one number. -/
def Token.lexemes (d : Dialect) : Token → List Lexeme
  | .keyword word => word.words.map .word
  | .symbol s => [.symbol s.text]
  | .regexMatch negated caseInsensitive =>
    match d with
    | .mysql => if negated then [.word "NOT", .word "REGEXP"] else [.word "REGEXP"]
    | .postgres | .duckdb => [.symbol (d.regexText negated caseInsensitive)]
  | .space | .newline | .indent _ => []
  | .ident name | .qualifiedIdent none name => [.name name]
  | .qualifiedIdent (some schema) name => [.name schema, .symbol ".", .name name]
  | .int n => [.number (toString n)]
  | .float x => [.number (x.text floatLayout)]
  | .string s => [.string s]
  | .bool b =>
    match d with
    | .mysql => [.number (d.boolText b)]
    | .postgres | .duckdb => [.word (d.boolText b)]
  | .functionName name => [.word (Text.upper name)]
  | .raw sql => [.number sql]

def Token.Readable : Token → Prop
  | .float x => x.isFinite = true
  | .functionName name => Text.isPlainName name = true
  | .raw sql => sql = allRows
  | _ => True

open Lexer

section

variable {d : Dialect}

theorem begin_quote (d : Dialect) :
    begin? d d.identifierQuote = some ([], .quoted d.identifierQuote []) := by
  cases d <;> decide

theorem run_doubled {quote : Char}
    (plain : isStringQuote d quote = false ∨ d.escapesBackslash = false) (cs read : List Char) :
    (Mode.quoted quote read).run? d (Dialect.doubled quote cs) =
      some (.quoted quote (read ++ cs)) := by
  refine run_quoted (fun c read => ?_) cs read
  split
  · rename_i same
    rw [run_cons (n := .closing quote read) (by simp [Mode.follow?]),
      run_cons (n := .quoted quote (read ++ [quote])) (by simp [Mode.follow?]), same]
    rfl
  · rename_i other
    rw [run_cons (n := .quoted quote (read ++ [c]))]
    · rfl
    · rcases plain with plain | plain <;> simp [Mode.follow?, other, plain]

theorem run_name (d : Dialect) (name : String) :
    Mode.run? d .between (d.quoteIdentifier name).toList =
      some (.closing d.identifierQuote name.toList) := by
  have plain : isStringQuote d d.identifierQuote = false ∨ d.escapesBackslash = false := by
    cases d <;> decide
  rw [Dialect.quoteIdentifier, String.toList_ofList, List.cons_append,
    run_cons (m := .between) (begin_quote d), run_append (run_doubled plain _ _),
    run_cons (n := .closing d.identifierQuote name.toList) (by simp [Mode.follow?])]
  rfl

theorem finish_name (d : Dialect) (name : String) :
    (Mode.closing d.identifierQuote name.toList).finish? d = some [.name name] := by
  simp [Mode.finish?, isNameQuote]

theorem name_reads (d : Dialect) (name : String) :
    Reads d (d.quoteIdentifier name).toList [.name name] :=
  .of_run (run_name d name) (finish_name d name)

theorem member_reads (d : Dialect) (table : String) {cs : List Char} {ls : List Lexeme}
    (h : Reads d cs ls) (digit : ∀ c ∈ cs.head?, c.isDigit = false) (nonempty : cs ≠ []) :
    Reads d ((d.quoteIdentifier table).toList ++ '.' :: cs) (.name table :: .symbol "." :: ls) := by
  have point : Mode.follow? d (.closing d.identifierQuote table.toList) '.' =
      Mode.leave? d (.closing d.identifierQuote table.toList) '.' := by
    cases d <;> rfl
  exact .dotted (run_name d table) (finish_name d table) point h digit nonempty

theorem qualified_reads (d : Dialect) (schema name : String) :
    Reads d ((d.quoteIdentifier schema).toList ++ '.' :: (d.quoteIdentifier name).toList)
      [.name schema, .symbol ".", .name name] := by
  refine member_reads d schema (name_reads d name) ?_ ?_
  · cases d <;> simp [Dialect.quoteIdentifier, Dialect.identifierQuote]
  · simp [Dialect.quoteIdentifier]

theorem string_reads (d : Dialect) (s : String) : Reads d (d.quoteString s).toList [.string s] := by
  have begun : Mode.follow? d .between '\'' = some ([], .quoted '\'' []) := by
    cases d <;> rfl
  have held : (Mode.quoted '\'' []).run? d (Dialect.doubled '\''
      (if d.escapesBackslash then Dialect.doubled '\\' s.toList else s.toList)) =
        some (.quoted '\'' s.toList) := by
    cases escapes : d.escapesBackslash with
    | false => exact run_doubled (.inr escapes) s.toList []
    | true =>
      rw [if_pos rfl, Dialect.doubled, Dialect.doubled, List.flatMap_assoc]
      have quote : isStringQuote d '\'' = true := by
        cases d <;> rfl
      refine run_quoted (fun c read => ?_) s.toList []
      by_cases backslash : c = '\\'
      · subst backslash
        simp [Mode.run?, Mode.silent?, Mode.follow?, escapes, quote, unescaped]
      · by_cases apostrophe : c = '\''
        · subst apostrophe
          simp [Mode.run?, Mode.silent?, Mode.follow?]
        · simp [Mode.run?, Mode.silent?, Mode.follow?, backslash, apostrophe]
  rw [Dialect.quoteString, String.toList_ofList, List.cons_append]
  refine .of_run (m := .closing '\'' s.toList) ?_ ?_
  · rw [run_cons begun, run_append held,
      run_cons (n := .closing '\'' s.toList) (by simp [Mode.follow?])]
    rfl
  · cases d <;> simp [Mode.finish?, isNameQuote, isStringQuote, Dialect.identifierQuote]

example : lex .mysql (Dialect.mysql.quoteString "it's \\") = some [.string "it's \\"] := by
  decide +kernel

theorem plain_ascii {c : Char} (h : (c.isAlphanum || c == '_') = true) : c.toNat < 128 := by
  delta Char.isAlphanum Char.isAlpha Char.isUpper Char.isLower Char.isDigit at h
  simp only [ge_iff_le, UInt32.le_iff_toNat_le, Char.toNat_val, Bool.or_eq_true, Bool.and_eq_true,
    decide_eq_true_eq, beq_iff_eq] at h
  rcases h with ((upper | lower) | digit) | rfl
  · exact Nat.lt_of_le_of_lt upper.2 (by decide)
  · exact Nat.lt_of_le_of_lt lower.2 (by decide)
  · exact Nat.lt_of_le_of_lt digit.2 (by decide)
  · decide

theorem upper_plain {c : Char} (h : (c.isAlphanum || c == '_') = true) :
    Text.upperChar c = [c.toUpper] ∧ isWordChar c.toUpper = true := by
  have ascii := plain_ascii h
  have word : ∀ n < 128, ((Char.ofNat n).isAlphanum || Char.ofNat n == '_') = true →
      isWordChar (Char.ofNat n).toUpper = true := by
    decide
  exact ⟨Text.upperChar_ascii ascii, by simpa using word c.toNat ascii (by simpa using h)⟩

theorem begin_upper (d : Dialect) {c : Char} (h : (c.isAlpha || c == '_') = true) :
    begin? d c.toUpper = some ([], .word [c.toUpper]) := by
  have plain : (c.isAlphanum || c == '_') = true := by
    simp only [Char.isAlphanum, Bool.or_eq_true] at h ⊢
    exact h.imp_left .inl
  have begun : ∀ n < 128, ((Char.ofNat n).isAlpha || Char.ofNat n == '_') = true →
      begin? d (Char.ofNat n).toUpper = some ([], .word [(Char.ofNat n).toUpper]) := by
    cases d <;> decide
  simpa using begun c.toNat (plain_ascii plain) (by simpa using h)

theorem function_reads {name : String} (h : Text.isPlainName name = true) :
    Reads d (Text.upper name).toList [.word (Text.upper name)] := by
  rw [Text.upper, String.toList_ofList]
  unfold Text.isPlainName at h
  cases chars : name.toList with
  | nil =>
    rw [chars] at h
    cases h
  | cons c rest =>
    simp only [chars, Bool.and_eq_true, List.all_eq_true] at h
    obtain ⟨first, others⟩ := h
    have head : (c.isAlphanum || c == '_') = true := by
      simp only [Char.isAlphanum, Bool.or_eq_true] at first ⊢
      exact first.imp_left .inl
    have tail : ∀ c ∈ rest.flatMap Text.upperChar, isWordChar c = true := by
      intro x hx
      obtain ⟨y, hy, hx⟩ := List.mem_flatMap.mp hx
      obtain ⟨upper, word⟩ := upper_plain (others y hy)
      rw [upper, List.mem_singleton] at hx
      rw [hx]
      exact word
    rw [List.flatMap_cons, (upper_plain head).1, List.singleton_append]
    refine .of_run (m := .word (c.toUpper :: rest.flatMap Text.upperChar)) ?_ rfl
    rw [run_cons (m := .between) (begin_upper d first), run_word tail]
    rfl

theorem keyword_reads (d : Dialect) (word : Keyword) :
    Reads d word.text.toList (word.words.map .word) := by
  have is : Reads d "IS".toList [.word "IS"] := .of_run rfl rfl
  have not : Reads d "NOT".toList [.word "NOT"] := .of_run rfl rfl
  have null : Reads d "NULL".toList [.word "NULL"] := .of_run rfl rfl
  have by' : Reads d "BY".toList [.word "BY"] := .of_run rfl rfl
  cases word with
  | groupBy => exact .spaced (.of_run rfl rfl : Reads d "GROUP".toList [.word "GROUP"]) by'
  | orderBy => exact .spaced (.of_run rfl rfl : Reads d "ORDER".toList [.word "ORDER"]) by'
  | isNull => exact is.spaced null
  | isNotNull => exact is.spaced (not.spaced null)
  | _ => exact .of_run rfl rfl

theorem symbol_reads (d : Dialect) (s : Symbol) : Reads d s.text.toList [.symbol s.text] := by
  cases s with
  | comma | openParen | closeParen | openBracket | closeBracket =>
    exact .punctuation (by decide) .nil
  | _ => exact .of_run rfl rfl

theorem regex_reads_back (d : Dialect) (negated caseInsensitive : Bool) :
    Reads d (d.regexText negated caseInsensitive).toList
      ((Token.regexMatch negated caseInsensitive).lexemes d) := by
  have regexp : Reads d "REGEXP".toList [.word "REGEXP"] := .of_run rfl rfl
  cases d with
  | mysql =>
    cases negated
    · exact regexp
    · show Reads .mysql "NOT REGEXP".toList [.word "NOT", .word "REGEXP"]
      exact .spaced (.of_run rfl rfl : Reads .mysql "NOT".toList [.word "NOT"]) regexp
  | postgres | duckdb => cases negated <;> cases caseInsensitive <;> exact .of_run rfl rfl

theorem indent_reads (n : Nat) {cs : List Char} {ls : List Lexeme} (h : Reads d cs ls) :
    Reads d (List.replicate n ' ' ++ cs) ls := by
  induction n with
  | zero => exact h
  | succ n ih => exact .blank (by decide) ih

theorem token_reads {t : Token} (h : t.Readable) : Reads d (t.text d).toList (t.lexemes d) := by
  cases t with
  | keyword word => exact keyword_reads d word
  | symbol s => exact symbol_reads d s
  | regexMatch negated caseInsensitive => exact regex_reads_back d negated caseInsensitive
  | space =>
    rw [Token.text]
    exact .blank (c := ' ') (by decide) .nil
  | newline =>
    rw [Token.text]
    exact .blank (c := '\n') (by decide) .nil
  | indent level =>
    have blanks := indent_reads (d := d) (2 * level) .nil
    rw [Token.text, String.toList_ofList]
    rwa [List.append_nil] at blanks
  | ident name => exact name_reads d name
  | qualifiedIdent schema name =>
    cases schema with
    | none => exact name_reads d name
    | some schema =>
      rw [Token.text, String.toList_append, String.toList_append, List.append_assoc]
      exact qualified_reads d schema name
  | int n => exact number_reads (int_isNumber n)
  | float x => exact number_reads (float_isNumber h)
  | string s => exact string_reads d s
  | bool b =>
    cases d with
    | mysql => cases b <;> exact number_reads ⟨.whole, rfl, rfl⟩
    | postgres | duckdb => cases b <;> exact .of_run rfl rfl
  | functionName name => exact function_reads h
  | raw sql =>
    cases h
    have digits : Digits allRows.toList := ⟨by decide, forall_of_all (by decide)⟩
    exact number_reads (digits_isNumber digits .start)

end

end ReadPlan.Sql
