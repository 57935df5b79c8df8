import ReadPlan.Proofs.StatementText
import ReadPlan.Service.Records

namespace ReadPlan

def greatestCount : Nat := 0x7fffffffffffffff

def Dialect.mostRows : Dialect → Nat
  | .mysql => 0xffffffffffffffff
  | .postgres | .duckdb => greatestCount

namespace Page

/-- The rows of a result that a page holds. -/
def rows {α : Type} (p : Page) (result : List α) : List α :=
  let later := result.drop (p.offset.getD 0)
  match p.limit with
  | none => later
  | some n => later.take n

/-- The page that the clause of a dialect names by its numbers. -/
def written (d : Dialect) (p : Page) : Page :=
  let count (n : Nat) := min n greatestCount
  match d, p.limit, p.offset with
  | .mysql, none, some k => ⟨some Dialect.mysql.mostRows, some (count k)⟩
  | _, limit, offset => ⟨limit.map count, offset.map count⟩

end Page

namespace Sql

def pageClause (d : Dialect) (p : Page) : String :=
  tokensText d (pageTokens d p)

def pageEnding (d : Dialect) (p : Page) : String :=
  if p.isWhole then "" else "\n" ++ pageClause d p

/-! The clause as the dialects understand it. -/

def readRows? (d : Dialect) (number : String) : Option Nat :=
  let n := Nat.ofDigitChars 10 number.toList 0
  if number.toList.all Char.isDigit && n ≤ d.mostRows then some n else none

/-- An offset needs a limit in one dialect. -/
def readPage? (d : Dialect) : List Lexeme → Option Page
  | [] => some .whole
  | [.word "LIMIT", .number n] => do return ⟨← readRows? d n, none⟩
  | [.word "LIMIT", .number n, .word "OFFSET", .number k] => do
    return ⟨← readRows? d n, ← readRows? d k⟩
  | [.word "OFFSET", .number k] =>
    match d with
    | .mysql => none
    | .postgres | .duckdb => do return ⟨none, ← readRows? d k⟩
  | _ => none

end Sql

/-- The statements of a plan fail for one reason, or the rows statement is that of all rows and what
selects the page, and the total counts all rows. -/
inductive PagesLast (c : Catalog) (d : Dialect) (p : Plan) : Prop
  | refused (e : QueryError) (rows : p.rowsStatement c d = .error e)
    (all : p.withoutPage.rowsStatement c d = .error e) (total : p.totalStatement c d = .error e)
  | written (sql : String) (all : p.withoutPage.rowsStatement c d = .ok sql)
    (rows : p.rowsStatement c d = .ok (sql ++ Sql.pageEnding d (p.page.getD .whole)))
    (total : p.totalStatement c d =
      .ok ("SELECT COUNT(*) FROM (" ++ sql ++ ") AS " ++ d.quoteIdentifier "subquery"))

namespace Sql

variable {d : Dialect}

theorem pageTokens_faultless (d : Dialect) (p : Page) : ∀ t ∈ pageTokens d p, t.fault? = none := by
  obtain ⟨limit, offset⟩ := p
  cases limit <;> cases offset <;> cases d <;>
    simp [pageTokens, limitTokens, offsetTokens, Token.fault?]

theorem write_append (ts : List Token) {us : List Token} (faultless : ∀ t ∈ us, t.fault? = none) :
    write d (ts ++ us) = (· ++ tokensText d us) <$> write d ts := by
  have later : us.findSome? Token.fault? = none := List.findSome?_eq_none_iff.mpr faultless
  rw [write, write, List.findSome?_append, later, Option.or_none]
  cases ts.findSome? Token.fault? with
  | some fault => rfl
  | none =>
    have text : tokensText d (ts ++ us) = tokensText d ts ++ tokensText d us := by
      rw [← String.toList_inj, String.toList_append, tokensText_append]
    rw [text]
    rfl

theorem query_text_paged (d : Dialect) (q : Query) (page : Page) :
    Query.text d { q with page } =
      (· ++ pageEnding d page) <$> Query.text d { q with page := .whole } := by
  have tokens : Query.tokens d .lines { q with page } =
      Query.tokens d .lines { q with page := .whole } ++
        (if page.isWhole then [] else .newline :: pageTokens d page) := by
    simp [Query.tokens, Layout.clauseBreak, Page.isWhole, Page.whole]
  have ending : tokensText d (if page.isWhole then [] else .newline :: pageTokens d page) =
      pageEnding d page := by
    unfold pageEnding pageClause tokensText
    split
    · rfl
    · rw [List.map_cons, String.join_cons]
      rfl
  rw [Query.text, tokens, write_append, ending, Query.text]
  split
  · simp
  · exact List.forall_mem_cons.mpr ⟨rfl, pageTokens_faultless d page⟩

theorem countStatement_eq (d : Dialect) (sql : String) :
    countStatement d sql =
      "SELECT COUNT(*) FROM (" ++ sql ++ ") AS " ++ d.quoteIdentifier "subquery" := by
  have upper : Text.upper "count" = "COUNT" := by
    decide +kernel
  simp only [countStatement, tokensText, callTokens, countAlias, List.map_append, List.map_cons,
    Token.text, upper, ← String.toList_inj]
  simp [Keyword.text, Symbol.text, String.join]

theorem rowCount_text (n : Nat) : toString (rowCount n) = (min n greatestCount).repr := by
  have count : rowCount n = Int.ofNat (min n greatestCount) := by
    simp only [rowCount, greatestCount, Int.ofNat_eq_natCast]
    omega
  rw [count]
  rfl

theorem readRows_repr {d : Dialect} {n : Nat} (few : n ≤ d.mostRows) :
    readRows? d n.repr = some n := by
  have digits : (Nat.toDigits 10 n).all Char.isDigit = true :=
    List.all_eq_true.mpr (toDigits_digits n).2
  rw [readRows?, Nat.toList_repr, Nat.ofDigitChars_ten_toDigits]
  simp [digits, few]

theorem readRows_count (d : Dialect) (n : Nat) :
    readRows? d (toString (rowCount n)) = some (min n greatestCount) := by
  have bound : greatestCount ≤ d.mostRows := by
    cases d <;> decide
  rw [rowCount_text]
  exact readRows_repr (Nat.le_trans (Nat.min_le_right n _) bound)

theorem readRows_all : readRows? .mysql allRows = some Dialect.mysql.mostRows := by
  have text : allRows = Dialect.mysql.mostRows.repr := by
    decide +kernel
  rw [text]
  exact readRows_repr (Nat.le_refl _)

theorem lex_pageClause (d : Dialect) (p : Page) :
    lex d (pageClause d p) = some ((pageTokens d p).flatMap (Token.lexemes d)) :=
  Lexer.lex_of_reads (ReadsBack.composable.page d p (pageTokens_faultless d p))

theorem readPage_written (d : Dialect) (p : Page) :
    (lex d (pageClause d p)).bind (readPage? d) = some (p.written d) := by
  rw [lex_pageClause, Option.bind_some]
  obtain ⟨_ | n, _ | k⟩ := p
  · cases d <;> rfl
  · have offset : (offsetTokens k).flatMap (Token.lexemes d) =
        [.word "OFFSET", .number (toString (rowCount k))] := rfl
    cases d with
    | mysql =>
      have all : (pageTokens .mysql ⟨none, some k⟩).flatMap (Token.lexemes .mysql) =
          [.word "LIMIT", .number allRows, .word "OFFSET", .number (toString (rowCount k))] := rfl
      simp only [all, readPage?, readRows_all, readRows_count]
      rfl
    | postgres | duckdb =>
      simp only [pageTokens, offset, readPage?, readRows_count]
      rfl
  · have limit : (pageTokens d ⟨some n, none⟩).flatMap (Token.lexemes d) =
        [.word "LIMIT", .number (toString (rowCount n))] := rfl
    simp only [limit, readPage?, readRows_count]
    cases d <;> rfl
  · have both : (pageTokens d ⟨some n, some k⟩).flatMap (Token.lexemes d) =
        [.word "LIMIT", .number (toString (rowCount n)), .word "OFFSET",
          .number (toString (rowCount k))] := rfl
    simp only [both, readPage?, readRows_count]
    cases d <;> rfl

end Sql

/-! A result is not long enough to tell a count from the greatest one. -/

section

variable {α : Type} {result : List α} {most : Nat}

theorem take_count (h : result.length ≤ most) (n : Nat) :
    result.take (min n most) = result.take n := by
  rw [List.take_eq_take_iff]
  omega

theorem drop_count (h : result.length ≤ most) (n : Nat) :
    result.drop (min n most) = result.drop n := by
  by_cases few : n ≤ most
  · rw [Nat.min_eq_left few]
  · rw [List.drop_eq_nil_of_le (by omega), List.drop_eq_nil_of_le (by omega)]

theorem Page.written_rows (d : Dialect) (p : Page) (h : result.length ≤ greatestCount) :
    (p.written d).rows result = p.rows result := by
  have later (k : Nat) : (result.drop k).length ≤ greatestCount := by
    rw [List.length_drop]
    omega
  obtain ⟨_ | n, _ | k⟩ := p
  · cases d <;> rfl
  · have rest : (result.drop (min k greatestCount)).take Dialect.mysql.mostRows = result.drop k := by
      rw [drop_count h, List.take_of_length_le]
      exact Nat.le_trans (later k) (by decide)
    cases d with
    | mysql => exact rest
    | postgres | duckdb => exact drop_count h k
  · cases d <;> exact take_count h n
  · have both : (result.drop (min k greatestCount)).take (min n greatestCount) =
        (result.drop k).take n := by
      rw [drop_count h, take_count (later k)]
    cases d <;> exact both

end

namespace Plan

variable {c : Catalog} {d : Dialect} {p : Plan}

theorem query_page (c : Catalog) (d : Dialect) (p : Plan) :
    p.query c d = (fun q => { q with page := p.page.getD .whole }) <$> p.withoutPage.query c d := by
  simp only [query, withoutPage, map_bind, map_pure]
  rfl

theorem rowsStatement_page (c : Catalog) (d : Dialect) (p : Plan) :
    p.rowsStatement c d =
      (· ++ Sql.pageEnding d (p.page.getD .whole)) <$> p.withoutPage.rowsStatement c d := by
  have whole : p.withoutPage.query c d =
      (fun q => { q with page := .whole }) <$> p.withoutPage.query c d :=
    query_page c d p.withoutPage
  rw [rowsStatement, rowsStatement, query_page, whole]
  cases p.withoutPage.query c d with
  | error e => rfl
  | ok q =>
    simp only [Except.map_ok, ok_bind]
    rw [Sql.query_text_paged]
    cases Sql.Query.text d { q with page := .whole } with
    | error fault => rfl
    | ok sql => rfl

theorem pages_last (c : Catalog) (d : Dialect) (p : Plan) : PagesLast c d p := by
  have total : p.totalStatement c d = Sql.countStatement d <$> p.withoutPage.rowsStatement c d := by
    rw [totalStatement]
    rfl
  have rows := rowsStatement_page c d p
  cases all : p.withoutPage.rowsStatement c d with
  | error e =>
    rw [all] at rows total
    exact .refused e rows all total
  | ok sql =>
    rw [all] at rows total
    rw [Except.map_ok, Sql.countStatement_eq] at total
    exact .written sql all rows total

theorem ofRequest_page (c : Catalog) (policy : FragmentPolicy) (r : Request) (page : Page) :
    withoutPage <$> ofRequest c policy { r with page } = withoutPage <$> ofRequest c policy r := by
  unfold ofRequest
  cases c.entity? r.modelName with
  | none => rfl
  | some root =>
    simp only [ofRoot, map_bind, map_pure]
    rfl

theorem totalStatement_request (c : Catalog) (d : Dialect) (policy : FragmentPolicy) (r : Request)
    (page : Page) :
    ofRequest c policy { r with page } >>= totalStatement c d =
      ofRequest c policy r >>= totalStatement c d := by
  have pageless (x : Except QueryError Plan) :
      x >>= totalStatement c d = (withoutPage <$> x) >>= totalStatement c d := by
    rw [bind_map_left]
    rfl
  rw [pageless, ofRequest_page, ← pageless]

end Plan

theorem RecordService.count_statement {Transaction : Type} (s : RecordService)
    (engine : Engine Transaction) (r : Request) (tx : Option Transaction) :
    (·.2.sql) <$> s.count engine r tx =
      Plan.ofRequest s.catalog s.policy r >>= Plan.totalStatement s.catalog s.dialect := by
  simp only [RecordService.count, map_bind, map_pure, bind_pure]

/-- Only the end of the rows statement depends on the page, and it selects the rows of the page from
every result that machine numbers can count. -/
theorem page_only_ends_rows (c : Catalog) (d : Dialect) :
    (∀ p : Plan, PagesLast c d p) ∧
      (∀ page : Page, ∃ read,
        (Sql.lex d (Sql.pageClause d page)).bind (Sql.readPage? d) = some read ∧
          ∀ {α : Type} (result : List α), result.length ≤ greatestCount →
            read.rows result = page.rows result) ∧
      (∀ policy (r : Request) (page other : Page),
        Plan.ofRequest c policy { r with page } >>= Plan.totalStatement c d =
          Plan.ofRequest c policy { r with page := other } >>= Plan.totalStatement c d) ∧
      ∀ {Transaction : Type} (engine : Engine Transaction) policy depth r tx,
        (·.2.sql) <$> RecordService.count ⟨c, d, policy, depth⟩ engine r tx =
          Plan.ofRequest c policy r >>= Plan.totalStatement c d := by
  refine ⟨Plan.pages_last c d, ?_, ?_, ?_⟩
  · intro page
    exact ⟨page.written d, Sql.readPage_written d page, fun _ short => page.written_rows d short⟩
  · intro policy r page other
    have here := Plan.totalStatement_request c d policy r page
    have there := Plan.totalStatement_request c d policy r other
    exact here.trans there.symm
  · intro Transaction engine policy depth r tx
    exact RecordService.count_statement _ engine r tx

def laterFilms : Plan where
  entity := "film"
  projection := ⟨["title"], false⟩
  predicate := none
  joins := []
  groupBy := []
  having := none
  aggregates := []
  sort := none
  page := some ⟨none, some 2⟩

theorem later_films_statement :
    (∃ sql, laterFilms.withoutPage.rowsStatement filmCatalog .mysql = .ok sql ∧
      laterFilms.rowsStatement filmCatalog .mysql =
        .ok (sql ++ "\nLIMIT 18446744073709551615 OFFSET 2")) ∧
      ∃ read, (Sql.lex .mysql (Sql.pageClause .mysql ⟨none, some 2⟩)).bind (Sql.readPage? .mysql) =
        some read ∧ read.rows ["Alien", "Brazil", "Cube"] = ["Cube"] := by
  obtain ⟨pages, clauses, -⟩ := page_only_ends_rows filmCatalog .mysql
  constructor
  · have ending : Sql.pageEnding .mysql ⟨none, some 2⟩ =
        "\nLIMIT 18446744073709551615 OFFSET 2" := by
      decide +kernel
    cases pages laterFilms with
    | refused e rows =>
      have written : (laterFilms.rowsStatement filmCatalog .mysql).isOk = true := by
        decide +kernel
      rw [rows] at written
      cases written
    | written sql all rows => exact ⟨sql, all, ending ▸ rows⟩
  · obtain ⟨read, understood, same⟩ := clauses ⟨none, some 2⟩
    exact ⟨read, understood, same _ (by decide)⟩

end ReadPlan
