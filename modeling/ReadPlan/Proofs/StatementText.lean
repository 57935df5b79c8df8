import ReadPlan.Proofs.LooseParts
import ReadPlan.Proofs.PlanJoins
import ReadPlan.Proofs.TokenText

namespace ReadPlan

namespace Sql

/-- What goes into a statement without quotes when no fragment does. -/
def Loose.IsTame : Loose → Prop
  | .float _ => True
  | .function name => Text.isPlainName name = true
  | .raw _ => False

open Lexer

def ReadsBack (d : Dialect) (ts : List Token) : Prop :=
  Reads d (tokensText d ts).toList (ts.flatMap (Token.lexemes d))

section

variable {d : Dialect}

theorem tokensText_cons (d : Dialect) (t : Token) (ts : List Token) :
    (tokensText d (t :: ts)).toList = (t.text d).toList ++ (tokensText d ts).toList := by
  simp [tokensText]

theorem tokensText_append (d : Dialect) (ts us : List Token) :
    (tokensText d (ts ++ us)).toList = (tokensText d ts).toList ++ (tokensText d us).toList := by
  simp [tokensText]

theorem setApart_of_startsApart {ts : List Token} (h : startsApart ts = true) :
    SetApart (tokensText d ts).toList := by
  cases ts with
  | nil => simp [SetApart, tokensText]
  | cons t ts =>
    have first : ∃ c cs, (t.text d).toList = c :: cs ∧ c ∈ separators := by
      cases t with
      | space => exact ⟨' ', [], by rw [Token.text]; rfl, by decide⟩
      | newline => exact ⟨'\n', [], by rw [Token.text]; rfl, by decide⟩
      | indent level =>
        cases level with
        | zero => cases h
        | succ n =>
          refine ⟨' ', List.replicate (2 * n + 1) ' ', ?_, by decide⟩
          rw [Token.text, String.toList_ofList]
          rfl
      | symbol s =>
        cases s with
        | comma => exact ⟨',', [], by rw [Token.text]; rfl, by decide⟩
        | openParen => exact ⟨'(', [], by rw [Token.text]; rfl, by decide⟩
        | openBracket => exact ⟨'[', [], by rw [Token.text]; rfl, by decide⟩
        | _ => cases h
      | _ => cases h
    obtain ⟨c, cs, text, separator⟩ := first
    simpa [SetApart, tokensText_cons, text] using separator

namespace ReadsBack

theorem nil : ReadsBack d [] :=
  Reads.nil

theorem single {t : Token} (h : t.Readable) : ReadsBack d [t] := by
  have read := token_reads (d := d) h
  simpa [ReadsBack, tokensText] using read

theorem append {ts us : List Token} (ht : ReadsBack d ts) (hu : ReadsBack d us)
    (apart : SetApart (tokensText d us).toList) : ReadsBack d (ts ++ us) := by
  rw [ReadsBack, tokensText_append, List.flatMap_append]
  exact Reads.append ht hu apart

theorem mark {s : Symbol} {c : Char} (text : s.text = String.singleton c) (hc : c ∈ punctuation)
    {ts : List Token} (h : ReadsBack d ts) : ReadsBack d (.symbol s :: ts) := by
  rw [ReadsBack, tokensText_cons, List.flatMap_cons, Token.text, Token.lexemes, text]
  simpa using Reads.punctuation hc h

theorem gap {t : Token} {ts : List Token} (ht : t.isGap = true) (h : ReadsBack d ts) :
    ReadsBack d (t :: ts) := by
  cases t with
  | space =>
    rw [ReadsBack, tokensText_cons, Token.text]
    exact Reads.blank (c := ' ') (by decide) h
  | newline =>
    rw [ReadsBack, tokensText_cons, Token.text]
    exact Reads.blank (c := '\n') (by decide) h
  | indent level =>
    rw [ReadsBack, tokensText_cons, Token.text, String.toList_ofList]
    exact indent_reads (2 * level) h
  | symbol s =>
    cases s with
    | comma => exact mark (c := ',') rfl (by decide) h
    | _ => cases ht
  | _ => cases ht

theorem enclosed {opening closing : Symbol} {o c : Char} (ho : opening.text = String.singleton o)
    (hc : closing.text = String.singleton c) (opens : o ∈ punctuation) (closes : c ∈ punctuation)
    {ts : List Token} (h : ReadsBack d ts) :
    ReadsBack d (.symbol opening :: ts ++ [.symbol closing]) := by
  have last : ReadsBack d [.symbol closing] := mark hc closes nil
  refine mark ho opens (h.append last ?_)
  simpa [SetApart, tokensText, Token.text, hc, separators] using .inr closes

theorem composable : Composable Loose.IsTame fun ts =>
    (∀ t ∈ ts, t.fault? = none) → ReadsBack d ts where
  nil _ := nil
  fixed {t} fixed _ := by
    refine single ?_
    cases t with
    | float x => cases fixed
    | functionName name =>
      simp only [Token.isFixed, Bool.or_eq_true, beq_iff_eq] at fixed
      rcases fixed with rfl | rfl <;> rfl
    | raw sql => simpa [Token.isFixed, Token.Readable] using fixed
    | _ => trivial
  loose {l} tame faultless := by
    refine single ?_
    cases l with
    | float x => cases x <;> simp_all [Loose.token, Token.fault?, Token.Readable, Binary64.isFinite]
    | function name => exact tame
    | raw sql => cases tame
  gap ht h faultless := gap ht (h (List.forall_mem_cons.mp faultless).2)
  append ht apart hu faultless := by
    obtain ⟨first, second⟩ := List.forall_mem_append.mp faultless
    exact (ht first).append (hu second) (setApart_of_startsApart apart)
  parens h faultless := by
    refine enclosed (o := '(') (c := ')') rfl rfl (by decide) (by decide) (h fun t ht => ?_)
    exact faultless t (by simp [ht])
  brackets h faultless := by
    refine enclosed (o := '[') (c := ']') rfl rfl (by decide) (by decide) (h fun t ht => ?_)
    exact faultless t (by simp [ht])
  column {table column} _ := by
    simpa [ReadsBack, tokensText, Token.text, Token.lexemes, Symbol.text] using
      qualified_reads d table column
  star {table} _ := by
    have every : Reads d ['*'] [.symbol "*"] := symbol_reads d .star
    simpa [ReadsBack, tokensText, Token.text, Token.lexemes, Symbol.text] using
      member_reads d table every (by simp) (by simp)

end ReadsBack

theorem query_readsBack {q : Query} (tame : ∀ l ∈ q.loose, l.IsTame) {sql : String}
    (written : q.text d = .ok sql) :
    lex d sql = some ((q.tokens d .lines).flatMap (Token.lexemes d)) := by
  unfold Query.text write at written
  split at written
  · cases written
  · rename_i faultless
    cases written
    rw [List.findSome?_eq_none_iff] at faultless
    exact lex_of_reads (q.composed d ReadsBack.composable .lines tame faultless)

end

end Sql

theorem operand_tame (operand : Operand) : ∀ l ∈ operand.loose, l.IsTame := by
  intro l hl
  obtain ⟨v, -, hl⟩ := List.mem_flatMap.mp hl
  cases literal : Sql.Literal.ofJson v <;> simp_all [Sql.Literal.loose, Sql.Loose.IsTame]

def Predicate.IsTame (p : Predicate) : Prop :=
  ∀ l ∈ p.loose, l.IsTame

theorem compare_tame (f : Frame) (key : String) (bound : BoundField) :
    MakesEach (fun _ => True) Predicate.IsTame (f.compare key bound) := by
  intro op v p _ h
  simp only [Frame.compare, bind_eq_ok, pure_eq_ok] at h
  obtain ⟨operand, -, rfl⟩ := h
  split <;> exact operand_tame operand

theorem having_compare_tame (f : Frame) (key : String) {a : Aggregate}
    (plain : Text.isPlainName a.function = true) :
    MakesEach (fun _ => True) Predicate.IsTame (Having.compare f key a) := by
  intro op v p _ h
  simp only [Having.compare, bind_eq_ok, pure_eq_ok] at h
  obtain ⟨operand, -, rfl⟩ := h
  exact List.forall_mem_cons.mpr ⟨plain, operand_tame operand⟩

theorem globalSearch_tame (filter : Filter) :
    predicatesEach Predicate.IsTame filter.globalSearch.toList := by
  refine combine_each .or (predicatesEach_iff.mpr ?_)
  simp [Predicate.Each, Predicate.IsTame, Predicate.loose]

theorem aggregates_plain {f : Frame} {members : Json.Members} {aggregates : List Aggregate}
    (h : members.mapM (Aggregate.ofMember f) = .ok aggregates) :
    ∀ a ∈ aggregates, Text.isPlainName a.function = true := by
  intro a ha
  obtain ⟨member, -, made⟩ := source_of_mapM h a ha
  obtain ⟨plain, _, _, -, -, rfl⟩ := aggregate_ofMember_eq_ok.mp made
  exact plain

theorem plan_tame {c : Catalog} {r : Request} {p : Plan} (h : Plan.ofRequest c .reject r = .ok p) :
    ∀ l ∈ p.loose, l.IsTame := by
  obtain ⟨root, -, h⟩ := ofRequest_eq_ok.mp h
  simp only [Plan.ofRoot, bind_eq_ok, pure_eq_ok] at h
  obtain ⟨filter, -, predicate, compiled, projection, -, aggregates, made, explicit, -,
    conditions, -, condition, compiledToo, sort, -, rfl⟩ := h
  have plain := aggregates_plain made
  have filtered : predicatesEach Predicate.IsTame predicate.toList := by
    unfold Request.compileFilters at compiled
    split at compiled
    · cases compiled
      exact globalSearch_tame filter
    · refine filter_compile_each ⟨compare_tame _, ?_⟩ (fun _ _ => trivial) compiled
      intro s key sql p made
      cases made
  have grouped : predicatesEach Predicate.IsTame condition.toList :=
    having_compile_each (fun key a ha => having_compare_tame _ key (plain a ha))
      (fun _ _ => trivial) compiledToo
  simp only [Plan.loose, List.forall_mem_append, List.forall_mem_map]
  exact ⟨plain, predicatesLoose_each _ filtered, predicatesLoose_each _ grouped⟩

/-- The rows statement of a request without fragments splits into the lexemes of its tokens. Every
name and every string comes back as it was, whatever characters it holds. -/
theorem statement_reads_back {c : Catalog} {r : Request} {p : Plan} {d : Dialect} {sql : String}
    (compiled : Plan.ofRequest c .reject r = .ok p) (rendered : p.rowsStatement c d = .ok sql) :
    ∃ q, p.query c d = .ok q ∧
      Sql.lex d sql = some ((q.tokens d .lines).flatMap (Sql.Token.lexemes d)) := by
  simp only [Plan.rowsStatement, bind_eq_ok] at rendered
  obtain ⟨q, made, rendered⟩ := rendered
  split at rendered
  · rename_i written
    cases rendered
    refine ⟨q, made, Sql.query_readsBack ?_ written⟩
    exact fun l hl => plan_tame compiled l (Plan.query_loose made hl)
  · cases rendered

def quotedRequest : Request where
  modelName := "film"
  filters := .obj [
    ("title", .obj [("eq", .str "\\' OR 1 = 1 -- ")]),
    ("language", .obj [("name", .obj [("like", .str "'); DROP TABLE film; /*")])])]
  select := some ["title"]
  page := ⟨none, some 10⟩
  sorting := none
  groupBy := []
  aggregates := some [("Max", .str "length")]
  having := some (.obj [("Max_length", .obj [("gt", .float (.finite true 241 (-1)))])])
  joinOptions := []
  globalSearch := false

theorem film_statement_reads_back :
    ∃ p sql q, Plan.ofRequest filmCatalog .reject quotedRequest = .ok p ∧
      p.rowsStatement filmCatalog .mysql = .ok sql ∧ p.query filmCatalog .mysql = .ok q ∧
      Sql.lex .mysql sql = some ((q.tokens .mysql .lines).flatMap (Sql.Token.lexemes .mysql)) := by
  have runs : ((Plan.ofRequest filmCatalog .reject quotedRequest).bind
      (Plan.rowsStatement filmCatalog .mysql)).isOk = true := by
    decide +kernel
  cases compiled : Plan.ofRequest filmCatalog .reject quotedRequest with
  | error e =>
    rw [compiled] at runs
    cases runs
  | ok p =>
    cases rendered : p.rowsStatement filmCatalog .mysql with
    | error e =>
      have fails : (p.rowsStatement filmCatalog .mysql).isOk = true := by
        rw [compiled] at runs
        exact runs
      rw [rendered] at fails
      cases fails
    | ok sql =>
      obtain ⟨q, made, read⟩ := statement_reads_back compiled rendered
      exact ⟨p, sql, q, rfl, rendered, made, read⟩

end ReadPlan
