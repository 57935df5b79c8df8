import ReadPlan.Proofs.PageClauses
import ReadPlan.Service.Records
import Mathlib.Data.List.Perm.Subperm

namespace ReadPlan

variable {Transaction α : Type}

/-- How far a statement has come, and what the engine was asked for it. -/
inductive Task.Stands (t : Task Transaction α) : Progress α → List (Statement Transaction) → Prop
  | unasked : t.Stands .unasked []
  | unmade {e : QueryError} (text : t.text = .error e) : t.Stands (.failed e) []
  | waiting {sql : String} (text : t.text = .ok sql) : t.Stands (.waiting sql) [t.statement sql]
  | answered {sql : String} {a : α} (text : t.text = .ok sql) (answer : t.answer sql = .ok a) :
    t.Stands (.answered a) [t.statement sql]
  | refused {sql fault : String} (text : t.text = .ok sql) (answer : t.answer sql = .error fault) :
    t.Stands (.failed (.execution fault)) [t.statement sql]

def Retrieval.Stands (r : Retrieval Transaction) (x : Retrieval.State Transaction) : Prop :=
  ∃ rows count, r.rows.Stands x.rows rows ∧ r.count.Stands x.count count ∧
    x.asked.Perm (rows ++ count)

namespace Task

variable {t : Task Transaction α}

theorem receive_stands {sql : String} (text : t.text = .ok sql) (ready : Bool) :
    t.Stands (.receive sql (if ready then some (t.answer sql) else none)) [t.statement sql] := by
  cases ready with
  | false => exact .waiting text
  | true =>
    cases answer : t.answer sql with
    | error fault =>
      simp only [if_true]
      exact .refused text answer
    | ok a =>
      simp only [if_true]
      exact .answered text answer

theorem Stands.look {p : Progress α} {asked : List (Statement Transaction)} (h : t.Stands p asked)
    (ready : Bool) : t.Stands (t.look ready p).2 (asked ++ (t.look ready p).1) := by
  cases h with
  | unasked =>
    cases text : t.text with
    | error e =>
      simp only [Task.look, text]
      exact .unmade text
    | ok sql =>
      simp only [Task.look, text, List.nil_append]
      exact receive_stands text ready
  | waiting text => exact receive_stands text ready
  | unmade text => exact .unmade text
  | answered text answer => exact .answered text answer
  | refused text answer => exact .refused text answer

theorem Stands.sublist {p : Progress α} {asked : List (Statement Transaction)}
    (h : t.Stands p asked) {sql : String} (text : t.text = .ok sql) :
    asked.Sublist [t.statement sql] := by
  cases h with
  | unasked => exact List.nil_sublist _
  | unmade other => cases text.symm.trans other
  | waiting other | answered other | refused other =>
    cases text.symm.trans other
    exact List.Sublist.refl _

theorem Stands.answer_eq {p : Progress α} {asked : List (Statement Transaction)}
    (h : t.Stands p asked) {sql : String} (text : t.text = .ok sql) {a : α}
    (given : p.answer? = some a) : asked = [t.statement sql] ∧ t.answer sql = .ok a := by
  cases h with
  | answered other answer =>
    cases text.symm.trans other
    cases given
    exact ⟨rfl, answer⟩
  | unasked | unmade | waiting | refused => cases given

theorem Stands.failure_eq {p : Progress α} {asked : List (Statement Transaction)}
    (h : t.Stands p asked) {sql : String} (text : t.text = .ok sql) {e : QueryError}
    (failed : p.failure? = some e) : asked = [t.statement sql] ∧
      ∃ fault, e = .execution fault ∧ t.answer sql = .error fault := by
  cases h with
  | refused other answer =>
    cases text.symm.trans other
    cases failed
    exact ⟨rfl, _, rfl, answer⟩
  | unmade other => cases text.symm.trans other
  | unasked | waiting | answered => cases failed

end Task

namespace Retrieval

variable {r : Retrieval Transaction}

theorem start_stands : r.Stands .start :=
  ⟨[], [], .unasked, .unasked, List.Perm.nil⟩

theorem turn_stands {x : State Transaction} (h : r.Stands x) (t : Turn) :
    r.Stands (r.turn x t) := by
  by_cases failed : x.failure?.isSome
  · rw [turn_failed r t failed]
    exact h
  · obtain ⟨rows, count, first, second, asked⟩ := h
    obtain ⟨kind, ready⟩ := t
    cases kind with
    | rows =>
      rw [turn_rows r ready failed]
      refine ⟨_, count, first.look ready, second, ?_⟩
      have behind : (x.asked ++ (r.rows.look ready x.rows).1).Perm
          (rows ++ (count ++ (r.rows.look ready x.rows).1)) := by
        rw [← List.append_assoc]
        exact asked.append_right _
      have before : (rows ++ (count ++ (r.rows.look ready x.rows).1)).Perm
          (rows ++ (r.rows.look ready x.rows).1 ++ count) := by
        rw [List.append_assoc]
        exact List.perm_append_comm.append_left rows
      exact behind.trans before
    | count =>
      rw [turn_count r ready failed]
      refine ⟨rows, _, first, second.look ready, ?_⟩
      rw [← List.append_assoc]
      exact asked.append_right _

theorem run_stands (turns : List Turn) : r.Stands (r.run turns) := by
  have onward (x : State Transaction) (h : r.Stands x) : r.Stands (turns.foldl r.turn x) := by
    induction turns generalizing x with
    | nil => exact h
    | cons t rest ih => exact ih _ (turn_stands h t)
  exact onward _ start_stands

theorem Stands.subperm {x : State Transaction} (h : r.Stands x) {rowsSql countSql : String}
    (rowsText : r.rows.text = .ok rowsSql) (countText : r.count.text = .ok countSql) :
    x.asked.Subperm [r.rows.statement rowsSql, r.count.statement countSql] := by
  obtain ⟨rows, count, first, second, asked⟩ := h
  have once := (first.sublist rowsText).append (second.sublist countText)
  exact asked.subperm.trans once.subperm

theorem Stands.result_cases {x : State Transaction} (h : r.Stands x) {rowsSql countSql : String}
    (rowsText : r.rows.text = .ok rowsSql) (countText : r.count.text = .ok countSql)
    {result : Except QueryError (List Record × Nat)} (given : x.result? = some result) :
    (∃ rows count, result = .ok (rows, count) ∧ r.rows.answer rowsSql = .ok rows ∧
      r.count.answer countSql = .ok count ∧
        x.asked.Perm [r.rows.statement rowsSql, r.count.statement countSql]) ∨
    ∃ fault, result = .error (.execution fault) ∧
      (r.rows.answer rowsSql = .error fault ∧ r.rows.statement rowsSql ∈ x.asked ∨
        r.count.answer countSql = .error fault ∧ r.count.statement countSql ∈ x.asked) := by
  obtain ⟨rows, count, first, second, asked⟩ := h
  unfold State.result? at given
  split at given
  · rename_i e failed
    cases given
    right
    obtain here | ⟨-, there⟩ := Option.or_eq_some_iff.mp failed
    · obtain ⟨rfl, fault, rfl, answer⟩ := first.failure_eq rowsText here
      exact ⟨fault, rfl, .inl ⟨answer, asked.mem_iff.mpr (by simp)⟩⟩
    · obtain ⟨rfl, fault, rfl, answer⟩ := second.failure_eq countText there
      exact ⟨fault, rfl, .inr ⟨answer, asked.mem_iff.mpr (by simp)⟩⟩
  · rename_i listed counted
    cases given
    left
    obtain ⟨rfl, here⟩ := first.answer_eq rowsText listed
    obtain ⟨rfl, there⟩ := second.answer_eq countText counted
    exact ⟨_, _, rfl, here, there, asked⟩
  · cases given

def bothRefused : Retrieval Unit where
  rows := ⟨.rows, none, .ok "SELECT 1", fun _ => .error "rows lost"⟩
  count := ⟨.count, none, .ok "SELECT COUNT(*)", fun _ => .error "count lost"⟩

example : bothRefused.result .rowsAtOnce = .error (.execution "rows lost") ∧
    bothRefused.result ⟨[⟨.rows, false⟩, ⟨.count, true⟩]⟩ = .error (.execution "count lost") :=
  ⟨rfl, rfl⟩

end Retrieval

def RecordService.statements (s : RecordService) (r : Request) :
    Except QueryError (String × String) := do
  let plan ← Plan.ofRequest s.catalog s.policy r
  let rows ← plan.rowsStatement s.catalog s.dialect
  let count ← plan.totalStatement s.catalog s.dialect
  return (rows, count)

/-- A read asks no more than its two statements, each at most once and with its transaction, and is
made of their answers or is the failure of one of them. -/
structure RecordService.AllOrNothing (s : RecordService) (engine : Engine Transaction)
    (tx : Option Transaction) (rowsSql countSql : String)
    (read : Except QueryError Response × List (Statement Transaction)) : Prop where
  asked : read.2.Subperm [⟨.rows, rowsSql, tx⟩, ⟨.count, countSql, tx⟩]
  succeeds : ∀ response, read.1 = .ok response ↔
    ∃ rows count, engine.fetchRows rowsSql tx = .ok rows ∧
      engine.fetchCount countSql tx = .ok count ∧
        response = ⟨count, rows, s.catalog.forest s.treeDepth⟩
  whole : ∀ response, read.1 = .ok response →
    read.2.Perm [⟨.rows, rowsSql, tx⟩, ⟨.count, countSql, tx⟩]
  fails : ∀ e, read.1 = .error e → ∃ fault, e = .execution fault ∧
    (engine.fetchRows rowsSql tx = .error fault ∧ ⟨.rows, rowsSql, tx⟩ ∈ read.2 ∨
      engine.fetchCount countSql tx = .error fault ∧ ⟨.count, countSql, tx⟩ ∈ read.2)

namespace RecordService

variable {s : RecordService} {r : Request}

theorem statements_cases (s : RecordService) (r : Request) :
    (∃ e, s.statements r = .error e ∧ s.prepare r = .error e) ∨
      ∃ plan rowsSql countSql, s.statements r = .ok (rowsSql, countSql) ∧
        s.prepare r = .ok (plan, rowsSql) ∧
          plan.totalStatement s.catalog s.dialect = .ok countSql := by
  unfold statements prepare
  cases Plan.ofRequest s.catalog s.policy r with
  | error e => exact .inl ⟨e, rfl, rfl⟩
  | ok plan =>
    simp only [ok_bind]
    cases Plan.pages_last s.catalog s.dialect plan with
    | refused e rows all total =>
      rw [rows]
      exact .inl ⟨e, rfl, rfl⟩
    | written sql all rows total =>
      rw [rows, total]
      exact .inr ⟨plan, _, _, rfl, rfl, total⟩

theorem read_allOrNothing (engine : Engine Transaction) (completion : Completion)
    (tx : Option Transaction) {plan : Plan} {rowsSql countSql : String}
    (prepared : s.prepare r = .ok (plan, rowsSql))
    (total : plan.totalStatement s.catalog s.dialect = .ok countSql) :
    s.AllOrNothing engine tx rowsSql countSql (s.read engine completion r tx) := by
  let both := s.retrieval engine tx plan rowsSql
  have stands := both.run_stands completion.turns
  have given : (both.run completion.turns).result? = some (both.result completion) :=
    (Option.some_get _).symm
  have reads : s.read engine completion r tx =
      ((both.result completion).map fun given => s.response given.1 given.2,
        (both.run completion.turns).asked) := by
    rw [read, prepared]
  rw [reads]
  refine ⟨stands.subperm rfl total, ?_, ?_, ?_⟩
  · intro response
    obtain ⟨rows, count, result, here, there, -⟩ | ⟨fault, result, refused⟩ :=
      stands.result_cases rfl total given
    · rw [result]
      constructor
      · intro made
        cases made
        exact ⟨rows, count, here, there, rfl⟩
      · rintro ⟨rows', count', here', there', rfl⟩
        cases here.symm.trans here'
        cases there.symm.trans there'
        rfl
    · rw [result]
      constructor
      · intro made
        cases made
      · rintro ⟨rows, count, here, there, -⟩
        obtain ⟨answer, -⟩ | ⟨answer, -⟩ := refused
        · cases answer.symm.trans here
        · cases answer.symm.trans there
  · intro response made
    obtain ⟨rows, count, -, -, -, asked⟩ | ⟨fault, result, -⟩ :=
      stands.result_cases rfl total given
    · exact asked
    · rw [result] at made
      cases made
  · intro e failed
    obtain ⟨rows, count, result, -⟩ | ⟨fault, result, refused⟩ :=
      stands.result_cases rfl total given
    · rw [result] at failed
      cases failed
    · rw [result] at failed
      cases failed
      exact ⟨fault, rfl, refused⟩

theorem handle_ok {engine : Engine Transaction} {completion : Completion}
    {tx : Option Transaction} {response : Response} :
    (s.handle engine completion r tx).1 = .ok response ↔
      (s.read engine completion r tx).1 = .ok response := by
  have opened : (s.handle engine completion r tx).1 =
      (s.read engine completion r tx).1.mapError Failure.ofError := rfl
  rw [opened]
  cases (s.read engine completion r tx).1 with
  | error e => simp [Except.mapError]
  | ok other => simp [Except.mapError]

end RecordService

/-- However the two statements of a read are looked at and answered, a request that does not compile
or render asks the engine nothing, and any other is read as a whole or fails as a whole. -/
theorem read_all_or_nothing (s : RecordService) (engine : Engine Transaction)
    (completion : Completion) (r : Request) (tx : Option Transaction) :
    (match s.statements r with
      | .error e => s.read engine completion r tx = (.error e, [])
      | .ok (rowsSql, countSql) =>
        s.AllOrNothing engine tx rowsSql countSql (s.read engine completion r tx)) ∧
      (∀ response, (s.handle engine completion r tx).1 = .ok response ↔
        (s.read engine completion r tx).1 = .ok response) ∧
      (s.handle engine completion r tx).2 = (s.read engine completion r tx).2 := by
  refine ⟨?_, fun _ => RecordService.handle_ok, rfl⟩
  obtain ⟨e, refused, unprepared⟩ | ⟨plan, rowsSql, countSql, made, prepared, total⟩ :=
    s.statements_cases r
  · rw [refused]
    simp only [RecordService.read, unprepared]
  · rw [made]
    exact RecordService.read_allOrNothing engine completion tx prepared total

end ReadPlan
