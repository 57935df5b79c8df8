import ReadPlan.Error
import ReadPlan.Json.Basic

/-!
Asking an engine for the two statements of a read. Both are looked at in turns until they are
answered; the engine is asked at the first look, and a read that has failed looks at nothing more.
-/

namespace ReadPlan

abbrev Record := Json.Members

inductive StatementKind
  | rows | count
  deriving DecidableEq

def StatementKind.name : StatementKind → String
  | rows => "rows"
  | count => "count"

structure Statement (Transaction : Type) where
  kind : StatementKind
  sql : String
  transaction : Option Transaction
  deriving DecidableEq

structure Engine (Transaction : Type) where
  fetchRows : String → Option Transaction → Except String (List Record)
  fetchCount : String → Option Transaction → Except String Nat

inductive Progress (α : Type)
  | unasked
  | waiting (sql : String)
  | answered (a : α)
  | failed (e : QueryError)

namespace Progress

variable {α : Type}

/-- What is known of a statement that the engine was asked, with its answer if that is there. -/
def receive (sql : String) : Option (Except String α) → Progress α
  | none => .waiting sql
  | some (.ok a) => .answered a
  | some (.error text) => .failed (.execution text)

def failure? : Progress α → Option QueryError
  | .failed e => some e
  | _ => none

def answer? : Progress α → Option α
  | .answered a => some a
  | _ => none

end Progress

/-- One statement of a read. Its text is made at the first look, which may fail. -/
structure Task (Transaction α : Type) where
  kind : StatementKind
  transaction : Option Transaction
  text : Except QueryError String
  answer : String → Except String α

variable {Transaction α : Type}

namespace Task

def statement (t : Task Transaction α) (sql : String) : Statement Transaction :=
  ⟨t.kind, sql, t.transaction⟩

/-- The statements that the engine is asked at a look, and how far the task is after it; `ready`
tells whether the engine has an answer by then. -/
def look (t : Task Transaction α) (ready : Bool) :
    Progress α → List (Statement Transaction) × Progress α
  | .unasked =>
    match t.text with
    | .error e => ([], .failed e)
    | .ok sql => ([t.statement sql], .receive sql (if ready then some (t.answer sql) else none))
  | .waiting sql => ([], .receive sql (if ready then some (t.answer sql) else none))
  | .answered a => ([], .answered a)
  | .failed e => ([], .failed e)

end Task

structure Turn where
  kind : StatementKind
  ready : Bool
  deriving DecidableEq

structure Retrieval (Transaction : Type) where
  rows : Task Transaction (List Record)
  count : Task Transaction Nat

structure Retrieval.State (Transaction : Type) where
  rows : Progress (List Record)
  count : Progress Nat
  asked : List (Statement Transaction)

namespace Retrieval

namespace State

def start : State Transaction :=
  ⟨.unasked, .unasked, []⟩

def failure? (x : State Transaction) : Option QueryError :=
  x.rows.failure?.or x.count.failure?

def result? (x : State Transaction) : Option (Except QueryError (List Record × Nat)) :=
  match x.failure?, x.rows.answer?, x.count.answer? with
  | some e, _, _ => some (.error e)
  | none, some rows, some count => some (.ok (rows, count))
  | none, _, _ => none

end State

def turn (r : Retrieval Transaction) (x : State Transaction) (t : Turn) : State Transaction :=
  if x.failure?.isSome then x
  else
    match t.kind with
    | .rows =>
      let (asked, rows) := r.rows.look t.ready x.rows
      { x with rows, asked := x.asked ++ asked }
    | .count =>
      let (asked, count) := r.count.look t.ready x.count
      { x with count, asked := x.asked ++ asked }

def run (r : Retrieval Transaction) (turns : List Turn) : State Transaction :=
  turns.foldl r.turn .start

end Retrieval

/-- When the answers come: the turns that are taken before the engine has both. -/
structure Completion where
  before : List Turn
  deriving DecidableEq

namespace Completion

def rowsAtOnce : Completion :=
  ⟨[]⟩

def turns (c : Completion) : List Turn :=
  c.before ++ [⟨.rows, true⟩, ⟨.count, true⟩]

end Completion

/-! A read that waits for both answers has a result. -/

theorem Progress.receive_settled (sql : String) (answer : Except String α) :
    (receive sql (some answer)).failure?.isSome ∨ (receive sql (some answer)).answer?.isSome := by
  cases answer with
  | error text => exact .inl rfl
  | ok a => exact .inr rfl

theorem Task.look_settled (t : Task Transaction α) (p : Progress α) :
    (t.look true p).2.failure?.isSome ∨ (t.look true p).2.answer?.isSome := by
  cases p with
  | unasked =>
    unfold look
    cases t.text with
    | error e => exact .inl rfl
    | ok sql => exact Progress.receive_settled sql (t.answer sql)
  | waiting sql => exact Progress.receive_settled sql (t.answer sql)
  | answered a => exact .inr rfl
  | failed e => exact .inl rfl

namespace Retrieval

theorem State.result?_isSome {x : State Transaction} :
    x.result?.isSome ↔ x.failure?.isSome ∨ x.rows.answer?.isSome ∧ x.count.answer?.isSome := by
  unfold State.result?
  cases x.failure? <;> cases x.rows.answer? <;> cases x.count.answer? <;> simp

theorem turn_failed (r : Retrieval Transaction) {x : State Transaction} (t : Turn)
    (failed : x.failure?.isSome) : r.turn x t = x := by
  rw [turn, if_pos failed]

theorem turn_rows (r : Retrieval Transaction) {x : State Transaction} (ready : Bool)
    (going : ¬x.failure?.isSome) : r.turn x ⟨.rows, ready⟩ =
      { x with
        rows := (r.rows.look ready x.rows).2
        asked := x.asked ++ (r.rows.look ready x.rows).1 } := by
  rw [turn, if_neg going]

theorem turn_count (r : Retrieval Transaction) {x : State Transaction} (ready : Bool)
    (going : ¬x.failure?.isSome) : r.turn x ⟨.count, ready⟩ =
      { x with
        count := (r.count.look ready x.count).2
        asked := x.asked ++ (r.count.look ready x.count).1 } := by
  rw [turn, if_neg going]

theorem turn_rows_ready (r : Retrieval Transaction) (x : State Transaction) :
    (r.turn x ⟨.rows, true⟩).failure?.isSome ∨ (r.turn x ⟨.rows, true⟩).rows.answer?.isSome := by
  by_cases failed : x.failure?.isSome
  · rw [turn_failed r _ failed]
    exact .inl failed
  · rw [turn_rows r true failed]
    refine (r.rows.look_settled x.rows).imp (fun here => ?_) id
    simp [State.failure?, Option.isSome_or, here]

theorem turn_count_ready (r : Retrieval Transaction) {x : State Transaction}
    (rows : x.failure?.isSome ∨ x.rows.answer?.isSome) :
    (r.turn x ⟨.count, true⟩).result?.isSome := by
  rw [State.result?_isSome]
  by_cases failed : x.failure?.isSome
  · rw [turn_failed r _ failed]
    exact .inl failed
  · rw [turn_count r true failed]
    refine (r.count.look_settled x.count).imp (fun here => ?_) fun here => ?_
    · simp [State.failure?, Option.isSome_or, here]
    · exact ⟨rows.resolve_left failed, here⟩

theorem run_result (r : Retrieval Transaction) (c : Completion) :
    (r.run c.turns).result?.isSome := by
  have last : r.run c.turns = r.turn (r.turn (r.run c.before) ⟨.rows, true⟩) ⟨.count, true⟩ := by
    simp [run, Completion.turns]
  rw [last]
  exact turn_count_ready r (turn_rows_ready r _)

def result (r : Retrieval Transaction) (c : Completion) : Except QueryError (List Record × Nat) :=
  (r.run c.turns).result?.get (r.run_result c)

end Retrieval

end ReadPlan
