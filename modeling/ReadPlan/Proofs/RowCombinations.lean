import ReadPlan.Proofs.Mentions
import Mathlib.Logic.Function.Basic

/-!
The rows behind a statement, as far as they come from its relations: a clause makes combinations of
rows, one row for each name in scope, and a condition keeps those for which it is true. A join
condition with a null on one side is not true, and a left join keeps a combination that nothing
matches.
-/

namespace ReadPlan

namespace Sql

/-- The columns of a row; one without a value is null. -/
abbrev Row (V : Type) := String → Option V

abbrev Database (V : Type) := Option String → String → List (Row V)

/-- The rows that names in scope stand for. An outer join leaves a name without a row. -/
abbrev Combination (V : Type) := String → Option (Row V)

section

variable {V : Type}

def Combination.bind (rows : Combination V) (t : TableRef) (row : Option (Row V)) :
    Combination V :=
  Function.update rows t.alias row

def Combination.only (name : String) (row : Row V) : Combination V :=
  Function.update (fun _ => none) name (some row)

def TableRef.rows (db : Database V) (t : TableRef) : List (Row V) :=
  db t.schema t.table

def Agree (x y : Option V) : Prop :=
  ∃ v, x = some v ∧ y = some v

def Expr.value (rows : Combination V) : Expr → Option V
  | .column (some table) key => (rows table).bind (· key)
  | _ => none

def Expr.Holds (rows : Combination V) : Expr → Prop
  | .binary left .eq right => Agree (left.value rows) (right.value rows)
  | _ => False

/-- What joins make of a combination of rows. A left join keeps what no row matches. -/
def Joined (db : Database V) : List Join → Combination V → Combination V → Prop
  | [], rows, all => all = rows
  | join :: rest, rows, all =>
    (∃ row ∈ join.table.rows db, join.on.Holds (rows.bind join.table (some row)) ∧
      Joined db rest (rows.bind join.table (some row)) all) ∨
    (join.kind = .left ∧
      (∀ row ∈ join.table.rows db, ¬ join.on.Holds (rows.bind join.table (some row))) ∧
        Joined db rest (rows.bind join.table none) all)

/-- A combination of rows that a query keeps, where `outer` is what it can see around it. -/
def Query.Keeps (db : Database V) (outer : Combination V) (q : Query) (all : Combination V) :
    Prop :=
  ∃ t ∈ q.source, ∃ row ∈ t.rows db, Joined db q.joins (outer.bind t (some row)) all ∧
    ∀ e ∈ q.filter, e.Holds all

@[simp] theorem bind_alias (rows : Combination V) (t : TableRef) (row : Option (Row V)) :
    rows.bind t row t.alias = row :=
  Function.update_self ..

theorem bind_other (rows : Combination V) {t : TableRef} {name : String} (apart : name ≠ t.alias)
    (row : Option (Row V)) : rows.bind t row name = rows name :=
  Function.update_of_ne apart ..

theorem equals_holds {rows : Combination V} {table other : String} {x y : Row V}
    (left : rows table = some x) (right : rows other = some y) (column key : String) :
    ((Expr.ofColumn table column).equals (Expr.ofColumn other key)).Holds rows ↔
      Agree (x column) (y key) := by
  simp [Expr.equals, Expr.ofColumn, Expr.Holds, Expr.value, left, right]

theorem equals_missing {rows : Combination V} {table : String} (missing : rows table = none)
    (column other key : String) :
    ¬ ((Expr.ofColumn table column).equals (Expr.ofColumn other key)).Holds rows := by
  simp [Expr.equals, Expr.ofColumn, Expr.Holds, Expr.value, missing, Agree]

theorem joined_one {db : Database V} {join : Join} {rows : Combination V} {t : Row V} :
    (∃ all, Joined db [join] rows all ∧ all join.table.alias = some t) ↔
      t ∈ join.table.rows db ∧ join.on.Holds (rows.bind join.table (some t)) := by
  constructor
  · rintro ⟨_, ⟨row, known, holds, rfl⟩ | ⟨-, -, rfl⟩, here⟩
    · rw [bind_alias] at here
      cases here
      exact ⟨known, holds⟩
    · rw [bind_alias] at here
      cases here
  · rintro ⟨known, holds⟩
    exact ⟨_, .inl ⟨t, known, holds, rfl⟩, bind_alias _ _ _⟩

theorem joined_two {db : Database V} {first second : Join} {rows : Combination V} {t : Row V}
    (needs : ∀ row, ¬ second.on.Holds ((rows.bind first.table none).bind second.table row)) :
    (∃ all, Joined db [first, second] rows all ∧ all second.table.alias = some t) ↔
      ∃ row ∈ first.table.rows db, first.on.Holds (rows.bind first.table (some row)) ∧
        t ∈ second.table.rows db ∧
          second.on.Holds ((rows.bind first.table (some row)).bind second.table (some t)) := by
  constructor
  · rintro ⟨all, ⟨row, known, holds, rest⟩ | ⟨-, -, rest⟩, here⟩
    · exact ⟨row, known, holds, joined_one.mp ⟨all, rest, here⟩⟩
    · exact absurd (joined_one.mp ⟨all, rest, here⟩).2 (needs _)
  · rintro ⟨row, known, holds, partner⟩
    obtain ⟨all, rest, here⟩ := joined_one.mpr partner
    exact ⟨all, .inl ⟨row, known, holds, rest⟩, here⟩

theorem keeps_one {db : Database V} {outer all : Combination V} {q : Query} {u : TableRef}
    {e : Expr} (source : q.source = some u) (joins : q.joins = []) (filter : q.filter = some e) :
    q.Keeps db outer all ↔ ∃ row ∈ u.rows db, all = outer.bind u (some row) ∧ e.Holds all := by
  simp [Query.Keeps, Joined, source, joins, filter]

theorem keeps_two {db : Database V} {outer all : Combination V} {q : Query} {u : TableRef}
    {join : Join} {e : Expr} (source : q.source = some u) (joins : q.joins = [join])
    (inner : join.kind = .inner) (filter : q.filter = some e) :
    q.Keeps db outer all ↔ ∃ row ∈ u.rows db, ∃ other ∈ join.table.rows db,
      join.on.Holds ((outer.bind u (some row)).bind join.table (some other)) ∧
        all = (outer.bind u (some row)).bind join.table (some other) ∧ e.Holds all := by
  simp only [Query.Keeps, Joined, source, joins, filter, inner, Option.mem_def, Option.some.injEq,
    exists_eq_left', reduceCtorEq, false_and, or_false]
  constructor
  · rintro ⟨row, known, ⟨other, partner, holds, rfl⟩, kept⟩
    exact ⟨row, known, other, partner, holds, rfl, kept e rfl⟩
  · rintro ⟨row, known, other, partner, holds, rfl, kept⟩
    refine ⟨row, known, ⟨other, partner, holds, rfl⟩, ?_⟩
    rintro _ rfl
    exact kept

end

end Sql

end ReadPlan
