import ReadPlan.Proofs.OperatorExpr
import ReadPlan.Proofs.PredicateLeaves

namespace ReadPlan

namespace Sql

inductive Mention
  | column (table : Option String) (column : String)
  | star (table : Option String)
  | exists (query : Query)

def Mention.Names (P : String → String → Prop) : Mention → Prop
  | .column (some table) name => P table name
  | .column none _ | .star _ | .exists _ => False

theorem Mention.Names.imp {P R : String → String → Prop} (h : ∀ t c, P t c → R t c) {m : Mention}
    (hm : m.Names P) : m.Names R := by
  rcases m with ⟨_ | table, column⟩ | _ | _
  · cases hm
  · exact h table column hm
  · cases hm
  · cases hm

mutual

/-- What an expression mentions; a raw fragment is not looked into. -/
def Expr.mentions : Expr → List Mention
  | .column table column => [.column table column]
  | .star table => [.star table]
  | .exists query => [.exists query]
  | .literal _ | .raw _ => []
  | .array items => listMentions items
  | .binary left _ right => left.mentions ++ right.mentions
  | .not e | .isNull e _ | .paren e => e.mentions
  | .call _ args _ => listMentions args
  | .inList e values _ => e.mentions ++ listMentions values
  | .between e low high _ => e.mentions ++ (low.mentions ++ high.mentions)
  | .is e value _ => e.mentions ++ value.mentions
  | .quantified e _ _ array => e.mentions ++ array.mentions

def listMentions : List Expr → List Mention
  | [] => []
  | e :: rest => e.mentions ++ listMentions rest

end

def TableRef.alias (t : TableRef) : String :=
  t.name.getD t.table

namespace Query

def aliases (q : Query) : List String :=
  (q.source.toList ++ q.joins.map (·.table)).map TableRef.alias

def mentions (q : Query) : List Mention :=
  q.select.flatMap (·.expr.mentions) ++ q.joins.flatMap (·.on.mentions) ++
    q.filter.toList.flatMap Expr.mentions ++ q.groupBy.flatMap Expr.mentions ++
    q.having.toList.flatMap Expr.mentions ++ q.orderBy.flatMap (·.expr.mentions)

end Query

/-- Each condition mentions only relations that are known, joined before, or joined by it. -/
def joinsScoped : (known : List String) → List Join → Prop
  | _, [] => True
  | known, join :: rest =>
    (∀ m ∈ join.on.mentions, m.Names fun table _ => table ∈ join.table.alias :: known) ∧
      joinsScoped (join.table.alias :: known) rest

theorem joinsScoped.weaken {known more : List String} (within : known ⊆ more) {joins : List Join}
    (h : joinsScoped known joins) : joinsScoped more joins := by
  induction joins generalizing known more with
  | nil => trivial
  | cons join rest ih =>
    have wider := List.cons_subset_cons join.table.alias within
    exact ⟨fun m hm => (h.1 m hm).imp fun _ _ known => wider known, ih wider h.2⟩

theorem joinsScoped_append {known : List String} {before after : List Join}
    (h : joinsScoped known before)
    (later : joinsScoped (before.map (·.table.alias) ++ known) after) :
    joinsScoped known (before ++ after) := by
  induction before generalizing known with
  | nil => exact later
  | cons join rest ih =>
    refine ⟨h.1, ih h.2 (later.weaken ?_)⟩
    intro name hn
    simp only [List.map_cons, List.cons_append, List.mem_cons, List.mem_append] at hn ⊢
    exact or_left_comm.mp hn

theorem listMentions_eq_flatMap (es : List Expr) : listMentions es = es.flatMap Expr.mentions := by
  induction es with
  | nil => rfl
  | cons e rest ih => rw [listMentions, ih, List.flatMap_cons]

theorem mentions_gathers : Gathers Expr.mentions where
  binary left op right := by rw [Expr.mentions]
  not e := by rw [Expr.mentions]
  paren e := by rw [Expr.mentions]
  truth b := rfl

end Sql

end ReadPlan
