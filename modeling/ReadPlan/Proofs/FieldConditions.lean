import ReadPlan.Proofs.LikeConditions
import ReadPlan.Proofs.PlanJoins

namespace ReadPlan

/-! Predicates without recorded names. -/

def Target.unnamed : Target → Target
  | .field x => .field ⟨"", x.column⟩
  | .aggregate a => .aggregate a

namespace Predicate

mutual

/-- A predicate without the names that the request gave the compared fields. -/
def unnamed : Predicate → Predicate
  | .comparison c => .comparison { c with target := c.target.unnamed }
  | .qualified relation c => .qualified relation { c with target := c.target.unnamed }
  | .logical op children => .logical op (unnamedAll children)
  | .fragment sql scope => .fragment sql scope
  | .globalPattern pattern => .globalPattern pattern

def unnamedAll : List Predicate → List Predicate
  | [] => []
  | p :: rest => p.unnamed :: unnamedAll rest

end

mutual

theorem unnamed_retarget (t : Target) : (p : Predicate) →
    (p.retarget t).unnamed = p.retarget t.unnamed
  | .comparison _ | .qualified _ _ | .fragment _ _ | .globalPattern _ => rfl
  | .logical op children => by
    rw [retarget, unnamed, retarget, unnamedAll_retarget t children]

theorem unnamedAll_retarget (t : Target) : (ps : List Predicate) →
    unnamedAll (retargetAll t ps) = retargetAll t.unnamed ps
  | [] => rfl
  | p :: rest => by
    rw [retargetAll, unnamedAll, retargetAll, unnamed_retarget t p, unnamedAll_retarget t rest]

end

mutual

theorem retarget_retarget (t u : Target) : (p : Predicate) →
    (p.retarget t).retarget u = p.retarget u
  | .comparison _ | .qualified _ _ | .fragment _ _ | .globalPattern _ => rfl
  | .logical op children => by
    rw [retarget, retarget, retarget, retargetAll_retarget t u children]

theorem retargetAll_retarget (t u : Target) : (ps : List Predicate) →
    retargetAll u (retargetAll t ps) = retargetAll u ps
  | [] => rfl
  | p :: rest => by
    rw [retargetAll, retargetAll, retargetAll, retarget_retarget t u p,
      retargetAll_retarget t u rest]

end

theorem unnamed_all (ps : List Predicate) : all (unnamedAll ps) = (all ps).map unnamed := by
  match ps with
  | [] | [_] | _ :: _ :: _ => rfl

theorem Exchanged.unnamed {t u : Target} {ps qs : List Predicate} (h : Exchanged t u ps qs)
    (same : t.unnamed = u.unnamed) : unnamedAll ps = unnamedAll qs := by
  have first : unnamedAll ps = retargetAll t.unnamed ps := by
    rw [h.2, unnamedAll_retarget, retargetAll_retarget]
  rw [first, h.1, unnamedAll_retarget, same]

end Predicate

/-! A condition on a bound field. -/

def Frame.condition (f : Frame) (key : String) (bound : BoundField) :
    Condition → Except QueryError (List Predicate)
  | .operators clauses => do
    return (Predicate.all (← compileClauses (f.compare key bound) clauses)).toList
  | .nested terms =>
    match firstFieldKey terms with
    | none => .ok []
    | some token => .error (.unknownOperator token)
  | .scalar _ | .subquery _ => .error (.invalidShape key .conditionNotObject)

/-- A key is located as a field, whatever stands under it, and the field is bound. -/
structure Frame.Binds (f : Frame) (s : Scope) (key : String) (place : Place) (bound : BoundField) :
    Prop where
  located : ∀ nested, f.locate s key nested = .ok place
  field : ∀ segments, place ≠ .association segments
  bound : f.bindPlace s key place = .ok bound

section

variable {f : Frame} {s : Scope} {key key' : String} {place : Place} {bound bound' : BoundField}
  {condition : Condition}

theorem Frame.Binds.compile (h : f.Binds s key place bound)
    (unmarked : ∀ sql, condition ≠ .subquery sql) :
    condition.compile f s key = f.condition key bound condition := by
  have bound := h.bound
  cases place with
  | association segments => exact absurd rfl (h.field segments)
  | own | joined =>
    cases condition with
    | subquery sql => exact absurd rfl (unmarked sql)
    | operators clauses =>
      simp only [Condition.compile, h.located, ok_bind, bound, Frame.condition]
    | nested terms =>
      simp only [Condition.compile, h.located, ok_bind, bound, Frame.condition]
      cases firstFieldKey terms <;> rfl
    | scalar v =>
      simp only [Condition.compile, h.located, ok_bind, bound, Frame.condition]

theorem Frame.Binds.demands (h : f.Binds s key place bound)
    (unmarked : ∀ sql, condition ≠ .subquery sql) (bare : ∀ v, condition ≠ .scalar v) :
    condition.demands f s key =
      f.demandPlace place ++ condition.references.flatMap f.demand := by
  cases place with
  | association segments => exact absurd rfl (h.field segments)
  | own | joined =>
    cases condition with
    | subquery sql => exact absurd rfl (unmarked sql)
    | operators clauses =>
      simp only [Condition.demands, h.located, Condition.references]
    | nested terms =>
      simp only [Condition.demands, h.located, Condition.references, List.flatMap_nil,
        List.append_nil]
    | scalar v => exact absurd rfl (bare v)

theorem Frame.condition_alike (same : bound.relation = bound'.relation) (condition : Condition) :
    Alike (Predicate.Exchanged (.field bound.field) (.field bound'.field))
      (f.condition key bound condition) (f.condition key' bound' condition) := by
  cases condition with
  | subquery | scalar => exact .error rfl
  | nested terms =>
    simp only [Frame.condition]
    cases firstFieldKey terms with
    | none => exact .ok ⟨rfl, rfl⟩
    | some token => exact .error rfl
  | operators clauses =>
    have leaves (op : Operator) (v : Json) :
        Alike (fun p q => Predicate.Exchanged (.field bound.field) (.field bound'.field) [p] [q])
          (f.compare key bound op v) (f.compare key' bound' op v) := by
      unfold Frame.compare
      apply (Operand.ofJson_alike f key key' op v).bind
      rintro operand _ rfl
      rw [same]
      cases bound'.relation <;> exact .ok ⟨rfl, rfl⟩
    exact (compileClauses_alike leaves clauses).bind fun related => .ok related.together

theorem Frame.condition_all (condition : Condition) :
    (do return (Predicate.all (← f.condition key bound condition)).toList) =
      f.condition key bound condition := by
  have again (ps : List Predicate) :
      (Predicate.all (Predicate.all ps).toList).toList = (Predicate.all ps).toList := by
    match ps with
    | [] | [_] | _ :: _ :: _ => rfl
  cases condition with
  | subquery | scalar => rfl
  | nested terms =>
    simp only [Frame.condition]
    cases firstFieldKey terms <;> rfl
  | operators clauses =>
    simp only [Frame.condition]
    cases compileClauses (f.compare key bound) clauses with
    | error e => rfl
    | ok ps => simp only [ok_bind, pure_bind, again]

end
end ReadPlan
