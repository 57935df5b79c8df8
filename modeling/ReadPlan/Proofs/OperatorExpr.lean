import ReadPlan.Sql.OfPlan
import ReadPlan.Predicate.Operand
import ReadPlan.Proofs.FilterOperands

namespace ReadPlan

namespace Sql

/-- The forms of a comparison of a left side with an operand. -/
inductive Compares (left : Expr) : Operand → Expr → Prop
  | value {op} (v) : op ≠ .and → op ≠ .or → Compares left (.value v) (.binary left op (literal v))
  | text (s before after) :
    Compares left (.value (.str s)) (.binary left .like (.literal (.string (before ++ s ++ after))))
  | column {op} (field) : op ≠ .and → op ≠ .or →
    Compares left (.column field) (.binary left op field.column.expr)
  | arrays {op} (vs) : op ≠ .and → op ≠ .or →
    Compares left (.list vs) (.binary left op (.array (vs.map literal)))
  | isNull (negated) : Compares left (.value .null) (.isNull left negated)
  | range (low high negated) :
    Compares left (.range low high) (.between left (literal low) (literal high) negated)
  | inList (vs negated) : Compares left (.list vs) (.inList left (vs.map literal) negated)
  | quantified (q vs) :
    Compares left (.list vs) (.quantified left .eq q (.array (vs.map literal)))
  | is (v negated) : Compares left (.value v) (.is left (literal v) negated)

theorem operatorExpr_compares {path : String} {left e : Expr} {op : Operator} {operand : Operand}
    (h : operatorExpr path left op operand = .ok e) : Compares left operand e := by
  have scalar {b : BinaryOp} {x : Expr} (ha : b ≠ .and) (ho : b ≠ .or)
      (hx : scalarOperand path operand = .ok x) : Compares left operand (.binary left b x) := by
    cases operand <;> cases hx
    exact .value _ ha ho
  have scalarOrField {b : BinaryOp} {x : Expr} (ha : b ≠ .and) (ho : b ≠ .or)
      (hx : scalarOrColumn path operand = .ok x) : Compares left operand (.binary left b x) := by
    cases operand with
    | column =>
      cases hx
      exact .column _ ha ho
    | _ => exact scalar ha ho hx
  have listed {vs : List Expr} (hx : listOperand path operand = .ok vs) :
      ∃ items, operand = .list items ∧ vs = items.map literal := by
    cases operand <;> cases hx
    exact ⟨_, rfl, rfl⟩
  have equality {negated : Bool} (hx : equalityExpr path left operand negated = .ok e) :
      Compares left operand e := by
    unfold equalityExpr at hx
    split at hx
    · cases hx
      exact .isNull negated
    · simp only [bind_eq_ok, pure_eq_ok] at hx
      obtain ⟨x, hx, rfl⟩ := hx
      cases negated <;> exact scalarOrField (by simp) (by simp) hx
  have pattern {before after : String} {x : Expr}
      (hx : patternOperand path before after operand = .ok x) :
      Compares left operand (.binary left .like x) := by
    unfold patternOperand at hx
    split at hx <;> cases hx
    exact .text _ _ _
  cases op with
  | eq | ne => exact equality h
  | between | notBetween =>
    cases operand <;> cases h
    exact .range _ _ _
  | column =>
    cases operand <;> cases h
    exact .column _ (by simp) (by simp)
  | gt | lt | gte | lte =>
    simp only [operatorExpr, bind_eq_ok, pure_eq_ok] at h
    obtain ⟨x, hx, rfl⟩ := h
    exact scalarOrField (by simp) (by simp) hx
  | startsWith | endsWith | substring =>
    simp only [operatorExpr, bind_eq_ok, pure_eq_ok] at h
    obtain ⟨x, hx, rfl⟩ := h
    exact pattern hx
  | within | notIn =>
    simp only [operatorExpr, bind_eq_ok, pure_eq_ok] at h
    obtain ⟨x, hx, rfl⟩ := h
    obtain ⟨vs, rfl, rfl⟩ := listed hx
    exact .inList vs _
  | overlap | contains | contained =>
    simp only [operatorExpr, bind_eq_ok, pure_eq_ok] at h
    obtain ⟨x, hx, rfl⟩ := h
    obtain ⟨vs, rfl, rfl⟩ := listed hx
    exact .arrays vs (by simp) (by simp)
  | anyOf | allOf =>
    simp only [operatorExpr, bind_eq_ok, pure_eq_ok] at h
    obtain ⟨x, hx, rfl⟩ := h
    obtain ⟨vs, rfl, rfl⟩ := listed hx
    exact .quantified _ vs
  | isNot =>
    simp only [operatorExpr, bind_eq_ok, pure_eq_ok] at h
    obtain ⟨x, hx, rfl⟩ := h
    cases operand <;> cases hx
    exact .is _ true
  | _ =>
    simp only [operatorExpr, bind_eq_ok, pure_eq_ok] at h
    obtain ⟨x, hx, rfl⟩ := h
    exact scalar (by simp) (by simp) hx

/-- What is gathered from an expression does not depend on how its parts are combined. -/
structure Gathers {α : Type} (g : Expr → List α) : Prop where
  binary : ∀ left op right, g (.binary left op right) = g left ++ g right
  not : ∀ e, g (.not e) = g e
  paren : ∀ e, g (.paren e) = g e
  truth : ∀ b, g (.literal (.bool b)) = []

namespace Gathers

variable {α : Type} {g : Expr → List α} (gathers : Gathers g)

include gathers

theorem grouped (e : Expr) : g e.grouped = g e := by
  unfold Expr.grouped
  split
  · exact gathers.paren e
  · rfl

theorem joinWith {op : BinaryOp} {es : List Expr} {e : Expr} (h : joinWith op es = some e) :
    g e = es.flatMap g := by
  have joined (first : Expr) (rest : List Expr) :
      g (rest.foldl (fun left right => .binary left op right.grouped) first) =
        g first ++ rest.flatMap g := by
    induction rest generalizing first with
    | nil => simp
    | cons f rest ih =>
      rw [List.foldl_cons, ih, gathers.binary, gathers.grouped, List.flatMap_cons,
        List.append_assoc]
  match es with
  | [] => cases h
  | [f] =>
    cases h
    simp
  | f :: k :: rest =>
    cases h
    rw [joined, gathers.grouped]
    rfl

theorem combined (op : Combinator) (es : List Expr) : g (combined op es) = es.flatMap g := by
  have whole (b : BinaryOp) (t : Bool) :
      g ((Sql.joinWith b es).getD (.literal (.bool t))) = es.flatMap g := by
    cases h : Sql.joinWith b es with
    | none =>
      match es with
      | [] => exact gathers.truth t
      | [_] => cases h
      | _ :: _ :: _ => cases h
    | some e => exact gathers.joinWith h
  cases op with
  | and => exact whole .and true
  | or => exact whole .or false
  | not =>
    simp only [Sql.combined, gathers.not, gathers.paren]
    exact whole .and true

end Gathers

end Sql

namespace Operand

def values : Operand → List Json
  | .value v => [v]
  | .list vs => vs
  | .range low high => [low, high]
  | .column _ => []

def fits (op : Operator) : Operand → Bool
  | .value v => op.shape == .scalar && (!op.isPattern || isText v)
  | .list _ => op.shape == .list
  | .range .. => op.shape == .range
  | .column _ => op.shape == .reference

theorem scalarFault?_eq_none {op : Operator} {v : Json} (h : scalarFault? op v = none) :
    v.isScalar = true ∧ (!op.isPattern || isText v) = true := by
  unfold scalarFault? at h
  split at h
  · cases h
  · rename_i scalar
    split at h
    · cases h
    · split at h
      · cases h
      · split at h
        · cases h
        · rename_i pattern
          exact ⟨by simpa using scalar, by cases hp : op.isPattern <;> simp_all⟩

/-- What the compiler lets through fits, and holds nothing but the value or its items. -/
theorem ofJson_spec {f : Frame} {path : String} {op : Operator} {v : Json} {operand : Operand}
    (h : ofJson f path op v = .ok operand) :
    operand.fits op = true ∧ operand.values ⊆ v.parts := by
  unfold ofJson at h
  simp only at h
  split at h
  · rename_i shape
    split at h
    · cases h
    · rename_i sound
      cases h
      obtain ⟨scalar, text⟩ := scalarFault?_eq_none sound
      refine ⟨by simp [fits, shape, text], ?_⟩
      rw [Json.parts_of_isScalar scalar]
      exact List.Subset.refl _
  · rename_i shape
    split at h <;> cases h
    exact ⟨by simp [fits, shape], List.Subset.refl _⟩
  · cases h
  · rename_i shape
    split at h <;> cases h
    exact ⟨by simp [fits, shape], List.Subset.refl _⟩
  · cases h
  · rename_i shape
    simp only [bind_eq_ok, pure_eq_ok] at h
    obtain ⟨field, -, rfl⟩ := h
    exact ⟨by simp [fits, shape], List.nil_subset _⟩
  · cases h

theorem ofJson_column {f : Frame} {path : String} {op : Operator} {v : Json} {field : FieldRef}
    (h : ofJson f path op v = .ok (.column field)) :
    ∃ reference, (Clause.compare op v).references = [reference] ∧
      f.bind reference = .ok field := by
  unfold ofJson at h
  simp only at h
  split at h
  · split at h <;> cases h
  · split at h <;> cases h
  · cases h
  · split at h <;> cases h
  · cases h
  · rename_i reference shape
    simp only [bind_eq_ok, pure_eq_ok] at h
    obtain ⟨bound, made, same⟩ := h
    cases same
    refine ⟨reference, ?_, made⟩
    cases op <;> first | rfl | cases shape
  · cases h

end Operand

theorem operatorExpr_total {op : Operator} {operand : Operand} (h : operand.fits op = true)
    (path : String) (left : Sql.Expr) :
    ∃ e, Sql.operatorExpr path left op operand = .ok e := by
  cases operand with
  | value v =>
    simp only [Operand.fits, Bool.and_eq_true, beq_iff_eq] at h
    obtain ⟨shape, pattern⟩ := h
    cases op with
    | startsWith | endsWith | substring =>
      cases v with
      | str s => exact ⟨_, rfl⟩
      | _ => contradiction
    | eq | ne => cases v <;> exact ⟨_, rfl⟩
    | _ => first | exact ⟨_, rfl⟩ | contradiction
  | list vs => cases op <;> first | exact ⟨_, rfl⟩ | contradiction
  | range low high => cases op <;> first | exact ⟨_, rfl⟩ | contradiction
  | column field => cases op <;> first | exact ⟨_, rfl⟩ | contradiction

end ReadPlan
