import ReadPlan.Proofs.OperatorExpr
import ReadPlan.Proofs.RenderedTokens

namespace ReadPlan

namespace Sql

/-- Numbers and NULL, which nothing in a comparison stands for but a value of its operand. -/
def Token.isPlainValue : Token → Bool
  | .int _ | .float _ | .keyword .null => true
  | _ => false

def plainValues (ts : List Token) : List Token :=
  ts.filter Token.isPlainValue

def writtenValues (vs : List Json) : List Token :=
  plainValues (vs.map fun v => (Literal.ofJson v).token)

theorem plainValues_append (ts us : List Token) :
    plainValues (ts ++ us) = plainValues ts ++ plainValues us :=
  List.filter_append ..

theorem plainValues_cons {t : Token} (other : t.isPlainValue = false) (ts : List Token) :
    plainValues (t :: ts) = plainValues ts :=
  List.filter_cons_of_neg (by simpa using other)

theorem plainValues_concat {t : Token} (other : t.isPlainValue = false) (ts : List Token) :
    plainValues (ts ++ [t]) = plainValues ts := by
  rw [plainValues_append, plainValues_cons other]
  exact List.append_nil _

theorem writtenValues_cons (v : Json) (vs : List Json) :
    writtenValues (v :: vs) = writtenValues [v] ++ writtenValues vs :=
  plainValues_append [(Literal.ofJson v).token] _

theorem plainValues_notTokens (negated : Bool) : plainValues (notTokens negated) = [] := by
  cases negated <;> rfl

section

variable (d : Dialect)

theorem plainValues_binary (left right : Expr) (op : BinaryOp) :
    plainValues ((Expr.binary left op right).tokens d) =
      plainValues (left.tokens d) ++ plainValues (right.tokens d) := by
  cases op with
  | regex negated caseInsensitive =>
    simp only [Expr.tokens]
    split
    · cases negated <;> cases caseInsensitive <;>
        simp [plainValues, callTokens, separator, Token.isPlainValue]
    · split <;> simp [plainValues, callTokens, Token.isPlainValue]
  | _ =>
    simp only [Expr.tokens]
    split <;>
      simp [plainValues, callTokens, Token.isPlainValue, BinaryOp.tokens, BinaryOp.caseSensitive]

theorem plainValues_list (vs : List Json) :
    plainValues (listTokens d (vs.map literal)) = writtenValues vs := by
  induction vs with
  | nil => rfl
  | cons v rest ih =>
    cases rest with
    | nil => rfl
    | cons w rest =>
      rw [List.map_cons, listTokens_cons d _ (by simp), plainValues_append, plainValues_append, ih,
        writtenValues_cons v]
      rfl

theorem plainValues_array (vs : List Json) :
    plainValues ((Expr.array (vs.map literal)).tokens d) = writtenValues vs := by
  rw [← plainValues_list d]
  simp [Expr.tokens, plainValues, Token.isPlainValue]

theorem plainValues_is (e : Expr) (v : Json) (negated : Bool) :
    plainValues ((Expr.is e (literal v) negated).tokens d) =
      plainValues (e.tokens d) ++ writtenValues [v] := by
  have test : plainValues (.space :: .keyword .is :: notTokens negated) = [] := by
    cases negated <;> rfl
  rw [Expr.tokens, plainValues_append, plainValues_append, test, List.append_nil]
  have single : writtenValues [v] = plainValues [(Literal.ofJson v).token] := rfl
  rw [single, literal]
  generalize Literal.ofJson v = l
  cases l with
  | bool b => cases b <;> rfl
  | _ => rfl

end

variable {d : Dialect} {left e : Expr} {operand : Operand}

theorem compares_values (h : Compares left operand e) (plain : plainValues (left.tokens d) = []) :
    plainValues (e.tokens d) = writtenValues operand.values ∨
      ∃ negated, e = .isNull left negated := by
  cases h with
  | value v =>
    rw [plainValues_binary, plain]
    exact .inl rfl
  | text s before after =>
    rw [plainValues_binary, plain]
    exact .inl rfl
  | column field =>
    rw [plainValues_binary, plain]
    exact .inl rfl
  | arrays vs =>
    rw [plainValues_binary, plain, plainValues_array]
    exact .inl rfl
  | isNull negated => exact .inr ⟨negated, rfl⟩
  | range low high negated =>
    rw [Expr.tokens, plainValues_append, plainValues_append, plainValues_append, plain,
      plainValues_notTokens]
    exact .inl (writtenValues_cons low [high]).symm
  | inList vs negated =>
    rw [Expr.tokens]
    cases vs with
    | nil => cases negated <;> exact .inl rfl
    | cons v rest =>
      rw [if_neg (by simp), plainValues_concat rfl, plainValues_append, plainValues_append, plain,
        plainValues_notTokens]
      exact .inl (plainValues_list d _)
  | quantified q vs =>
    rw [Expr.tokens, plainValues_concat rfl, plainValues_append, plainValues_append, plain]
    cases q <;> exact .inl (plainValues_array d vs)
  | is v negated =>
    rw [plainValues_is, plain]
    exact .inl rfl

theorem equality_of_isNull {path : String} {op : Operator} {l : Expr} {negated : Bool}
    (h : operatorExpr path left op operand = .ok (.isNull l negated)) : op = .eq ∨ op = .ne := by
  cases op with
  | eq => exact .inl rfl
  | ne => exact .inr rfl
  | between | notBetween => cases operand <;> cases h
  | column => cases operand <;> cases h
  | _ =>
    simp only [operatorExpr, bind_eq_ok, pure_eq_ok] at h
    obtain ⟨x, -, other⟩ := h
    cases other

end Sql

theorem Target.expr_values (d : Dialect) (t : Target) :
    Sql.plainValues (t.expr.tokens d) = [] := by
  cases t <;> rfl

theorem Operand.written_of_parts {f : Frame} {path : String} {op : Operator} {v : Json}
    {operand : Operand} (h : Operand.ofJson f path op v = .ok operand) :
    Sql.writtenValues operand.values = Sql.writtenValues v.parts := by
  unfold Operand.ofJson at h
  simp only at h
  split at h
  · split at h
    · cases h
    · rename_i sound
      cases h
      rw [Json.parts_of_isScalar (Operand.scalarFault?_eq_none sound).1]
      rfl
  · split at h <;> cases h
    rfl
  · cases h
  · split at h <;> cases h
    rfl
  · cases h
  · simp only [bind_eq_ok, pure_eq_ok] at h
    obtain ⟨field, -, rfl⟩ := h
    rfl
  · cases h

namespace Comparison

def TestsNull (c : Comparison) : Prop :=
  (c.operator = .eq ∨ c.operator = .ne) ∧ c.operand = .value .null

variable {c : Comparison} {d : Dialect} {e : Sql.Expr}

theorem operatorExpr_of_expr (h : c.expr d = .ok e) :
    ∃ path, Sql.operatorExpr path c.target.expr c.operator c.operand = .ok e := by
  unfold Comparison.expr at h
  simp only at h
  split at h
  · cases h
  · exact ⟨_, h⟩

theorem values_written (h : c.expr d = .ok e) (other : ¬ c.TestsNull) :
    Sql.plainValues (e.tokens d) = Sql.writtenValues c.operand.values := by
  obtain ⟨path, made⟩ := operatorExpr_of_expr h
  obtain ⟨target, op, operand⟩ := c
  have compares := Sql.operatorExpr_compares made
  refine (Sql.compares_values compares (target.expr_values d)).resolve_right ?_
  rintro ⟨negated, rfl⟩
  cases compares
  exact other ⟨Sql.equality_of_isNull made, rfl⟩

theorem no_values_written (h : c.expr d = .ok e) (test : c.TestsNull) :
    Sql.plainValues (e.tokens d) = [] := by
  obtain ⟨path, made⟩ := operatorExpr_of_expr h
  obtain ⟨target, op, operand⟩ := c
  obtain ⟨rfl | rfl, rfl⟩ := test <;> cases made <;>
    rw [Sql.Expr.tokens, Sql.plainValues_append, target.expr_values] <;> rfl

end Comparison

end ReadPlan
