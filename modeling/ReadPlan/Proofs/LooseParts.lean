import ReadPlan.Proofs.OperatorExpr
import ReadPlan.Proofs.PredicateLeaves
import ReadPlan.Proofs.RenderedTokens

namespace ReadPlan

def Operand.loose (operand : Operand) : List Sql.Loose :=
  operand.values.flatMap fun v => (Sql.Literal.ofJson v).loose

def Comparison.loose (x : Comparison) : List Sql.Loose :=
  x.target.expr.loose ++ x.operand.loose

mutual

def Predicate.loose : Predicate → List Sql.Loose
  | .comparison x | .qualified _ x => x.loose
  | .logical _ children => predicatesLoose children
  | .fragment sql _ => [.raw sql]
  | .globalPattern _ => []

def predicatesLoose : List Predicate → List Sql.Loose
  | [] => []
  | p :: rest => p.loose ++ predicatesLoose rest

end

section

variable {Q : Sql.Loose → Prop}

mutual

theorem Predicate.loose_each : (p : Predicate) → p.Each (fun leaf => ∀ l ∈ leaf.loose, Q l) →
    ∀ l ∈ p.loose, Q l
  | .comparison _, h | .qualified .., h | .fragment .., h | .globalPattern _, h => h
  | .logical _ children, h => predicatesLoose_each children h

theorem predicatesLoose_each : (ps : List Predicate) →
    predicatesEach (fun leaf => ∀ l ∈ leaf.loose, Q l) ps → ∀ l ∈ predicatesLoose ps, Q l
  | [], _ => by simp [predicatesLoose]
  | p :: rest, h => by
    rw [predicatesLoose, List.forall_mem_append]
    exact ⟨p.loose_each h.1, predicatesLoose_each rest h.2⟩

end

end

def Plan.loose (p : Plan) : List Sql.Loose :=
  p.aggregates.map (.function ·.function) ++
    (predicatesLoose p.predicate.toList ++ predicatesLoose p.having.toList)

namespace Sql

@[simp] theorem Expr.loose_ofColumn (table column : String) :
    (Expr.ofColumn table column).loose = [] := rfl

theorem listLoose_literals (vs : List Json) :
    listLoose (vs.map literal) = vs.flatMap fun v => (Literal.ofJson v).loose := by
  rw [listLoose_eq_flatMap, List.flatMap_map]
  rfl

theorem compares_loose {left e : Expr} {operand : Operand} (h : Compares left operand e) :
    e.loose ⊆ left.loose ++ operand.loose := by
  cases h with
  | value v | is v => simp [Expr.loose, literal, Operand.loose, Operand.values]
  | text s before after => simp [Expr.loose, Literal.loose]
  | column field => simp [Expr.loose, ColumnRef.expr]
  | isNull negated => simp [Expr.loose]
  | range low high negated => simp [Expr.loose, literal, Operand.loose, Operand.values]
  | arrays vs | inList vs negated | quantified q vs =>
    simp [Expr.loose, listLoose_literals, Operand.loose, Operand.values]

theorem loose_gathers : Gathers Expr.loose where
  binary left op right := by rw [Expr.loose]
  not e := by rw [Expr.loose]
  paren e := by rw [Expr.loose]
  truth b := rfl

theorem combined_loose (op : Combinator) (es : List Expr) :
    (combined op es).loose = listLoose es := by
  rw [loose_gathers.combined, listLoose_eq_flatMap]

end Sql

theorem Comparison.expr_loose {d : Dialect} {x : Comparison} {e : Sql.Expr}
    (h : x.expr d = .ok e) : e.loose ⊆ x.loose := by
  unfold Comparison.expr at h
  simp only at h
  split at h
  · cases h
  · exact Sql.compares_loose (Sql.operatorExpr_compares h)

theorem fragmentExpr_loose {c : Catalog} {sql : String} {scope : FragmentScope} {e : Sql.Expr}
    (h : c.fragmentExpr sql scope = .ok e) : e.loose = [.raw sql] := by
  cases scope with
  | field field =>
    cases h
    rfl
  | «exists» source a =>
    simp only [Catalog.fragmentExpr, Catalog.existsQuery, bind_eq_ok, pure_eq_ok] at h
    obtain ⟨q, ⟨owner, -, target, -, tied⟩, rfl⟩ := h
    split at tied <;> cases tied <;> rfl

section

variable {c : Catalog} {d : Dialect}

mutual

theorem Predicate.expr_loose : (p : Predicate) → ∀ {e}, p.expr c d = .ok e → e.loose ⊆ p.loose
  | .comparison x, _, h => Comparison.expr_loose h
  | .qualified _ x, _, h => Comparison.expr_loose h
  | .fragment sql scope, _, h => by
    rw [fragmentExpr_loose h]
    exact List.Subset.refl _
  | .globalPattern _, _, h => by cases h
  | .logical op children, _, h => by
    simp only [Predicate.expr, bind_eq_ok, pure_eq_ok] at h
    obtain ⟨es, rendered, rfl⟩ := h
    rw [Sql.combined_loose]
    exact Predicate.exprs_loose children rendered

theorem Predicate.exprs_loose : (ps : List Predicate) → ∀ {es},
    Predicate.exprs c d ps = .ok es → Sql.listLoose es ⊆ predicatesLoose ps
  | [], _, h => by
    cases h
    exact List.Subset.refl _
  | p :: rest, _, h => by
    simp only [Predicate.exprs, bind_eq_ok, pure_eq_ok] at h
    obtain ⟨e, here, es, others, rfl⟩ := h
    rw [Sql.listLoose, predicatesLoose]
    exact List.append_subset.mpr ⟨List.subset_append_of_subset_left _ (p.expr_loose here),
      List.subset_append_of_subset_right _ (Predicate.exprs_loose rest others)⟩

end

theorem predicate_mapM_loose {p : Option Predicate} {e : Option Sql.Expr}
    (h : p.mapM (Predicate.expr c d) = .ok e) : Sql.clauseLoose e ⊆ predicatesLoose p.toList := by
  cases p with
  | none =>
    cases h
    exact List.Subset.refl _
  | some p =>
    rw [Option.mapM_some, map_eq_ok] at h
    obtain ⟨e, rendered, rfl⟩ := h
    simpa [Sql.clauseLoose, predicatesLoose] using p.expr_loose rendered

theorem sqlJoins_loose {j : JoinNode} {target : Entity} {joins : List Sql.Join}
    (h : j.sqlJoins c target = .ok joins) : joins.flatMap (·.on.loose) = [] := by
  simp only [JoinNode.sqlJoins, bind_eq_ok] at h
  obtain ⟨owner, -, h⟩ := h
  split at h <;> cases h <;> rfl

theorem parts_loose {joins : List JoinNode} {parts : List (List Sql.SelectItem × List Sql.Join)}
    (h : joins.mapM (JoinNode.parts c) = .ok parts) :
    (parts.flatMap (·.1)).flatMap (·.expr.loose) = [] ∧
      (parts.flatMap (·.2)).flatMap (·.on.loose) = [] := by
  induction joins generalizing parts with
  | nil =>
    cases h
    exact ⟨rfl, rfl⟩
  | cons j rest ih =>
    simp only [List.mapM_cons, bind_eq_ok, pure_eq_ok, JoinNode.parts] at h
    obtain ⟨_, ⟨target, -, joins, made, rfl⟩, others, more, rfl⟩ := h
    obtain ⟨items, tables⟩ := ih more
    constructor
    · rw [List.flatMap_cons, List.flatMap_append, items]
      simp [JoinNode.selectItems]
    · rw [List.flatMap_cons, List.flatMap_append, tables, sqlJoins_loose made]
      rfl

theorem sort_loose (sort : Option SortOrder) :
    Sql.orderLoose (sort.map Plan.orderItem).toList = [] := by
  cases sort with
  | none => rfl
  | some s => rcases s with ⟨field | name, direction⟩ <;> rfl

theorem Plan.query_loose {p : Plan} {q : Sql.Query} (h : p.query c d = .ok q) :
    q.loose ⊆ p.loose := by
  simp only [Plan.query, bind_eq_ok, pure_eq_ok] at h
  obtain ⟨root, -, parts, joined, filter, filtered, having, conditioned, rfl⟩ := h
  obtain ⟨selected, tables⟩ := parts_loose joined
  have fields : (p.projection.fields.map (rootItem root)).flatMap (·.expr.loose) = [] := by
    simp [rootItem]
  have functions : (p.aggregates.map aggregateItem).flatMap (·.expr.loose) =
      p.aggregates.map (.function ·.function) := by
    rw [List.flatMap_map, List.map_eq_flatMap]
    rfl
  have grouped : (p.groupBy.map ColumnRef.expr).flatMap Sql.Expr.loose = [] := by
    simp [ColumnRef.expr]
  simp only [Sql.Query.loose, Sql.selectLoose_eq_flatMap, Sql.joinLoose_eq_flatMap,
    Sql.listLoose_eq_flatMap, List.flatMap_append, fields, selected, functions, tables, grouped,
    sort_loose, List.nil_append, List.append_nil]
  exact List.append_subset.mpr ⟨List.subset_append_left _ _,
    List.subset_append_of_subset_right _ (List.append_subset.mpr
      ⟨List.subset_append_of_subset_left _ (predicate_mapM_loose filtered),
        List.subset_append_of_subset_right _ (predicate_mapM_loose conditioned)⟩)⟩

end

end ReadPlan
