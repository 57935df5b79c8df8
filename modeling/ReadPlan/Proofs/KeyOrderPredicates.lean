import ReadPlan.Predicate.OfFilter
import ReadPlan.Proofs.KeyOrder

namespace ReadPlan

mutual

/-- Predicates that are the same up to the order of what stands under a combinator. -/
def Predicate.Like : Predicate → Predicate → Prop
  | .logical op children, q => ∃ others, q = .logical op others ∧ predicatesLike children others
  | p, q => p = q

def predicatesLike : List Predicate → List Predicate → Prop
  | [], qs => qs = []
  | p :: rest, qs => ∃ q more, qs.Perm (q :: more) ∧ p.Like q ∧ predicatesLike rest more

end

theorem predicatesLike_iff {ps qs : List Predicate} :
    predicatesLike ps qs ↔ Matched Predicate.Like ps qs := by
  induction ps generalizing qs with
  | nil => rw [predicatesLike, Matched.nil_iff]
  | cons p rest ih => simp only [predicatesLike, Matched.cons_iff, ih]

mutual

theorem Predicate.like_refl : (p : Predicate) → p.Like p
  | .logical _ children => ⟨children, rfl, predicatesLike_refl children⟩
  | .comparison _ | .qualified _ _ | .fragment _ _ | .globalPattern _ => rfl

theorem predicatesLike_refl : (ps : List Predicate) → predicatesLike ps ps
  | [] => rfl
  | p :: rest => ⟨p, rest, .refl _, p.like_refl, predicatesLike_refl rest⟩

end

section

variable {ps qs ps' qs' : List Predicate}

theorem predicatesLike_append (first : predicatesLike ps qs) (second : predicatesLike ps' qs') :
    predicatesLike (ps ++ ps') (qs ++ qs') :=
  predicatesLike_iff.mpr ((predicatesLike_iff.mp first).append (predicatesLike_iff.mp second))

theorem predicatesLike_perm (h : predicatesLike ps qs) (moved : qs.Perm qs') :
    predicatesLike ps qs' :=
  predicatesLike_iff.mpr ((predicatesLike_iff.mp h).reorder (.refl _) moved)

theorem predicatesLike_single {p q : Predicate} (h : p.Like q) : predicatesLike [p] [q] :=
  ⟨q, [], .refl _, h, rfl⟩

theorem predicatesLike_combine (op : Combinator) (h : predicatesLike ps qs) :
    predicatesLike (Predicate.combine op ps).toList (Predicate.combine op qs).toList := by
  have long := (predicatesLike_iff.mp h).length_eq
  match ps, qs, h, long with
  | [], [], _, _ => cases op <;> exact rfl
  | [p], [q], ⟨_, _, moved, here, rfl⟩, _ =>
    cases List.singleton_perm_singleton.mp moved
    cases op with
    | and | or => exact predicatesLike_single here
    | not => exact predicatesLike_single ⟨[q], rfl, predicatesLike_single here⟩
  | p :: p' :: ps, q :: q' :: qs, h, _ =>
    cases op with
    | and | or => exact predicatesLike_single ⟨q :: q' :: qs, rfl, h⟩
    | not =>
      have together :
          Predicate.Like (.logical .and (p :: p' :: ps)) (.logical .and (q :: q' :: qs)) :=
        ⟨q :: q' :: qs, rfl, h⟩
      exact predicatesLike_single ⟨[_], rfl, predicatesLike_single together⟩

theorem predicatesLike_all (h : predicatesLike ps qs) :
    predicatesLike (Predicate.all ps).toList (Predicate.all qs).toList :=
  predicatesLike_combine .and h

end

/-! Operands. -/

/-- A scalar or an array of scalars: nothing in it has keys. -/
def Json.isFlat : Json → Bool
  | .arr items => items.all Json.isScalar
  | v => v.isScalar

theorem Json.scalar_reordered {v w : Json} (h : v.Reordered w) :
    v.isScalar = w.isScalar ∧ (v.isScalar = true → v = w) := by
  cases v with
  | obj | arr =>
    obtain ⟨_, rfl, -⟩ := h
    exact ⟨rfl, fun scalar => by cases scalar⟩
  | _ =>
    cases h
    exact ⟨rfl, fun _ => rfl⟩

theorem scalars_reordered {vs ws : List Json} (h : itemsReordered vs ws) :
    vs.all Json.isScalar = ws.all Json.isScalar ∧ (vs.all Json.isScalar = true → vs = ws) := by
  induction vs generalizing ws with
  | nil =>
    cases h
    exact ⟨rfl, fun _ => rfl⟩
  | cons v rest ih =>
    obtain ⟨w, more, rfl, here, others⟩ := h
    obtain ⟨first, same⟩ := Json.scalar_reordered here
    obtain ⟨later, equal⟩ := ih others
    refine ⟨by rw [List.all_cons, List.all_cons, first, later], fun scalars => ?_⟩
    rw [List.all_cons, Bool.and_eq_true] at scalars
    rw [same scalars.1, equal scalars.2]

theorem Json.flat_reordered {v w : Json} (h : v.Reordered w) :
    v.isFlat = w.isFlat ∧ (v.isFlat = true → v = w) := by
  cases v with
  | arr items =>
    obtain ⟨others, rfl, h⟩ := h
    obtain ⟨same, equal⟩ := scalars_reordered h
    exact ⟨same, fun flat => by rw [equal flat]⟩
  | obj ms =>
    obtain ⟨ns, rfl, -⟩ := h
    exact ⟨rfl, fun flat => by cases flat⟩
  | _ =>
    cases h
    exact ⟨rfl, fun _ => rfl⟩

theorem Operand.flat_of_ofJson {f : Frame} {path : String} {op : Operator} {v : Json}
    {operand : Operand} (h : Operand.ofJson f path op v = .ok operand) : v.isFlat = true := by
  cases v with
  | obj ms =>
    cases shape : op.shape <;> simp [Operand.ofJson, shape, scalarFault?, Json.isScalar] at h
  | arr items =>
    cases shape : op.shape with
    | scalar | reference => simp [Operand.ofJson, shape, scalarFault?, Json.isScalar] at h
    | list =>
      simp only [Operand.ofJson, shape] at h
      split at h
      · assumption
      · cases h
    | range =>
      match items with
      | [low, high] =>
        simp only [Operand.ofJson, shape] at h
        split at h
        · rename_i both
          simpa [Json.isFlat] using both
        · cases h
      | [] | [_] | _ :: _ :: _ :: _ => simp [Operand.ofJson, shape] at h
  | _ => rfl

theorem Operand.ofJson_reordered (f : Frame) (path : String) (op : Operator) {v w : Json}
    (h : v.Reordered w) : Accord Eq (Operand.ofJson f path op v) (Operand.ofJson f path op w) := by
  obtain ⟨same, equal⟩ := Json.flat_reordered h
  by_cases flat : v.isFlat = true
  · rw [equal flat]
    exact .refl (fun _ => rfl) _
  · cases here : Operand.ofJson f path op v with
    | ok operand => exact absurd (Operand.flat_of_ofJson here) flat
    | error e =>
      cases there : Operand.ofJson f path op w with
      | ok operand => exact absurd (same.trans (Operand.flat_of_ofJson there)) flat
      | error e' => exact .error

/-! Compiling. -/

section

variable {leaf : Operator → Json → Except QueryError Predicate}

theorem compileClauses_perm {cs ds : List Clause} (h : cs.Perm ds) :
    Accord List.Perm (compileClauses leaf cs) (compileClauses leaf ds) := by
  have each (cs : List Clause) :
      compileClauses leaf cs = List.flatten <$> cs.mapM (Clause.compile leaf) := by
    induction cs with
    | nil => rfl
    | cons c rest ih =>
      rw [compileClauses, ih, List.mapM_cons]
      cases c.compile leaf with
      | error e => rfl
      | ok ps => cases rest.mapM (Clause.compile leaf) <;> rfl
  rw [each, each]
  exact (Accord.mapM_perm _ h).map fun _ _ => List.Perm.flatten

mutual

theorem clause_compile_like
    (leaves : ∀ op v w, v.Reordered w → Accord Predicate.Like (leaf op v) (leaf op w)) :
    (c : Clause) → ∀ {d}, c.Like d → Accord predicatesLike (c.compile leaf) (d.compile leaf)
  | .compare op v, _, ⟨w, same, h⟩ => by
    subst same
    unfold Clause.compile
    exact (leaves op v w h).bind fun p q related => .ok (predicatesLike_single related)
  | .logical op children, _, ⟨others, same, h⟩ => by
    subst same
    unfold Clause.compile
    exact (compileClauseLists_like leaves children h).bind fun ps qs related =>
      .ok (predicatesLike_combine op related)

theorem compileClauses_like
    (leaves : ∀ op v w, v.Reordered w → Accord Predicate.Like (leaf op v) (leaf op w)) :
    (cs : List Clause) → ∀ {ds}, clausesLike cs ds →
      Accord predicatesLike (compileClauses leaf cs) (compileClauses leaf ds)
  | [], _, h => by
    cases h
    exact .ok rfl
  | c :: rest, ds, ⟨d, more, moved, here, others⟩ => by
    have pointwise : Accord predicatesLike (compileClauses leaf (c :: rest))
        (compileClauses leaf (d :: more)) := by
      unfold compileClauses
      refine (clause_compile_like leaves c here).bind fun ps qs related => ?_
      exact (compileClauses_like leaves rest others).bind fun ps' qs' further =>
        .ok (predicatesLike_append related further)
    exact pointwise.trans (compileClauses_perm moved.symm) fun _ _ _ => predicatesLike_perm

theorem compileClauseLists_like
    (leaves : ∀ op v w, v.Reordered w → Accord Predicate.Like (leaf op v) (leaf op w)) :
    (lists : List (List Clause)) → ∀ {lists'}, clauseListsLike lists lists' →
      Accord predicatesLike (compileClauseLists leaf lists) (compileClauseLists leaf lists')
  | [], _, h => by
    cases h
    exact .ok rfl
  | cs :: rest, _, ⟨ds, more, same, here, others⟩ => by
    subst same
    unfold compileClauseLists
    refine (compileClauses_like leaves cs here).bind fun ps qs related => ?_
    exact (compileClauseLists_like leaves rest others).bind fun ps' qs' further =>
      .ok (predicatesLike_append (predicatesLike_all related) further)

end

end

section

variable {f : Frame}

theorem compare_like (key : String) (bound : BoundField) (op : Operator) (v w : Json)
    (h : v.Reordered w) :
    Accord Predicate.Like (f.compare key bound op v) (f.compare key bound op w) := by
  unfold Frame.compare
  refine (Operand.ofJson_reordered f key op h).bind ?_
  rintro operand _ rfl
  exact .ok (Predicate.like_refl _)

theorem firstFieldKey_isSome (terms : List Term) :
    (firstFieldKey terms).isSome = terms.any fun t => t.firstFieldKey.isSome := by
  induction terms with
  | nil => rfl
  | cons t rest ih => rw [firstFieldKey, Option.isSome_or, ih, List.any_cons]

mutual

theorem term_firstFieldKey_like : (t : Term) → ∀ {u}, t.Like u →
    t.firstFieldKey.isSome = u.firstFieldKey.isSome
  | .logical op children, _, ⟨others, same, h⟩ => by
    subst same
    exact firstKeyOfFilters_like children h
  | .field key condition, _, ⟨other, same, _⟩ => by
    subst same
    rfl

theorem firstFieldKey_like : (ts : List Term) → ∀ {us}, termsLike ts us →
    (firstFieldKey ts).isSome = (firstFieldKey us).isSome
  | [], _, h => by
    cases h
    rfl
  | t :: rest, us, ⟨u, more, moved, here, others⟩ => by
    rw [firstFieldKey_isSome us, moved.any_eq, ← firstFieldKey_isSome, firstFieldKey,
      firstFieldKey, Option.isSome_or, Option.isSome_or, term_firstFieldKey_like t here,
      firstFieldKey_like rest others]

theorem firstKeyOfFilters_like : (filters : List (List Term)) → ∀ {others},
    filtersLike filters others →
      (firstKeyOfFilters filters).isSome = (firstKeyOfFilters others).isSome
  | [], _, h => by
    cases h
    rfl
  | ts :: rest, _, ⟨us, more, same, here, others⟩ => by
    subst same
    rw [firstKeyOfFilters, firstKeyOfFilters, Option.isSome_or, Option.isSome_or,
      firstFieldKey_like ts here, firstKeyOfFilters_like rest others]

end

theorem compileTerms_perm (s : Scope) {ts us : List Term} (h : ts.Perm us) :
    Accord List.Perm (compileTerms f s ts) (compileTerms f s us) := by
  have each (ts : List Term) :
      compileTerms f s ts = List.flatten <$> ts.mapM (Term.compile f s) := by
    induction ts with
    | nil => rfl
    | cons t rest ih =>
      rw [compileTerms, ih, List.mapM_cons]
      cases t.compile f s with
      | error e => rfl
      | ok ps => cases rest.mapM (Term.compile f s) <;> rfl
  rw [each, each]
  exact (Accord.mapM_perm _ h).map fun _ _ => List.Perm.flatten

mutual

theorem compileTerms_like (s : Scope) : (ts : List Term) → ∀ {us}, termsLike ts us →
    Accord predicatesLike (compileTerms f s ts) (compileTerms f s us)
  | [], _, h => by
    cases h
    exact .ok rfl
  | t :: rest, us, ⟨u, more, moved, here, others⟩ => by
    have pointwise : Accord predicatesLike (compileTerms f s (t :: rest))
        (compileTerms f s (u :: more)) := by
      unfold compileTerms
      refine (term_compile_like s t here).bind fun ps qs related => ?_
      exact (compileTerms_like s rest others).bind fun ps' qs' further =>
        .ok (predicatesLike_append related further)
    exact pointwise.trans (compileTerms_perm s moved.symm) fun _ _ _ => predicatesLike_perm
termination_by structural ts => ts

theorem term_compile_like (s : Scope) : (t : Term) → ∀ {u}, t.Like u →
    Accord predicatesLike (t.compile f s) (u.compile f s)
  | .logical op children, _, ⟨others, same, h⟩ => by
    subst same
    unfold Term.compile
    exact (compileFilters_like s children h).bind fun ps qs related =>
      .ok (predicatesLike_combine op related)
  | .field key condition, _, ⟨other, same, h⟩ => by
    subst same
    unfold Term.compile
    exact condition_compile_like s key condition h
termination_by structural t => t

theorem compileFilters_like (s : Scope) : (filters : List (List Term)) → ∀ {others},
    filtersLike filters others →
      Accord predicatesLike (compileFilters f s filters) (compileFilters f s others)
  | [], _, h => by
    cases h
    exact .ok rfl
  | ts :: rest, _, ⟨us, more, same, here, others⟩ => by
    subst same
    unfold compileFilters
    refine (compileTerms_like s ts here).bind fun ps qs related => ?_
    exact (compileFilters_like s rest others).bind fun ps' qs' further =>
      .ok (predicatesLike_append (predicatesLike_all related) further)
termination_by structural filters => filters

theorem condition_compile_like (s : Scope) (key : String) : (c : Condition) → ∀ {d}, c.Like d →
    Accord predicatesLike (c.compile f s key) (d.compile f s key)
  | .subquery sql, _, h => by
    cases h
    exact .refl predicatesLike_refl _
  | .scalar v, _, ⟨w, same, _⟩ => by
    subst same
    exact .refl predicatesLike_refl _
  | .operators clauses, _, ⟨others, same, h⟩ => by
    subst same
    unfold Condition.compile
    cases f.locate s key false with
    | error e => exact .error
    | ok place =>
      have bound : Accord predicatesLike
          (do
            let bound ← f.bindPlace s key place
            let ps ← compileClauses (f.compare key bound) clauses
            return (Predicate.all ps).toList)
          (do
            let bound ← f.bindPlace s key place
            let ps ← compileClauses (f.compare key bound) others
            return (Predicate.all ps).toList) := by
        refine (Accord.refl (R := Eq) (fun _ => rfl) (f.bindPlace s key place)).bind ?_
        rintro bound _ rfl
        exact (compileClauses_like (compare_like key bound) clauses h).bind fun ps qs related =>
          .ok (predicatesLike_all related)
      cases place with
      | association segments => exact .error
      | own | joined => exact bound
  | .nested terms, _, ⟨others, same, h⟩ => by
    subst same
    unfold Condition.compile
    cases f.locate s key true with
    | error e => exact .error
    | ok place =>
      have unnested : Accord predicatesLike
          (do
            let _ ← f.bindPlace s key place
            match firstFieldKey terms with
            | none => return []
            | some token => .error (.unknownOperator token))
          (do
            let _ ← f.bindPlace s key place
            match firstFieldKey others with
            | none => return []
            | some token => .error (.unknownOperator token)) := by
        refine (Accord.refl (R := Eq) (fun _ => rfl) (f.bindPlace s key place)).bind ?_
        rintro bound _ rfl
        have known := firstFieldKey_like terms h
        cases here : firstFieldKey terms with
        | none =>
          rw [here, Option.isSome_none, eq_comm, Option.isSome_eq_false_iff,
            Option.isNone_iff_eq_none] at known
          rw [known]
          exact .ok rfl
        | some token =>
          rw [here, Option.isSome_some, eq_comm, Option.isSome_iff_exists] at known
          obtain ⟨token', known⟩ := known
          rw [known]
          exact .error
      cases place with
      | association segments =>
        simp only [ok_bind]
        refine (Accord.refl (R := Eq) (fun _ => rfl) (f.reach segments)).bind ?_
        rintro e _ rfl
        exact (compileTerms_like ⟨e, segments⟩ terms h).bind fun ps qs related =>
          .ok (predicatesLike_all related)
      | own | joined => exact unnested
termination_by structural c => c

end

end

/-! What is collected from operator maps. -/

section

variable {α : Type} {g : Clause → List α}

mutual

theorem clause_collects
    (logical : ∀ op children, g (.logical op children) = children.flatMap (·.flatMap g))
    (leaves : ∀ op v w, v.Reordered w → g (.compare op v) = g (.compare op w)) :
    (c : Clause) → ∀ {d}, c.Like d → (g c).Perm (g d)
  | .compare op v, _, ⟨w, same, h⟩ => by
    subst same
    rw [leaves op v w h]
  | .logical op children, _, ⟨others, same, h⟩ => by
    subst same
    rw [logical, logical]
    exact clauseLists_collect logical leaves children h

theorem clauses_collect
    (logical : ∀ op children, g (.logical op children) = children.flatMap (·.flatMap g))
    (leaves : ∀ op v w, v.Reordered w → g (.compare op v) = g (.compare op w)) :
    (cs : List Clause) → ∀ {ds}, clausesLike cs ds → (cs.flatMap g).Perm (ds.flatMap g)
  | [], _, h => by
    cases h
    exact .nil
  | c :: rest, ds, ⟨d, more, moved, here, others⟩ => by
    refine .trans ?_ (moved.flatMap_right g).symm
    rw [List.flatMap_cons, List.flatMap_cons]
    exact (clause_collects logical leaves c here).append
      (clauses_collect logical leaves rest others)

theorem clauseLists_collect
    (logical : ∀ op children, g (.logical op children) = children.flatMap (·.flatMap g))
    (leaves : ∀ op v w, v.Reordered w → g (.compare op v) = g (.compare op w)) :
    (lists : List (List Clause)) → ∀ {others}, clauseListsLike lists others →
      (lists.flatMap (·.flatMap g)).Perm (others.flatMap (·.flatMap g))
  | [], _, h => by
    cases h
    exact .nil
  | cs :: rest, _, ⟨ds, more, same, here, others⟩ => by
    subst same
    rw [List.flatMap_cons, List.flatMap_cons]
    exact (clauses_collect logical leaves cs here).append
      (clauseLists_collect logical leaves rest others)

end

end

theorem clauseScalars_eq (cs : List Clause) : clauseScalars cs = cs.flatMap Clause.scalars := by
  induction cs with
  | nil => rfl
  | cons c rest ih => rw [clauseScalars, ih, List.flatMap_cons]

theorem clauseReferences_eq (cs : List Clause) :
    clauseReferences cs = cs.flatMap Clause.references := by
  induction cs with
  | nil => rfl
  | cons c rest ih => rw [clauseReferences, ih, List.flatMap_cons]

mutual

theorem Json.scalars_reordered : (v : Json) → ∀ {w}, v.Reordered w → v.scalars = w.scalars
  | .obj _, _, ⟨_, same, _⟩ => by
    subst same
    rfl
  | .arr items, _, ⟨_, same, h⟩ => by
    subst same
    exact itemScalars_reordered items h
  | .null, _, h | .bool _, _, h | .int _, _, h | .float _, _, h | .str _, _, h => by
    cases h
    rfl

theorem itemScalars_reordered : (vs : List Json) → ∀ {ws}, itemsReordered vs ws →
    itemScalars vs = itemScalars ws
  | [], _, h => by
    cases h
    rfl
  | v :: rest, _, ⟨w, more, same, here, others⟩ => by
    subst same
    rw [itemScalars, itemScalars, v.scalars_reordered here, itemScalars_reordered rest others]

end

theorem clauseScalars_like {cs ds : List Clause} (h : clausesLike cs ds) :
    (clauseScalars cs).Perm (clauseScalars ds) := by
  rw [clauseScalars_eq, clauseScalars_eq]
  refine clauses_collect (fun op children => ?_) (fun op v w => v.scalars_reordered) cs h
  rw [Clause.scalars]
  induction children with
  | nil => rfl
  | cons cs rest ih => rw [clauseListScalars, ih, List.flatMap_cons, clauseScalars_eq]

theorem clauseReferences_like {cs ds : List Clause} (h : clausesLike cs ds) :
    (clauseReferences cs).Perm (clauseReferences ds) := by
  rw [clauseReferences_eq, clauseReferences_eq]
  refine clauses_collect (fun op children => ?_) (fun op v w reordered => ?_) cs h
  · rw [Clause.references]
    induction children with
    | nil => rfl
    | cons cs rest ih => rw [clauseListReferences, ih, List.flatMap_cons, clauseReferences_eq]
  · cases v with
    | str reference =>
      cases reordered
      rfl
    | obj | arr =>
      obtain ⟨_, rfl, -⟩ := reordered
      cases op <;> rfl
    | _ =>
      cases reordered
      rfl

/-! Scalars. -/

mutual

theorem filterScalars_like : (ts : List Term) → ∀ {us}, termsLike ts us →
    (filterScalars ts).Perm (filterScalars us)
  | [], _, h => by
    cases h
    exact .nil
  | t :: rest, us, ⟨u, more, moved, here, others⟩ => by
    have each (ts : List Term) : filterScalars ts = ts.flatMap Term.scalars := by
      induction ts with
      | nil => rfl
      | cons t rest ih => rw [filterScalars, ih, List.flatMap_cons]
    refine .trans ?_ (each us ▸ (moved.flatMap_right Term.scalars).symm)
    rw [filterScalars, List.flatMap_cons, ← each]
    exact (term_scalars_like t here).append (filterScalars_like rest others)
termination_by structural ts => ts

theorem term_scalars_like : (t : Term) → ∀ {u}, t.Like u → t.scalars.Perm u.scalars
  | .logical op children, _, ⟨others, same, h⟩ => by
    subst same
    exact filterListScalars_like children h
  | .field key condition, _, ⟨other, same, h⟩ => by
    subst same
    exact condition_scalars_like condition h
termination_by structural t => t

theorem filterListScalars_like : (filters : List (List Term)) → ∀ {others},
    filtersLike filters others → (filterListScalars filters).Perm (filterListScalars others)
  | [], _, h => by
    cases h
    exact .nil
  | ts :: rest, _, ⟨us, more, same, here, others⟩ => by
    subst same
    rw [filterListScalars, filterListScalars]
    exact (filterScalars_like ts here).append (filterListScalars_like rest others)
termination_by structural filters => filters

theorem condition_scalars_like : (c : Condition) → ∀ {d}, c.Like d → c.scalars.Perm d.scalars
  | .subquery sql, _, h => by
    cases h
    exact .nil
  | .operators clauses, _, ⟨others, same, h⟩ => by
    subst same
    exact clauseScalars_like h
  | .nested terms, _, ⟨others, same, h⟩ => by
    subst same
    exact filterScalars_like terms h
  | .scalar v, _, ⟨w, same, h⟩ => by
    subst same
    rw [Condition.scalars, Condition.scalars, v.scalars_reordered h]
termination_by structural c => c

end

/-! Demands. -/

def Demand.Like (d e : Demand) : Prop :=
  d.steps = e.steps ∧ d.fields.Perm e.fields

theorem demandsLike_of_perm {ds es : List Demand} (h : ds.Perm es) : Matched Demand.Like ds es :=
  (Matched.refl fun _ _ => ⟨rfl, .refl _⟩).reorder (.refl _) h

theorem namedFields_like (e : Entity) {ts us : List Term} (h : termsLike ts us) :
    (namedFields e ts).Perm (namedFields e us) := by
  induction ts generalizing us with
  | nil =>
    cases h
    exact .nil
  | cons t rest ih =>
    obtain ⟨u, more, moved, here, others⟩ := h
    have same : namedFields e [t] = namedFields e [u] := by
      cases t with
      | logical op children =>
        obtain ⟨_, rfl, -⟩ := here
        rfl
      | field key condition =>
        obtain ⟨_, rfl, -⟩ := here
        rfl
    have split (t : Term) (ts : List Term) :
        namedFields e (t :: ts) = namedFields e [t] ++ namedFields e ts := by
      rw [namedFields, ← List.singleton_append, List.filterMap_append]
      rfl
    refine .trans ?_ (moved.filterMap _).symm
    change (namedFields e (t :: rest)).Perm (namedFields e (u :: more))
    rw [split t rest, split u more, same]
    exact (ih others).append_left _

section

variable {f : Frame}

mutual

theorem termDemands_like (s : Scope) : (ts : List Term) → ∀ {us}, termsLike ts us →
    Matched Demand.Like (termDemands f s ts) (termDemands f s us)
  | [], _, h => by
    cases h
    exact .nil
  | t :: rest, us, ⟨u, more, moved, here, others⟩ => by
    have each (ts : List Term) : termDemands f s ts = ts.flatMap (Term.demands f s) := by
      induction ts with
      | nil => rfl
      | cons t rest ih => rw [termDemands, ih, List.flatMap_cons]
    have moved : (termDemands f s us).Perm (termDemands f s (u :: more)) := by
      rw [each, each]
      exact moved.flatMap_right _
    exact ((term_demands_like s t here).append (termDemands_like s rest others)).reorder
      (.refl _) moved.symm
termination_by structural ts => ts

theorem term_demands_like (s : Scope) : (t : Term) → ∀ {u}, t.Like u →
    Matched Demand.Like (t.demands f s) (u.demands f s)
  | .logical op children, _, ⟨others, same, h⟩ => by
    subst same
    exact filterDemands_like s children h
  | .field key condition, _, ⟨other, same, h⟩ => by
    subst same
    exact condition_demands_like s key condition h
termination_by structural t => t

theorem filterDemands_like (s : Scope) : (filters : List (List Term)) → ∀ {others},
    filtersLike filters others →
      Matched Demand.Like (filterDemands f s filters) (filterDemands f s others)
  | [], _, h => by
    cases h
    exact .nil
  | ts :: rest, _, ⟨us, more, same, here, others⟩ => by
    subst same
    exact (termDemands_like s ts here).append (filterDemands_like s rest others)
termination_by structural filters => filters

theorem condition_demands_like (s : Scope) (key : String) : (c : Condition) → ∀ {d}, c.Like d →
    Matched Demand.Like (c.demands f s key) (d.demands f s key)
  | .subquery sql, _, h => by
    cases h
    exact .nil
  | .scalar v, _, ⟨w, same, _⟩ => by
    subst same
    exact .nil
  | .operators clauses, _, ⟨others, same, h⟩ => by
    subst same
    unfold Condition.demands
    cases f.locate s key false with
    | error e => exact .nil
    | ok place =>
      apply demandsLike_of_perm
      exact ((clauseReferences_like h).flatMap_right f.demand).append_left _
  | .nested terms, _, ⟨others, same, h⟩ => by
    subst same
    unfold Condition.demands
    cases f.locate s key true with
    | error e => exact .nil
    | ok place =>
      cases place with
      | association segments =>
        dsimp only
        cases f.reach segments with
        | error e => exact .nil
        | ok e =>
          have named : Matched Demand.Like (f.demandPath segments (namedFields e terms))
              (f.demandPath segments (namedFields e others)) := by
            unfold Frame.demandPath
            cases f.steps segments with
            | error e => exact .nil
            | ok steps => exact .cons ⟨rfl, namedFields_like e h⟩ .nil
          exact named.append (termDemands_like ⟨e, segments⟩ terms h)
      | own | joined => exact .refl fun _ _ => ⟨rfl, .refl _⟩
termination_by structural c => c

end

end

end ReadPlan
