import ReadPlan.Predicate.OfHaving
import ReadPlan.Proofs.FilterOperands
import ReadPlan.Proofs.JoinTree

namespace ReadPlan

mutual

def Predicate.Each (P : Predicate → Prop) : Predicate → Prop
  | .logical _ children => predicatesEach P children
  | p => P p

def predicatesEach (P : Predicate → Prop) : List Predicate → Prop
  | [] => True
  | p :: rest => p.Each P ∧ predicatesEach P rest

end

mutual

def Predicate.leaves : Predicate → List Predicate
  | .logical _ children => predicateLeaves children
  | p => [p]

def predicateLeaves : List Predicate → List Predicate
  | [] => []
  | p :: rest => p.leaves ++ predicateLeaves rest

end

section

variable {P : Predicate → Prop}

theorem predicatesEach_iff {ps : List Predicate} : predicatesEach P ps ↔ ∀ p ∈ ps, p.Each P := by
  induction ps with
  | nil => simp [predicatesEach]
  | cons p rest ih => rw [predicatesEach, ih, List.forall_mem_cons]

theorem predicatesEach_append {ps qs : List Predicate} :
    predicatesEach P (ps ++ qs) ↔ predicatesEach P ps ∧ predicatesEach P qs := by
  simp only [predicatesEach_iff, List.forall_mem_append]

mutual

theorem Predicate.Each.imp {R : Predicate → Prop} (h : ∀ p, P p → R p) :
    (p : Predicate) → p.Each P → p.Each R
  | .comparison _, hp | .qualified .., hp | .fragment .., hp | .globalPattern _, hp => h _ hp
  | .logical _ children, hp => predicatesEach_imp h children hp

theorem predicatesEach_imp {R : Predicate → Prop} (h : ∀ p, P p → R p) :
    (ps : List Predicate) → predicatesEach P ps → predicatesEach R ps
  | [], _ => trivial
  | p :: rest, hp => ⟨Predicate.Each.imp h p hp.1, predicatesEach_imp h rest hp.2⟩

end

mutual

theorem Predicate.each_of_mem_leaves : (p : Predicate) → p.Each P → ∀ leaf ∈ p.leaves, P leaf
  | .comparison _, hp, _, hl | .qualified .., hp, _, hl | .fragment .., hp, _, hl
  | .globalPattern _, hp, _, hl => List.mem_singleton.mp hl ▸ hp
  | .logical _ children, hp, _, hl => each_of_mem_predicateLeaves children hp _ hl

theorem each_of_mem_predicateLeaves : (ps : List Predicate) → predicatesEach P ps →
    ∀ leaf ∈ predicateLeaves ps, P leaf
  | [], _, _, hl => by cases hl
  | p :: rest, hp, _, hl =>
    (List.mem_append.mp hl).elim (Predicate.each_of_mem_leaves p hp.1 _)
      (each_of_mem_predicateLeaves rest hp.2 _)

end

theorem all_each {ps : List Predicate} (h : predicatesEach P ps) :
    predicatesEach P (Predicate.all ps).toList := by
  match ps with
  | [] => exact trivial
  | [p] => exact h
  | p :: q :: rest => exact ⟨h, trivial⟩

theorem combine_each (op : Combinator) {ps : List Predicate} (h : predicatesEach P ps) :
    predicatesEach P (Predicate.combine op ps).toList := by
  cases op with
  | and => exact all_each h
  | or =>
    match ps with
    | [] => exact trivial
    | [p] => exact h
    | p :: q :: rest => exact ⟨h, trivial⟩
  | not =>
    match ps with
    | [] => exact trivial
    | [p] => exact ⟨h, trivial⟩
    | p :: q :: rest => exact ⟨⟨h, trivial⟩, trivial⟩

end

section

variable {W : Json → Prop} {R : String → Prop} {P : Predicate → Prop}
  {leaf : Operator → Json → Except QueryError Predicate}

mutual

theorem clause_compile_each
    (leaf_each : ∀ {op v p}, W v → (∀ r ∈ (Clause.compare op v).references, R r) →
      leaf op v = .ok p → p.Each P) :
    (c : Clause) → (∀ v ∈ c.operands, W v) → (∀ r ∈ c.references, R r) →
      ∀ {ps}, c.compile leaf = .ok ps → predicatesEach P ps
  | .compare op v, hw, hr, _, h => by
    simp only [Clause.compile, bind_eq_ok, pure_eq_ok] at h
    obtain ⟨p, made, rfl⟩ := h
    exact ⟨leaf_each (hw v (by simp [Clause.operands])) hr made, trivial⟩
  | .logical op children, hw, hr, _, h => by
    simp only [Clause.compile, bind_eq_ok, pure_eq_ok] at h
    obtain ⟨ps, made, rfl⟩ := h
    exact combine_each op (compileClauseLists_each leaf_each children hw hr made)

theorem compileClauses_each
    (leaf_each : ∀ {op v p}, W v → (∀ r ∈ (Clause.compare op v).references, R r) →
      leaf op v = .ok p → p.Each P) :
    (cs : List Clause) → (∀ v ∈ clauseOperands cs, W v) → (∀ r ∈ clauseReferences cs, R r) →
      ∀ {ps}, compileClauses leaf cs = .ok ps → predicatesEach P ps
  | [], _, _, _, h => by
    cases h
    exact trivial
  | c :: rest, hw, hr, _, h => by
    rw [clauseOperands, List.forall_mem_append] at hw
    rw [clauseReferences, List.forall_mem_append] at hr
    simp only [compileClauses, bind_eq_ok, pure_eq_ok] at h
    obtain ⟨ps, first, qs, more, rfl⟩ := h
    exact predicatesEach_append.mpr
      ⟨clause_compile_each leaf_each c hw.1 hr.1 first,
        compileClauses_each leaf_each rest hw.2 hr.2 more⟩

theorem compileClauseLists_each
    (leaf_each : ∀ {op v p}, W v → (∀ r ∈ (Clause.compare op v).references, R r) →
      leaf op v = .ok p → p.Each P) :
    (lists : List (List Clause)) → (∀ v ∈ clauseListOperands lists, W v) →
      (∀ r ∈ clauseListReferences lists, R r) →
        ∀ {ps}, compileClauseLists leaf lists = .ok ps → predicatesEach P ps
  | [], _, _, _, h => by
    cases h
    exact trivial
  | cs :: rest, hw, hr, _, h => by
    rw [clauseListOperands, List.forall_mem_append] at hw
    rw [clauseListReferences, List.forall_mem_append] at hr
    simp only [compileClauseLists, bind_eq_ok, pure_eq_ok] at h
    obtain ⟨ps, first, qs, more, rfl⟩ := h
    exact predicatesEach_append.mpr
      ⟨all_each (compileClauses_each leaf_each cs hw.1 hr.1 first),
        compileClauseLists_each leaf_each rest hw.2 hr.2 more⟩

end

end

/-- Some demand goes along the path, if there is anything to go along. -/
def Leads (demands : List Demand) (segments : List String) : Prop :=
  segments = [] ∨ ∃ d ∈ demands, segments <+: d.steps.map (·.name)

theorem Leads.mono {demands more : List Demand} (within : demands ⊆ more) {segments : List String}
    (h : Leads demands segments) : Leads more segments :=
  h.imp_right fun ⟨d, hd, begins⟩ => ⟨d, within hd, begins⟩

/-- The scope is at the end of its path, and the path is demanded. -/
structure Scope.Stands (f : Frame) (demands : List Demand) (s : Scope) : Prop where
  reached : f.reach s.segments = .ok s.entity
  leads : Leads demands s.segments

/-- What a filter made a leaf of its predicate from: a comparison of a field that it located, or a
fragment. Whatever the leaf refers to is demanded. -/
inductive Frame.Origin (f : Frame) (demands : List Demand) (W : Json → Prop) (p : Predicate) : Prop
  | compared {s key place bound op v} : s.Stands f demands → f.locate s key false = .ok place →
    f.bindPlace s key place = .ok bound → f.demandPlace place ⊆ demands → W v →
    (∀ r ∈ (Clause.compare op v).references, f.demand r ⊆ demands) →
    f.compare key bound op v = .ok p → Origin f demands W p
  | fragmented {s key sql} : s.Stands f demands → f.fragment s key sql = .ok p →
    Origin f demands W p

section

variable {f : Frame} {demands : List Demand} {W : Json → Prop} {P : Predicate → Prop}

theorem rootScope_stands : f.rootScope.Stands f demands :=
  ⟨rfl, .inl rfl⟩

theorem leads_of_demandPath {segments fields : List String} {e : Entity}
    (reached : f.reach segments = .ok e) (within : f.demandPath segments fields ⊆ demands) :
    Leads demands segments := by
  by_cases none : segments = []
  · exact .inl none
  · simp only [Frame.reach, bind_eq_ok] at reached
    obtain ⟨steps, followed, -⟩ := reached
    have demanded : ⟨steps, fields⟩ ∈ demands :=
      within (Frame.mem_demandPath.mpr ⟨none, followed, rfl⟩)
    have whole : steps.map (·.name) = segments := Catalog.names_of_follow followed
    exact .inr ⟨_, demanded, whole ▸ List.prefix_refl _⟩

theorem demand_subset {references : List String} (within : references.flatMap f.demand ⊆ demands) :
    ∀ r ∈ references, f.demand r ⊆ demands :=
  fun _ hr _ hd => within (List.mem_flatMap_of_mem hr hd)

theorem compare_each_iff {key : String} {bound : BoundField} {op : Operator} {v : Json}
    {p : Predicate} (made : f.compare key bound op v = .ok p) : p.Each P ↔ P p := by
  simp only [Frame.compare, bind_eq_ok, pure_eq_ok] at made
  obtain ⟨operand, -, rfl⟩ := made
  split <;> rfl

theorem fragment_each_iff {s : Scope} {key sql : String} {p : Predicate}
    (made : f.fragment s key sql = .ok p) : p.Each P ↔ P p := by
  simp only [Frame.fragment] at made
  split at made
  · cases made
  · split at made
    · cases made
      rfl
    · split at made <;> cases made
      rfl

-- Every leaf keeps what its place in the filter says about scope, field and demands.
mutual

theorem compileTerms_origin {s : Scope} (stands : s.Stands f demands) : (terms : List Term) →
    termDemands f s terms ⊆ demands → (∀ v ∈ termOperands terms, W v) →
      ∀ {ps}, compileTerms f s terms = .ok ps → predicatesEach (f.Origin demands W) ps
  | [], _, _, _, h => by
    cases h
    exact trivial
  | t :: rest, within, hw, _, h => by
    rw [termDemands, List.append_subset] at within
    rw [termOperands, List.forall_mem_append] at hw
    simp only [compileTerms, bind_eq_ok, pure_eq_ok] at h
    obtain ⟨ps, first, qs, more, rfl⟩ := h
    exact predicatesEach_append.mpr
      ⟨term_compile_origin stands t within.1 hw.1 first,
        compileTerms_origin stands rest within.2 hw.2 more⟩

theorem term_compile_origin {s : Scope} (stands : s.Stands f demands) : (t : Term) →
    t.demands f s ⊆ demands → (∀ v ∈ t.operands, W v) →
      ∀ {ps}, t.compile f s = .ok ps → predicatesEach (f.Origin demands W) ps
  | .logical op children, within, hw, _, h => by
    simp only [Term.compile, bind_eq_ok, pure_eq_ok] at h
    obtain ⟨ps, made, rfl⟩ := h
    exact combine_each op (compileFilters_origin stands children within hw made)
  | .field key condition, within, hw, _, h =>
    condition_compile_origin stands key condition within hw h

theorem compileFilters_origin {s : Scope} (stands : s.Stands f demands) :
    (filters : List (List Term)) → filterDemands f s filters ⊆ demands →
      (∀ v ∈ filterOperands filters, W v) →
        ∀ {ps}, compileFilters f s filters = .ok ps → predicatesEach (f.Origin demands W) ps
  | [], _, _, _, h => by
    cases h
    exact trivial
  | terms :: rest, within, hw, _, h => by
    rw [filterDemands, List.append_subset] at within
    rw [filterOperands, List.forall_mem_append] at hw
    simp only [compileFilters, bind_eq_ok, pure_eq_ok] at h
    obtain ⟨ps, first, qs, more, rfl⟩ := h
    exact predicatesEach_append.mpr
      ⟨all_each (compileTerms_origin stands terms within.1 hw.1 first),
        compileFilters_origin stands rest within.2 hw.2 more⟩

theorem condition_compile_origin {s : Scope} (stands : s.Stands f demands) (key : String) :
    (condition : Condition) → condition.demands f s key ⊆ demands →
      (∀ v ∈ condition.operands, W v) →
        ∀ {ps}, condition.compile f s key = .ok ps → predicatesEach (f.Origin demands W) ps
  | .subquery sql, _, _, _, h => by
    simp only [Condition.compile, bind_eq_ok, pure_eq_ok] at h
    obtain ⟨p, made, rfl⟩ := h
    exact ⟨(fragment_each_iff made).mpr (.fragmented stands made), trivial⟩
  | .operators clauses, within, hw, _, h => by
    simp only [Condition.compile, bind_eq_ok] at h
    obtain ⟨place, located, h⟩ := h
    simp only [Condition.demands, located, List.append_subset] at within
    split at h
    · cases h
    · simp only [bind_eq_ok, pure_eq_ok] at h
      obtain ⟨bound, here, ps, made, rfl⟩ := h
      have leaf {op v p} (hv : W v)
          (hr : ∀ r ∈ (Clause.compare op v).references, f.demand r ⊆ demands)
          (made : f.compare key bound op v = .ok p) : p.Each (f.Origin demands W) :=
        (compare_each_iff made).mpr (.compared stands located here within.1 hv hr made)
      exact all_each (compileClauses_each leaf clauses hw (demand_subset within.2) made)
  | .nested terms, within, hw, _, h => by
    simp only [Condition.compile, bind_eq_ok] at h
    obtain ⟨place, located, h⟩ := h
    simp only [Condition.demands, located] at within
    split at h
    · simp only [bind_eq_ok, pure_eq_ok] at h
      obtain ⟨e, reached, ps, made, rfl⟩ := h
      simp only [reached, List.append_subset] at within
      have below : Scope.Stands f demands ⟨e, _⟩ :=
        ⟨reached, leads_of_demandPath reached within.1⟩
      exact all_each (compileTerms_origin below terms within.2 hw made)
    · simp only [bind_eq_ok] at h
      obtain ⟨bound, -, h⟩ := h
      split at h <;> cases h
      exact trivial
  | .scalar _, _, _, _, h => by
    simp only [Condition.compile, bind_eq_ok] at h
    obtain ⟨place, -, h⟩ := h
    split at h
    · cases h
    · simp only [bind_eq_ok] at h
      obtain ⟨bound, -, h⟩ := h
      cases h

end

theorem filter_compile_origin {filter : Filter} (within : filter.demands f ⊆ demands)
    (hw : ∀ v ∈ termOperands filter, W v) {p : Option Predicate}
    (h : filter.compile f = .ok p) : predicatesEach (f.Origin demands W) p.toList := by
  simp only [Filter.compile, bind_eq_ok, pure_eq_ok] at h
  obtain ⟨ps, made, rfl⟩ := h
  exact all_each (compileTerms_origin rootScope_stands filter within hw made)

end

def MakesEach (W : Json → Prop) (P : Predicate → Prop)
    (leaf : Operator → Json → Except QueryError Predicate) : Prop :=
  ∀ {op v p}, W v → leaf op v = .ok p → p.Each P

structure Frame.MakesEach (f : Frame) (W : Json → Prop) (P : Predicate → Prop) : Prop where
  compared : ∀ key bound, ReadPlan.MakesEach W P (f.compare key bound)
  fragmented : ∀ {s key sql p}, f.fragment s key sql = .ok p → p.Each P

section

variable {f : Frame} {demands : List Demand} {W : Json → Prop} {P : Predicate → Prop}

theorem filter_compile_each (makes : f.MakesEach W P) {filter : Filter}
    (hw : ∀ v ∈ termOperands filter, W v) {p : Option Predicate}
    (h : filter.compile f = .ok p) : predicatesEach P p.toList := by
  refine predicatesEach_imp ?_ _ (filter_compile_origin (List.Subset.refl _) hw h)
  rintro leaf (⟨-, -, -, -, hv, -, made⟩ | ⟨-, made⟩)
  · exact (compare_each_iff made).mp (makes.compared _ _ hv made)
  · exact (fragment_each_iff made).mp (makes.fragmented made)

variable {aggregates : List Aggregate}

theorem having_condition_each
    (compared : ∀ key, ∀ a ∈ aggregates, ∀ {op v p}, W v →
      (∀ r ∈ (Clause.compare op v).references, f.demand r ⊆ demands) →
        Having.compare f key a op v = .ok p → p.Each P) {key : String}
    {clauses : List Clause} (within : (clauseReferences clauses).flatMap f.demand ⊆ demands)
    (hw : ∀ v ∈ clauseOperands clauses, W v) {ps : List Predicate}
    (h : Having.compileCondition f aggregates key (.operators clauses) = .ok ps) :
    predicatesEach P ps := by
  unfold Having.compileCondition at h
  split at h
  · cases h
  · rename_i a found
    have known : a ∈ aggregates := List.mem_of_find?_eq_some found
    simp only [bind_eq_ok, pure_eq_ok] at h
    obtain ⟨ps, made, rfl⟩ := h
    exact all_each (compileClauses_each (compared key a known) clauses hw
      (demand_subset within) made)

theorem having_condition_operators {key : String} {condition : Condition} {ps : List Predicate}
    (h : Having.compileCondition f aggregates key condition = .ok ps) :
    ∃ clauses, condition = .operators clauses := by
  unfold Having.compileCondition at h
  split at h
  · cases h
  · cases condition with
    | operators clauses => exact ⟨clauses, rfl⟩
    | _ => cases h

mutual

theorem having_compileTerms_each
    (compared : ∀ key, ∀ a ∈ aggregates, ∀ {op v p}, W v →
      (∀ r ∈ (Clause.compare op v).references, f.demand r ⊆ demands) →
        Having.compare f key a op v = .ok p → p.Each P) :
    (terms : List Term) → Having.demands f terms ⊆ demands → (∀ v ∈ termOperands terms, W v) →
      ∀ {ps}, Having.compileTerms f aggregates terms = .ok ps → predicatesEach P ps
  | [], _, _, _, h => by
    rw [Having.compileTerms] at h
    cases h
    exact trivial
  | .logical op children :: rest, within, hw, _, h => by
    rw [Having.demands, List.append_subset] at within
    rw [termOperands, List.forall_mem_append] at hw
    simp only [Having.compileTerms, bind_eq_ok, pure_eq_ok] at h
    obtain ⟨ps, first, qs, more, rfl⟩ := h
    exact predicatesEach_append.mpr
      ⟨combine_each op (having_compileFilters_each compared children within.1 hw.1 first),
        having_compileTerms_each compared rest within.2 hw.2 more⟩
  | .field key condition :: rest, within, hw, _, h => by
    rw [termOperands, List.forall_mem_append] at hw
    simp only [Having.compileTerms, bind_eq_ok, pure_eq_ok] at h
    obtain ⟨ps, first, qs, more, rfl⟩ := h
    obtain ⟨clauses, rfl⟩ := having_condition_operators first
    rw [Having.demands, List.append_subset] at within
    exact predicatesEach_append.mpr
      ⟨having_condition_each compared within.1 hw.1 first,
        having_compileTerms_each compared rest within.2 hw.2 more⟩

theorem having_compileFilters_each
    (compared : ∀ key, ∀ a ∈ aggregates, ∀ {op v p}, W v →
      (∀ r ∈ (Clause.compare op v).references, f.demand r ⊆ demands) →
        Having.compare f key a op v = .ok p → p.Each P) :
    (filters : List (List Term)) → Having.demandsOfFilters f filters ⊆ demands →
      (∀ v ∈ filterOperands filters, W v) →
        ∀ {ps}, Having.compileFilters f aggregates filters = .ok ps → predicatesEach P ps
  | [], _, _, _, h => by
    rw [Having.compileFilters] at h
    cases h
    exact trivial
  | terms :: rest, within, hw, _, h => by
    rw [Having.demandsOfFilters, List.append_subset] at within
    rw [filterOperands, List.forall_mem_append] at hw
    simp only [Having.compileFilters, bind_eq_ok, pure_eq_ok] at h
    obtain ⟨ps, first, qs, more, rfl⟩ := h
    exact predicatesEach_append.mpr
      ⟨all_each (having_compileTerms_each compared terms within.1 hw.1 first),
        having_compileFilters_each compared rest within.2 hw.2 more⟩

end

theorem having_compile_demanding
    (compared : ∀ key, ∀ a ∈ aggregates, ∀ {op v p}, W v →
      (∀ r ∈ (Clause.compare op v).references, f.demand r ⊆ demands) →
        Having.compare f key a op v = .ok p → p.Each P)
    {filter : Filter} (within : Having.demands f filter ⊆ demands)
    (hw : ∀ v ∈ termOperands filter, W v) {p : Option Predicate}
    (h : Having.compile f aggregates filter = .ok p) : predicatesEach P p.toList := by
  simp only [Having.compile, bind_eq_ok, pure_eq_ok] at h
  obtain ⟨ps, made, rfl⟩ := h
  exact all_each (having_compileTerms_each compared filter within hw made)

theorem having_compile_each
    (compared : ∀ key, ∀ a ∈ aggregates, MakesEach W P (Having.compare f key a))
    {filter : Filter} (hw : ∀ v ∈ termOperands filter, W v) {p : Option Predicate}
    (h : Having.compile f aggregates filter = .ok p) : predicatesEach P p.toList :=
  having_compile_demanding (fun key a known _ _ _ hv _ made => compared key a known hv made)
    (List.Subset.refl _) hw h

end

end ReadPlan
