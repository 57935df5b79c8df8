import ReadPlan.Predicate.OfHaving
import ReadPlan.Proofs.CatalogBuild
import ReadPlan.Proofs.FilterOperands
import ReadPlan.Proofs.Outcome

namespace ReadPlan

/-- Both fail with errors of one kind, or both have results, which are related. -/
inductive Alike {α β : Type} (R : α → β → Prop) : Except QueryError α → Except QueryError β → Prop
  | ok {a : α} {b : β} (related : R a b) : Alike R (.ok a) (.ok b)
  | error {e e' : QueryError} (kind : e.kind = e'.kind) : Alike R (.error e) (.error e')

namespace Alike

variable {α β γ δ : Type} {R : α → β → Prop} {S : γ → δ → Prop} {x : Except QueryError α}
  {y : Except QueryError β}

theorem bind {f : α → Except QueryError γ} {g : β → Except QueryError δ} (h : Alike R x y)
    (next : ∀ {a b}, R a b → Alike S (f a) (g b)) : Alike S (x >>= f) (y >>= g) := by
  cases h with
  | ok related => exact next related
  | error kind => exact .error kind

theorem map {f : α → γ} {g : β → δ} (h : Alike R x y) (next : ∀ {a b}, R a b → S (f a) (g b)) :
    Alike S (f <$> x) (g <$> y) := by
  cases h with
  | ok related => exact .ok (next related)
  | error kind => exact .error kind

theorem map_left {T : γ → β → Prop} {f : α → γ} (h : Alike R x y)
    (next : ∀ a b, R a b → T (f a) b) : Alike T (f <$> x) y := by
  cases h with
  | ok related => exact .ok (next _ _ related)
  | error kind => exact .error kind

theorem ok_left {a : α} (h : Alike R x y) (left : x = .ok a) : ∃ b, y = .ok b ∧ R a b := by
  subst left
  cases h with
  | ok related => exact ⟨_, rfl, related⟩

theorem through {T : γ → β → Prop} {z : Except QueryError γ} (h : Alike R x y)
    (h' : Alike T z y) : Alike (fun a c => ∃ b, y = .ok b ∧ R a b ∧ T c b) x z := by
  cases h with
  | ok left =>
    cases h' with
    | ok right => exact .ok ⟨_, rfl, left, right⟩
  | error kind =>
    cases h' with
    | error kind' => exact .error (kind.trans kind'.symm)

end Alike

/-! Where a condition stands only shows in the places that its errors name. -/

mutual

theorem readClauses_alike (path path' : String) : (ms : Json.Members) →
    Alike Eq (readClauses path ms) (readClauses path' ms)
  | [] => .ok rfl
  | (token, operand) :: rest => by
    unfold readClauses
    refine (readClause_alike _ _ token operand).bind ?_
    rintro clause _ rfl
    refine (readClauses_alike path path' rest).bind ?_
    rintro clauses _ rfl
    exact .ok rfl

theorem readClause_alike (path path' token : String) : (v : Json) →
    Alike Eq (readClause path token v) (readClause path' token v)
  | .obj inner => by
    unfold readClause
    split
    · refine (readClauses_alike path path' inner).bind ?_
      rintro clauses _ rfl
      exact .ok rfl
    · exact .error rfl
    · split
      · exact .ok rfl
      · exact .error rfl
  | .arr items => by
    have lists (op : Combinator) : Alike Eq
        (do return Clause.logical op (← readClauseLists path 0 items))
        (do return Clause.logical op (← readClauseLists path' 0 items)) := by
      refine (readClauseLists_alike path path' 0 items).bind ?_
      rintro children _ rfl
      exact .ok rfl
    unfold readClause
    split
    · exact lists .and
    · exact lists .or
    · split
      · exact .ok rfl
      · exact .error rfl
  | .null | .bool _ | .int _ | .float _ | .str _ => by
    unfold readClause
    split
    · exact .error rfl
    · exact .error rfl
    · split
      · exact .ok rfl
      · exact .error rfl

theorem readClauseLists_alike (path path' : String) (index : Nat) : (vs : List Json) →
    Alike Eq (readClauseLists path index vs) (readClauseLists path' index vs)
  | [] => .ok rfl
  | .obj inner :: rest => by
    unfold readClauseLists
    refine (readClauses_alike _ _ inner).bind ?_
    rintro clauses _ rfl
    refine (readClauseLists_alike path path' (index + 1) rest).bind ?_
    rintro more _ rfl
    exact .ok rfl
  | .arr _ :: _ | .null :: _ | .bool _ :: _ | .int _ :: _ | .float _ :: _ | .str _ :: _ =>
    .error rfl

end

theorem readMarker_alike (path path' : String) (ms : Json.Members) (marker : Json) :
    Alike Eq (readMarker path ms marker) (readMarker path' ms marker) := by
  unfold readMarker
  split
  · exact .ok rfl
  · exact .error rfl

mutual

theorem readTerms_alike (path path' : String) : (ms : Json.Members) →
    Alike Eq (readTerms path ms) (readTerms path' ms)
  | [] => .ok rfl
  | (key, v) :: rest => by
    unfold readTerms
    split
    · rename_i op _
      refine Alike.bind (R := Eq) ((readChildren_alike _ _ op v).map (congrArg _)) ?_
      rintro term _ rfl
      refine (readTerms_alike path path' rest).bind ?_
      rintro terms _ rfl
      exact .ok rfl
    · refine Alike.bind (R := Eq) ((readCondition_alike _ _ v).map (congrArg _)) ?_
      rintro term _ rfl
      refine (readTerms_alike path path' rest).bind ?_
      rintro terms _ rfl
      exact .ok rfl

theorem readChildren_alike (path path' : String) (op : Combinator) : (v : Json) →
    Alike Eq (readChildren path op v) (readChildren path' op v)
  | .obj ms => by
    unfold readChildren
    split
    · refine (readTerms_alike path path' ms).bind ?_
      rintro terms _ rfl
      exact .ok rfl
    · exact .error rfl
  | .arr items => by
    unfold readChildren
    split
    · exact .error rfl
    · exact readFilters_alike path path' 0 items
  | .null | .bool _ | .int _ | .float _ | .str _ => by
    unfold readChildren
    split
    · exact .error rfl
    · exact .error rfl

theorem readFilters_alike (path path' : String) (index : Nat) : (vs : List Json) →
    Alike Eq (readFilters path index vs) (readFilters path' index vs)
  | [] => .ok rfl
  | .obj ms :: rest => by
    unfold readFilters
    refine (readTerms_alike _ _ ms).bind ?_
    rintro terms _ rfl
    refine (readFilters_alike path path' (index + 1) rest).bind ?_
    rintro more _ rfl
    exact .ok rfl
  | .arr _ :: _ | .null :: _ | .bool _ :: _ | .int _ :: _ | .float _ :: _ | .str _ :: _ =>
    .error rfl

theorem readCondition_alike (path path' : String) : (v : Json) →
    Alike Eq (readCondition path v) (readCondition path' v)
  | .obj ms => by
    unfold readCondition
    split
    · exact readMarker_alike path path' ms _
    · split
      · refine (readClauses_alike path path' ms).bind ?_
        rintro clauses _ rfl
        exact .ok rfl
      · refine (readTerms_alike path path' ms).bind ?_
        rintro terms _ rfl
        exact .ok rfl
  | .arr _ | .null | .bool _ | .int _ | .float _ | .str _ => .ok rfl

end

theorem Operand.ofJson_alike (f : Frame) (path path' : String) (op : Operator) (v : Json) :
    Alike Eq (Operand.ofJson f path op v) (Operand.ofJson f path' op v) := by
  unfold Operand.ofJson
  split
  · split
    · exact .error rfl
    · exact .ok rfl
  · split
    · exact .ok rfl
    · exact .error rfl
  · exact .error rfl
  · split
    · exact .ok rfl
    · exact .error rfl
  · exact .error rfl
  · cases f.bind _ with
    | error e => exact .error rfl
    | ok field => exact .ok rfl
  · exact .error rfl

/-! Predicates up to what they compare. -/

namespace Predicate

mutual

/-- The predicate with every comparison made of the given target. -/
def retarget (t : Target) : Predicate → Predicate
  | .comparison c => .comparison { c with target := t }
  | .qualified relation c => .qualified relation { c with target := t }
  | .logical op children => .logical op (retargetAll t children)
  | .fragment sql scope => .fragment sql scope
  | .globalPattern pattern => .globalPattern pattern

def retargetAll (t : Target) : List Predicate → List Predicate
  | [] => []
  | p :: rest => p.retarget t :: retargetAll t rest

end

theorem retargetAll_append (t : Target) (ps qs : List Predicate) :
    retargetAll t (ps ++ qs) = retargetAll t ps ++ retargetAll t qs := by
  induction ps with
  | nil => rfl
  | cons p rest ih => rw [List.cons_append, retargetAll, ih, retargetAll, List.cons_append]

theorem retarget_all (t : Target) (ps : List Predicate) :
    all (retargetAll t ps) = (all ps).map (retarget t) := by
  match ps with
  | [] | [_] | _ :: _ :: _ => rfl

theorem retarget_combine (t : Target) (op : Combinator) (ps : List Predicate) :
    combine op (retargetAll t ps) = (combine op ps).map (retarget t) := by
  cases op with
  | and => exact retarget_all t ps
  | or =>
    match ps with
    | [] | [_] | _ :: _ :: _ => rfl
  | not =>
    simp only [combine, retarget_all, Option.map_map]
    rfl

theorem retargetAll_toList (t : Target) (p : Option Predicate) :
    retargetAll t p.toList = (p.map (retarget t)).toList := by
  cases p <;> rfl

/-- The second list of predicates is the first with the target `u` for the target `t`. -/
def Exchanged (t u : Target) (ps qs : List Predicate) : Prop :=
  qs = retargetAll u ps ∧ ps = retargetAll t qs

namespace Exchanged

variable {t u : Target} {ps ps' qs qs' : List Predicate}

theorem append (first : Exchanged t u ps qs) (second : Exchanged t u ps' qs') :
    Exchanged t u (ps ++ ps') (qs ++ qs') := by
  refine ⟨?_, ?_⟩
  · rw [retargetAll_append, ← first.1, ← second.1]
  · rw [retargetAll_append, ← first.2, ← second.2]

theorem combined (op : Combinator) (h : Exchanged t u ps qs) :
    Exchanged t u (combine op ps).toList (combine op qs).toList := by
  refine ⟨?_, ?_⟩
  · rw [retargetAll_toList, ← retarget_combine, ← h.1]
  · rw [retargetAll_toList, ← retarget_combine, ← h.2]

theorem together (h : Exchanged t u ps qs) :
    Exchanged t u (all ps).toList (all qs).toList :=
  h.combined .and

end Exchanged

end Predicate

section

open Predicate

variable {t u : Target} {leaf leaf' : Operator → Json → Except QueryError Predicate}

mutual

theorem clause_compile_alike
    (leaves : ∀ op v, Alike (fun p q => Exchanged t u [p] [q]) (leaf op v) (leaf' op v)) :
    (c : Clause) → Alike (Exchanged t u) (c.compile leaf) (c.compile leaf')
  | .compare op operand => by
    unfold Clause.compile
    exact (leaves op operand).bind .ok
  | .logical op children => by
    unfold Clause.compile
    exact (compileClauseLists_alike leaves children).bind fun related => .ok (related.combined op)

theorem compileClauses_alike
    (leaves : ∀ op v, Alike (fun p q => Exchanged t u [p] [q]) (leaf op v) (leaf' op v)) :
    (cs : List Clause) → Alike (Exchanged t u) (compileClauses leaf cs) (compileClauses leaf' cs)
  | [] => .ok ⟨rfl, rfl⟩
  | c :: rest => by
    unfold compileClauses
    refine (clause_compile_alike leaves c).bind fun first => ?_
    exact (compileClauses_alike leaves rest).bind fun more => .ok (first.append more)

theorem compileClauseLists_alike
    (leaves : ∀ op v, Alike (fun p q => Exchanged t u [p] [q]) (leaf op v) (leaf' op v)) :
    (lists : List (List Clause)) →
      Alike (Exchanged t u) (compileClauseLists leaf lists) (compileClauseLists leaf' lists)
  | [] => .ok ⟨rfl, rfl⟩
  | cs :: rest => by
    unfold compileClauseLists
    refine (compileClauses_alike leaves cs).bind fun first => ?_
    exact (compileClauseLists_alike leaves rest).bind fun more => .ok (first.together.append more)

end

end

/-! The two places. -/

def Frame.fieldCondition (f : Frame) (key : String) (v : Json) :
    Except QueryError (Option Predicate) := do
  (← Filter.ofJson "filters" (.obj [(key, v)])).compile f

def Frame.aggregateCondition (f : Frame) (aggregates : List Aggregate) (name : String) (v : Json) :
    Except QueryError (Option Predicate) := do
  Having.compile f aggregates (← Having.read aggregates (.obj [(name, v)]))

section

variable {f : Frame} {key name : String} {field : Field} {aggregates : List Aggregate}
  {a : Aggregate} {v : Json}

theorem fieldCondition_eq (term : Combinator.ofToken? key = none) :
    f.fieldCondition key v = readCondition (childPath "filters" key) v >>= fun condition =>
      Predicate.all <$> condition.compile f f.rootScope key := by
  simp only [Frame.fieldCondition, Filter.ofJson, readTerms, term]
  cases readCondition (childPath "filters" key) v with
  | error e => rfl
  | ok condition =>
    simp only [Functor.map, Except.map, ok_bind, pure, Except.pure, Filter.compile, compileTerms,
      Term.compile]
    cases condition.compile f f.rootScope key with
    | error e => rfl
    | ok ps => simp [ok_bind]

theorem unknownKey_of_aggregate (term : Combinator.ofToken? name = none)
    (known : Having.aggregate? aggregates name = some a) :
    Having.unknownKeyOfMembers? aggregates [(name, v)] = none := by
  cases v <;> simp [Having.unknownKeyOfMembers?, isCombinator, term, known]

theorem aggregateCondition_eq (term : Combinator.ofToken? name = none)
    (known : Having.aggregate? aggregates name = some a) :
    f.aggregateCondition aggregates name v =
      readCondition (childPath Having.path name) v >>= fun condition =>
        Predicate.all <$> Having.compileCondition f aggregates name condition := by
  simp only [Frame.aggregateCondition, Having.read, unknownKey_of_aggregate term known, readTerms,
    term]
  cases readCondition (childPath Having.path name) v with
  | error e => rfl
  | ok condition =>
    simp only [Functor.map, Except.map, ok_bind, pure, Except.pure, Having.compile,
      Having.compileTerms]
    cases Having.compileCondition f aggregates name condition with
    | error e => rfl
    | ok ps => simp [ok_bind]

/-- A field of the root, which is not looked for behind an association. -/
structure Frame.OwnField (f : Frame) (key : String) (field : Field) : Prop where
  found : f.root.field? key = some field
  plain : isDotted key = false

theorem Frame.OwnField.locate (own : f.OwnField key field) (nested : Bool) :
    f.locate f.rootScope key nested = .ok (.own field) := by
  simp [Frame.locate, own.plain, rootScope, own.found]

def Frame.ownTarget (f : Frame) (key : String) (field : Field) : Target :=
  .field ⟨key, ⟨f.root.name, field.column⟩⟩

theorem bindPlace_own : f.bindPlace f.rootScope key (.own field) =
    .ok ⟨⟨key, ⟨f.root.name, field.column⟩⟩, none⟩ := rfl

theorem compare_alike (op : Operator) (w : Json) :
    Alike (fun p q => Predicate.Exchanged (f.ownTarget key field) (.aggregate a) [p] [q])
      (f.compare key ⟨⟨key, ⟨f.root.name, field.column⟩⟩, none⟩ op w)
      (Having.compare f name a op w) := by
  unfold Frame.compare Having.compare
  refine (Operand.ofJson_alike f key name op w).bind ?_
  rintro operand _ rfl
  exact .ok ⟨rfl, rfl⟩

theorem operators_alike (own : f.OwnField key field)
    (known : Having.aggregate? aggregates name = some a) (clauses : List Clause) :
    Alike (fun p q => Predicate.Exchanged (f.ownTarget key field) (.aggregate a) p.toList q.toList)
      (Predicate.all <$> (Condition.operators clauses).compile f f.rootScope key)
      (Predicate.all <$> Having.compileCondition f aggregates name (.operators clauses)) := by
  simp only [Condition.compile, own.locate, ok_bind, bindPlace_own, Having.compileCondition, known]
  refine Alike.map (R := fun ps qs => Predicate.Exchanged (f.ownTarget key field) (.aggregate a)
    ps qs) ?_ fun related => related.together
  exact (compileClauses_alike compare_alike clauses).bind fun related => .ok related.together

theorem scalar_alike {R : Option Predicate → Option Predicate → Prop} (own : f.OwnField key field)
    (known : Having.aggregate? aggregates name = some a) (w : Json) :
    Alike R (Predicate.all <$> (Condition.scalar w).compile f f.rootScope key)
      (Predicate.all <$> Having.compileCondition f aggregates name (.scalar w)) := by
  simp only [Condition.compile, own.locate, ok_bind, bindPlace_own, Having.compileCondition, known]
  exact .error rfl

theorem nested_field (own : f.OwnField key field) (terms : Filter) :
    (Condition.nested terms).compile f f.rootScope key =
      match firstFieldKey terms with
      | none => .ok []
      | some token => .error (.unknownOperator token) := by
  simp only [Condition.compile, own.locate, ok_bind, bindPlace_own]
  rfl

theorem nested_aggregate (known : Having.aggregate? aggregates name = some a) (terms : Filter) :
    Having.compileCondition f aggregates name (.nested terms) =
      .error (.invalidShape name .havingNotOperators) := by
  simp only [Having.compileCondition, known]

theorem readCondition_elsewhere {path path' : String} {condition : Condition}
    (h : readCondition path v = .ok condition) : readCondition path' v = .ok condition := by
  have same := readCondition_alike path path' v
  rw [h] at same
  cases same' : readCondition path' v with
  | error e =>
    rw [same'] at same
    cases same
  | ok other =>
    rw [same'] at same
    cases same with
    | ok related => rw [related]

theorem nested_conditions (own : f.OwnField key field) (term : Combinator.ofToken? key = none)
    (known : Having.aggregate? aggregates name = some a)
    (named : Combinator.ofToken? name = none) {path : String} {terms : Filter}
    (nested : readCondition path v = .ok (.nested terms)) :
    (f.fieldCondition key v = match firstFieldKey terms with
      | none => .ok none
      | some token => .error (.unknownOperator token)) ∧
    f.aggregateCondition aggregates name v = .error (.invalidShape name .havingNotOperators) := by
  constructor
  · rw [fieldCondition_eq term, readCondition_elsewhere nested, ok_bind, nested_field own]
    cases firstFieldKey terms <;> rfl
  · rw [aggregateCondition_eq named known, readCondition_elsewhere nested, ok_bind,
      nested_aggregate known]
    rfl

/-- A condition means the same on a field of the root and on an aggregate, or fails for the same kind
of reason, just where it is not read as a nested filter. -/
theorem conditions_alike_iff (own : f.OwnField key field) (term : Combinator.ofToken? key = none)
    (known : Having.aggregate? aggregates name = some a)
    (named : Combinator.ofToken? name = none)
    (unmarked : ∀ sql, v ≠ .obj [(subqueryMarker, .str sql)]) :
    (Alike (fun p q => Predicate.Exchanged (f.ownTarget key field) (.aggregate a) p.toList q.toList)
        (f.fieldCondition key v) (f.aggregateCondition aggregates name v) ↔
      ∀ path terms, readCondition path v ≠ .ok (.nested terms)) ∧
    ∀ path terms, readCondition path v = .ok (.nested terms) →
      (f.fieldCondition key v = match firstFieldKey terms with
        | none => .ok none
        | some token => .error (.unknownOperator token)) ∧
      f.aggregateCondition aggregates name v = .error (.invalidShape name .havingNotOperators) := by
  refine ⟨⟨?_, ?_⟩, fun _ _ => nested_conditions own term known named⟩
  · intro alike path terms nested
    obtain ⟨here, there⟩ := nested_conditions own term known named nested
    rw [here, there] at alike
    cases first : firstFieldKey terms with
    | none =>
      rw [first] at alike
      cases alike
    | some token =>
      rw [first] at alike
      cases alike with
      | error kind => simp [QueryError.kind] at kind
  · intro plain
    rw [fieldCondition_eq term, aggregateCondition_eq named known]
    cases read : readCondition (childPath "filters" key) v with
    | error e =>
      have same := readCondition_alike (childPath "filters" key) (childPath Having.path name) v
      rw [read] at same
      generalize readCondition (childPath Having.path name) v = there at same
      cases same with
      | error kind => exact .error kind
    | ok condition =>
      rw [readCondition_elsewhere read, ok_bind, ok_bind]
      cases condition with
      | subquery sql => exact absurd (readCondition_subquery read) (unmarked sql)
      | operators clauses => exact operators_alike own known clauses
      | nested terms => exact absurd read (plain _ terms)
      | scalar w => exact scalar_alike own known w

end

/-! The length of a film and the greatest length. -/

def filmCounts : Frame :=
  ⟨filmCatalog, filmEntity, .reject⟩

def greatestLength : Aggregate :=
  ⟨"max", ⟨"length", ⟨"film", "length"⟩⟩, "max_length"⟩

theorem length_ownField : filmCounts.OwnField "length" (.plain "length") :=
  ⟨rfl, by decide⟩

theorem greatestLength_known :
    Having.aggregate? [greatestLength] "max_length" = some greatestLength :=
  rfl

theorem film_length_conditions :
    Alike (fun p q => Predicate.Exchanged (filmCounts.ownTarget "length" (.plain "length"))
        (.aggregate greatestLength) p.toList q.toList)
      (filmCounts.fieldCondition "length"
        (.obj [("gt", .int 90), ("or", .arr [.obj [("lt", .int 200)], .obj []])]))
      (filmCounts.aggregateCondition [greatestLength] "max_length"
        (.obj [("gt", .int 90), ("or", .arr [.obj [("lt", .int 200)], .obj []])])) := by
  refine (conditions_alike_iff length_ownField (by decide) greatestLength_known (by decide)
    (by simp)).1.mpr ?_
  intro path terms nested
  cases nested

/-- A misspelled operator is not called unknown on an aggregate, and an empty operator map is no
condition on a field alone. -/
theorem max_length_conditions_differ :
    (filmCounts.fieldCondition "length" (.obj [("gtt", .int 90)]) = .error (.unknownOperator "gtt") ∧
      filmCounts.aggregateCondition [greatestLength] "max_length" (.obj [("gtt", .int 90)]) =
        .error (.invalidShape "max_length" .havingNotOperators)) ∧
    filmCounts.fieldCondition "length" (.obj []) = .ok none ∧
      filmCounts.aggregateCondition [greatestLength] "max_length" (.obj []) =
        .error (.invalidShape "max_length" .havingNotOperators) := by
  have differ (terms : Filter) {v : Json} (nested : readCondition "" v = .ok (.nested terms)) :=
    nested_conditions length_ownField (by decide) greatestLength_known (by decide) nested
  exact ⟨differ [.field "gtt" (.scalar (.int 90))] rfl, differ [] rfl⟩

end ReadPlan
