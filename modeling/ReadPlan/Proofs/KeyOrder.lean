import ReadPlan.Proofs.FilterReading
import ReadPlan.Proofs.UpToOrder

/-!
Filters whose keys are written in another order. What is read from them is the same up to order,
unless an object under a key holds combinators only and below them both operators and fields: the
first of them decides then what the object is.
-/

namespace ReadPlan

mutual

/-- The second value is the first with the members of any objects in another order. -/
def Json.Reordered : Json → Json → Prop
  | .obj ms, w => ∃ ns, w = .obj ns ∧ membersReordered ms ns
  | .arr items, w => ∃ others, w = .arr others ∧ itemsReordered items others
  | v, w => v = w

def itemsReordered : List Json → List Json → Prop
  | [], ws => ws = []
  | v :: rest, ws => ∃ w more, ws = w :: more ∧ v.Reordered w ∧ itemsReordered rest more

def membersReordered : List (String × Json) → List (String × Json) → Prop
  | [], ns => ns = []
  | (key, v) :: rest, ns =>
    ∃ w more, ns.Perm ((key, w) :: more) ∧ v.Reordered w ∧ membersReordered rest more

end

def MemberReordered (m n : String × Json) : Prop :=
  m.1 = n.1 ∧ m.2.Reordered n.2

theorem membersReordered_iff {ms ns : Json.Members} :
    membersReordered ms ns ↔ Matched MemberReordered ms ns := by
  induction ms generalizing ns with
  | nil => rw [membersReordered, Matched.nil_iff]
  | cons m rest ih =>
    obtain ⟨key, v⟩ := m
    rw [membersReordered, Matched.cons_iff]
    constructor
    · rintro ⟨w, more, moved, here, others⟩
      exact ⟨(key, w), more, moved, ⟨rfl, here⟩, ih.mp others⟩
    · rintro ⟨⟨_, w⟩, more, moved, ⟨rfl, here⟩, others⟩
      exact ⟨w, more, moved, here, ih.mpr others⟩

mutual

theorem Json.reordered_refl : (v : Json) → v.Reordered v
  | .obj ms => ⟨ms, rfl, membersReordered_refl ms⟩
  | .arr items => ⟨items, rfl, itemsReordered_refl items⟩
  | .null | .bool _ | .int _ | .float _ | .str _ => rfl

theorem itemsReordered_refl : (vs : List Json) → itemsReordered vs vs
  | [] => rfl
  | v :: rest => ⟨v, rest, rfl, v.reordered_refl, itemsReordered_refl rest⟩

theorem membersReordered_refl : (ms : List (String × Json)) → membersReordered ms ms
  | [] => rfl
  | (_, v) :: rest => ⟨v, rest, .refl _, v.reordered_refl, membersReordered_refl rest⟩

end

/-! What is read. -/

mutual

/-- Clauses that are the same up to order, in any list of clauses that hold together. -/
def Clause.Like : Clause → Clause → Prop
  | .compare op v, d => ∃ w, d = .compare op w ∧ v.Reordered w
  | .logical op children, d => ∃ others, d = .logical op others ∧ clauseListsLike children others

def clausesLike : List Clause → List Clause → Prop
  | [], ds => ds = []
  | c :: rest, ds => ∃ d more, ds.Perm (d :: more) ∧ c.Like d ∧ clausesLike rest more

def clauseListsLike : List (List Clause) → List (List Clause) → Prop
  | [], lists => lists = []
  | cs :: rest, lists =>
    ∃ ds more, lists = ds :: more ∧ clausesLike cs ds ∧ clauseListsLike rest more

end

mutual

def Term.Like : Term → Term → Prop
  | .logical op children, u => ∃ others, u = .logical op others ∧ filtersLike children others
  | .field key condition, u => ∃ other, u = .field key other ∧ condition.Like other
termination_by structural t => t

def Condition.Like : Condition → Condition → Prop
  | .subquery sql, d => d = .subquery sql
  | .operators clauses, d => ∃ others, d = .operators others ∧ clausesLike clauses others
  | .nested terms, d => ∃ others, d = .nested others ∧ termsLike terms others
  | .scalar v, d => ∃ w, d = .scalar w ∧ v.Reordered w
termination_by structural c => c

def termsLike : List Term → List Term → Prop
  | [], us => us = []
  | t :: rest, us => ∃ u more, us.Perm (u :: more) ∧ t.Like u ∧ termsLike rest more
termination_by structural ts => ts

def filtersLike : List (List Term) → List (List Term) → Prop
  | [], filters => filters = []
  | ts :: rest, filters =>
    ∃ us more, filters = us :: more ∧ termsLike ts us ∧ filtersLike rest more
termination_by structural filters => filters

end

theorem clausesLike_iff {cs ds : List Clause} : clausesLike cs ds ↔ Matched Clause.Like cs ds := by
  induction cs generalizing ds with
  | nil => rw [clausesLike, Matched.nil_iff]
  | cons c rest ih => simp only [clausesLike, Matched.cons_iff, ih]

theorem termsLike_iff {ts us : List Term} : termsLike ts us ↔ Matched Term.Like ts us := by
  induction ts generalizing us with
  | nil => rw [termsLike, Matched.nil_iff]
  | cons t rest ih => simp only [termsLike, Matched.cons_iff, ih]

theorem readClauses_eq_mapM (path : String) (ms : Json.Members) :
    readClauses path ms = ms.mapM fun m => readClause (childPath path m.1) m.1 m.2 := by
  induction ms with
  | nil => rfl
  | cons m rest ih => rw [readClauses, ih, List.mapM_cons]

def readTerm (path : String) (m : String × Json) : Except QueryError Term :=
  match Combinator.ofToken? m.1 with
  | some op => Term.logical op <$> readChildren (childPath path m.1) op m.2
  | none => Term.field m.1 <$> readCondition (childPath path m.1) m.2

theorem readTerms_eq_mapM (path : String) (ms : Json.Members) :
    readTerms path ms = ms.mapM (readTerm path) := by
  induction ms with
  | nil => rfl
  | cons m rest ih =>
    rw [readTerms, ih, List.mapM_cons, readTerm]
    cases Combinator.ofToken? m.1 <;> rfl

theorem readClauses_perm (path : String) {ms ns : Json.Members} (h : ms.Perm ns) :
    Accord List.Perm (readClauses path ms) (readClauses path ns) := by
  rw [readClauses_eq_mapM, readClauses_eq_mapM]
  exact .mapM_perm _ h

theorem readTerms_perm (path : String) {ms ns : Json.Members} (h : ms.Perm ns) :
    Accord List.Perm (readTerms path ms) (readTerms path ns) := by
  rw [readTerms_eq_mapM, readTerms_eq_mapM]
  exact .mapM_perm _ h

theorem clausesLike_perm {cs ds es : List Clause} (h : clausesLike cs ds) (moved : ds.Perm es) :
    clausesLike cs es :=
  clausesLike_iff.mpr ((clausesLike_iff.mp h).reorder (.refl _) moved)

theorem termsLike_perm {ts us vs : List Term} (h : termsLike ts us) (moved : us.Perm vs) :
    termsLike ts vs :=
  termsLike_iff.mpr ((termsLike_iff.mp h).reorder (.refl _) moved)

/-! Operator maps do not depend on the order of their keys. -/

mutual

theorem readClauses_reordered (path : String) : (ms : List (String × Json)) → ∀ {ns},
    membersReordered ms ns → Accord clausesLike (readClauses path ms) (readClauses path ns)
  | [], _, h => by
    cases h
    exact .ok rfl
  | (token, v) :: rest, ns, ⟨w, more, moved, here, others⟩ => by
    have pointwise : Accord clausesLike (readClauses path ((token, v) :: rest))
        (readClauses path ((token, w) :: more)) := by
      unfold readClauses
      refine (readClause_reordered _ token v here).bind fun c d related => ?_
      refine (readClauses_reordered path rest others).bind fun cs ds further => ?_
      exact .ok ⟨d, ds, .refl _, related, further⟩
    exact pointwise.trans (readClauses_perm path moved.symm) fun _ _ _ => clausesLike_perm

theorem readClause_reordered (path token : String) : (v : Json) → ∀ {w}, v.Reordered w →
    Accord Clause.Like (readClause path token v) (readClause path token w)
  | .obj inner, _, ⟨ns, same, h⟩ => by
    subst same
    unfold readClause
    split
    · refine (readClauses_reordered path inner h).bind fun cs ds related => ?_
      exact .ok ⟨[ds], rfl, ds, [], rfl, related, rfl⟩
    · exact .error
    · split
      · exact .ok ⟨.obj ns, rfl, ns, rfl, h⟩
      · exact .error
  | .arr items, _, ⟨others, same, h⟩ => by
    subst same
    have lists (op : Combinator) : Accord Clause.Like
        (do return Clause.logical op (← readClauseLists path 0 items))
        (do return Clause.logical op (← readClauseLists path 0 others)) :=
      (readClauseLists_reordered path 0 items h).bind fun cs ds related =>
        .ok ⟨ds, rfl, related⟩
    unfold readClause
    split
    · exact lists .and
    · exact lists .or
    · split
      · exact .ok ⟨.arr others, rfl, others, rfl, h⟩
      · exact .error
  | .null, _, h | .bool _, _, h | .int _, _, h | .float _, _, h | .str _, _, h => by
    cases h
    unfold readClause
    split
    · exact .error
    · exact .error
    · split
      · exact .ok ⟨_, rfl, rfl⟩
      · exact .error

theorem readClauseLists_reordered (path : String) (index : Nat) : (vs : List Json) → ∀ {ws},
    itemsReordered vs ws →
      Accord clauseListsLike (readClauseLists path index vs) (readClauseLists path index ws)
  | [], _, h => by
    cases h
    exact .ok rfl
  | .obj inner :: rest, _, ⟨_, more, same, ⟨ns, here, h⟩, others⟩ => by
    subst same here
    unfold readClauseLists
    refine (readClauses_reordered _ inner h).bind fun cs ds related => ?_
    refine (readClauseLists_reordered path (index + 1) rest others).bind fun lists lists' further =>
      ?_
    exact .ok ⟨ds, lists', rfl, related, further⟩
  | .arr _ :: _, _, ⟨_, _, same, ⟨_, here, _⟩, _⟩ => by
    subst same here
    exact .error
  | .null :: _, _, ⟨_, _, same, here, _⟩ | .bool _ :: _, _, ⟨_, _, same, here, _⟩
  | .int _ :: _, _, ⟨_, _, same, here, _⟩ | .float _ :: _, _, ⟨_, _, same, here, _⟩
  | .str _ :: _, _, ⟨_, _, same, here, _⟩ => by
    cases here
    subst same
    exact .error

end

/-! What some order of the keys makes of an object. -/

mutual

/-- Whether some order of the keys makes the value read so. -/
def Json.mayRead (r : Reading) : Json → Bool
  | .obj ms =>
    if ms.any fun m => isPlainOperator m.1 then r == .operators
    else if ms.any fun m => !isCombinator m.1 then r == .filter
    else membersMayRead r ms
  | _ => r == .operators

def itemsMayRead (r : Reading) : List Json → Bool
  | [] => false
  | v :: rest => if (classify v).isSome then v.mayRead r else itemsMayRead r rest

def membersMayRead (r : Reading) : List (String × Json) → Bool
  | [] => false
  | (_, .arr items) :: rest => itemsMayRead r items || membersMayRead r rest
  | (_, v) :: rest => v.mayRead r || membersMayRead r rest

end

def Json.mayReadUnder (r : Reading) : Json → Bool
  | .arr items => itemsMayRead r items
  | v => v.mayRead r

theorem membersMayRead_cons (r : Reading) (key : String) (v : Json) (rest : Json.Members) :
    membersMayRead r ((key, v) :: rest) = (v.mayReadUnder r || membersMayRead r rest) := by
  cases v <;> rfl

theorem membersMayRead_eq_any (r : Reading) (ms : Json.Members) :
    membersMayRead r ms = ms.any fun m => m.2.mayReadUnder r := by
  induction ms with
  | nil => rfl
  | cons m rest ih => rw [membersMayRead_cons, List.any_cons, ih]

theorem classifyMembers_isSome (ms : Json.Members) :
    (classifyMembers ms).isSome = ms.any fun m => (readingUnder m.2).isSome := by
  induction ms with
  | nil => rfl
  | cons m rest ih =>
    obtain ⟨key, v⟩ := m
    rw [classifyMembers_cons, Option.isSome_or, List.any_cons, ih]

theorem keys_reordered {ms ns : Json.Members} (h : membersReordered ms ns) :
    (ms.map (·.1)).Perm (ns.map (·.1)) :=
  (membersReordered_iff.mp h).map_perm fun _ _ same => same.1

theorem any_key_reordered (p : String → Bool) {ms ns : Json.Members}
    (h : membersReordered ms ns) : (ms.any fun m => p m.1) = ns.any fun m => p m.1 := by
  have keys := (keys_reordered h).any_eq (f := p)
  rwa [List.any_map, List.any_map] at keys

theorem classify_isSome_of_members {ms ns : Json.Members} (h : membersReordered ms ns)
    (members : (classifyMembers ms).isSome = (classifyMembers ns).isSome) :
    (classify (.obj ms)).isSome = (classify (.obj ns)).isSome := by
  rw [classify, classify, any_key_reordered _ h, any_key_reordered (fun key => !isCombinator key) h]
  split
  · rfl
  · split
    · rfl
    · exact members

mutual

theorem classify_isSome_reordered : (v : Json) → ∀ {w}, v.Reordered w →
    (classify v).isSome = (classify w).isSome
  | .obj ms, _, ⟨ns, same, h⟩ => by
    subst same
    exact classify_isSome_of_members h (classifyMembers_isSome_reordered ms h)
  | .arr _, _, ⟨_, same, _⟩ => by
    subst same
    rfl
  | .null, _, h | .bool _, _, h | .int _, _, h | .float _, _, h | .str _, _, h => by
    cases h
    rfl

theorem readingUnder_isSome_reordered : (v : Json) → ∀ {w}, v.Reordered w →
    (readingUnder v).isSome = (readingUnder w).isSome
  | .obj ms, _, ⟨ns, same, h⟩ => by
    subst same
    exact classify_isSome_of_members h (classifyMembers_isSome_reordered ms h)
  | .arr items, _, ⟨_, same, h⟩ => by
    subst same
    exact classifyItems_isSome_reordered items h
  | .null, _, h | .bool _, _, h | .int _, _, h | .float _, _, h | .str _, _, h => by
    cases h
    rfl

theorem classifyItems_isSome_reordered : (vs : List Json) → ∀ {ws}, itemsReordered vs ws →
    (classifyItems vs).isSome = (classifyItems ws).isSome
  | [], _, h => by
    cases h
    rfl
  | v :: rest, _, ⟨w, more, same, here, others⟩ => by
    subst same
    rw [classifyItems, classifyItems, Option.isSome_or, Option.isSome_or,
      classify_isSome_reordered v here, classifyItems_isSome_reordered rest others]

theorem classifyMembers_isSome_reordered : (ms : List (String × Json)) → ∀ {ns},
    membersReordered ms ns → (classifyMembers ms).isSome = (classifyMembers ns).isSome
  | [], _, h => by
    cases h
    rfl
  | (key, v) :: rest, ns, ⟨w, more, moved, here, others⟩ => by
    rw [classifyMembers_isSome ns, moved.any_eq, ← classifyMembers_isSome, classifyMembers_cons,
      classifyMembers_cons, Option.isSome_or, Option.isSome_or,
      readingUnder_isSome_reordered v here, classifyMembers_isSome_reordered rest others]

end

section

variable {r : Reading}

theorem mayRead_of_members {ms ns : Json.Members} (h : membersReordered ms ns)
    (members : membersMayRead r ms = membersMayRead r ns) :
    Json.mayRead r (.obj ms) = Json.mayRead r (.obj ns) := by
  rw [Json.mayRead, Json.mayRead, any_key_reordered _ h,
    any_key_reordered (fun key => !isCombinator key) h]
  split
  · rfl
  · split
    · rfl
    · exact members

mutual

theorem mayRead_reordered : (v : Json) → ∀ {w}, v.Reordered w → v.mayRead r = w.mayRead r
  | .obj ms, _, ⟨ns, same, h⟩ => by
    subst same
    exact mayRead_of_members h (membersMayRead_reordered ms h)
  | .arr _, _, ⟨_, same, _⟩ => by
    subst same
    rfl
  | .null, _, h | .bool _, _, h | .int _, _, h | .float _, _, h | .str _, _, h => by
    cases h
    rfl

theorem mayReadUnder_reordered : (v : Json) → ∀ {w}, v.Reordered w →
    v.mayReadUnder r = w.mayReadUnder r
  | .obj ms, _, ⟨ns, same, h⟩ => by
    subst same
    exact mayRead_of_members h (membersMayRead_reordered ms h)
  | .arr items, _, ⟨_, same, h⟩ => by
    subst same
    exact itemsMayRead_reordered items h
  | .null, _, h | .bool _, _, h | .int _, _, h | .float _, _, h | .str _, _, h => by
    cases h
    rfl

theorem itemsMayRead_reordered : (vs : List Json) → ∀ {ws}, itemsReordered vs ws →
    itemsMayRead r vs = itemsMayRead r ws
  | [], _, h => by
    cases h
    rfl
  | v :: rest, _, ⟨w, more, same, here, others⟩ => by
    subst same
    rw [itemsMayRead, itemsMayRead, classify_isSome_reordered v here, mayRead_reordered v here,
      itemsMayRead_reordered rest others]

theorem membersMayRead_reordered : (ms : List (String × Json)) → ∀ {ns},
    membersReordered ms ns → membersMayRead r ms = membersMayRead r ns
  | [], _, h => by
    cases h
    rfl
  | (key, v) :: rest, ns, ⟨w, more, moved, here, others⟩ => by
    rw [membersMayRead_eq_any r ns, moved.any_eq, ← membersMayRead_eq_any, membersMayRead_cons,
      membersMayRead_cons, mayReadUnder_reordered v here, membersMayRead_reordered rest others]

end

theorem classify_eq_some_cases {ms : Json.Members} (h : classify (.obj ms) = some r) :
    Json.mayRead r (.obj ms) = true ∨
      classifyMembers ms = some r ∧ Json.mayRead r (.obj ms) = membersMayRead r ms := by
  rw [classify] at h
  rw [Json.mayRead]
  split
  · rename_i operators
    rw [if_pos operators] at h
    cases h
    exact .inl rfl
  · rename_i operators
    rw [if_neg operators] at h
    split
    · rename_i fields
      rw [if_pos fields] at h
      cases h
      exact .inl rfl
    · rename_i fields
      rw [if_neg fields] at h
      exact .inr ⟨h, rfl⟩

mutual

theorem mayRead_of_classify : (v : Json) → classify v = some r → v.mayRead r = true
  | .obj ms, h => by
    rcases classify_eq_some_cases h with known | ⟨members, same⟩
    · exact known
    · rw [same]
      exact membersMayRead_of_classify ms members
  | .arr _, h | .null, h | .bool _, h | .int _, h | .float _, h | .str _, h => by
    cases h
    rfl

theorem mayReadUnder_of_readingUnder : (v : Json) → readingUnder v = some r →
    v.mayReadUnder r = true
  | .obj ms, h => by
    rcases classify_eq_some_cases h with known | ⟨members, same⟩
    · exact known
    · exact same.trans (membersMayRead_of_classify ms members)
  | .arr items, h => itemsMayRead_of_classify items h
  | .null, h | .bool _, h | .int _, h | .float _, h | .str _, h => by
    cases h
    rfl

theorem itemsMayRead_of_classify : (vs : List Json) → classifyItems vs = some r →
    itemsMayRead r vs = true
  | [], h => by cases h
  | v :: rest, h => by
    rw [classifyItems, Option.or_eq_some_iff] at h
    rw [itemsMayRead]
    rcases h with here | ⟨undecided, later⟩
    · rw [here, Option.isSome_some, if_pos rfl]
      exact mayRead_of_classify v here
    · rw [undecided]
      exact itemsMayRead_of_classify rest later

theorem membersMayRead_of_classify : (ms : List (String × Json)) → classifyMembers ms = some r →
    membersMayRead r ms = true
  | [], h => by cases h
  | (key, v) :: rest, h => by
    rw [classifyMembers_cons, Option.or_eq_some_iff] at h
    rw [membersMayRead_cons, Bool.or_eq_true]
    rcases h with here | ⟨-, later⟩
    · exact .inl (mayReadUnder_of_readingUnder v here)
    · exact .inr (membersMayRead_of_classify rest later)

end

theorem classifyMembers_append (ms ns : Json.Members) :
    classifyMembers (ms ++ ns) = (classifyMembers ms).or (classifyMembers ns) := by
  induction ms with
  | nil => rfl
  | cons m rest ih =>
    obtain ⟨key, v⟩ := m
    rw [List.cons_append, classifyMembers_cons, classifyMembers_cons, ih, Option.or_assoc]

theorem exists_classify_of_members {ms : Json.Members} (h : Json.mayRead r (.obj ms) = true)
    (members : membersMayRead r ms = true →
      ∃ ns, membersReordered ms ns ∧ classifyMembers ns = some r) :
    ∃ ns, membersReordered ms ns ∧ classify (.obj ns) = some r := by
  rw [Json.mayRead] at h
  split at h
  · rename_i operators
    refine ⟨ms, membersReordered_refl ms, ?_⟩
    rw [classify, if_pos operators, beq_iff_eq.mp h]
  · rename_i operators
    split at h
    · rename_i fields
      refine ⟨ms, membersReordered_refl ms, ?_⟩
      rw [classify, if_neg operators, if_pos fields, beq_iff_eq.mp h]
    · rename_i fields
      obtain ⟨ns, reordered, decided⟩ := members h
      refine ⟨ns, reordered, ?_⟩
      rw [any_key_reordered _ reordered] at operators
      rw [any_key_reordered (fun key => !isCombinator key) reordered] at fields
      rw [classify, if_neg operators, if_neg fields, decided]

-- A member that decides as wanted is moved to the front.
mutual

theorem exists_classify : (v : Json) → v.mayRead r = true →
    ∃ w, v.Reordered w ∧ classify w = some r
  | .obj ms, h => by
    obtain ⟨ns, reordered, decided⟩ := exists_classify_of_members h (exists_classifyMembers ms)
    exact ⟨.obj ns, ⟨ns, rfl, reordered⟩, decided⟩
  | .arr items, h => ⟨.arr items, Json.reordered_refl _, (beq_iff_eq.mp h) ▸ rfl⟩
  | .null, h => ⟨.null, rfl, (beq_iff_eq.mp h) ▸ rfl⟩
  | .bool b, h => ⟨.bool b, rfl, (beq_iff_eq.mp h) ▸ rfl⟩
  | .int n, h => ⟨.int n, rfl, (beq_iff_eq.mp h) ▸ rfl⟩
  | .float x, h => ⟨.float x, rfl, (beq_iff_eq.mp h) ▸ rfl⟩
  | .str s, h => ⟨.str s, rfl, (beq_iff_eq.mp h) ▸ rfl⟩

theorem exists_readingUnder : (v : Json) → v.mayReadUnder r = true →
    ∃ w, v.Reordered w ∧ readingUnder w = some r
  | .obj ms, h => by
    obtain ⟨ns, reordered, decided⟩ := exists_classify_of_members h (exists_classifyMembers ms)
    exact ⟨.obj ns, ⟨ns, rfl, reordered⟩, decided⟩
  | .arr items, h => by
    obtain ⟨others, reordered, decided⟩ := exists_classifyItems items h
    exact ⟨.arr others, ⟨others, rfl, reordered⟩, decided⟩
  | .null, h => ⟨.null, rfl, (beq_iff_eq.mp h) ▸ rfl⟩
  | .bool b, h => ⟨.bool b, rfl, (beq_iff_eq.mp h) ▸ rfl⟩
  | .int n, h => ⟨.int n, rfl, (beq_iff_eq.mp h) ▸ rfl⟩
  | .float x, h => ⟨.float x, rfl, (beq_iff_eq.mp h) ▸ rfl⟩
  | .str s, h => ⟨.str s, rfl, (beq_iff_eq.mp h) ▸ rfl⟩

theorem exists_classifyItems : (vs : List Json) → itemsMayRead r vs = true →
    ∃ ws, itemsReordered vs ws ∧ classifyItems ws = some r
  | [], h => by cases h
  | v :: rest, h => by
    rw [itemsMayRead] at h
    split at h
    · obtain ⟨w, reordered, decided⟩ := exists_classify v h
      refine ⟨w :: rest, ⟨w, rest, rfl, reordered, itemsReordered_refl rest⟩, ?_⟩
      rw [classifyItems, decided, Option.some_or]
    · rename_i undecided
      obtain ⟨more, reordered, decided⟩ := exists_classifyItems rest h
      refine ⟨v :: more, ⟨v, more, rfl, v.reordered_refl, reordered⟩, ?_⟩
      rw [classifyItems, Option.not_isSome_iff_eq_none.mp undecided, Option.none_or, decided]

theorem exists_classifyMembers : (ms : List (String × Json)) → membersMayRead r ms = true →
    ∃ ns, membersReordered ms ns ∧ classifyMembers ns = some r
  | [], h => by cases h
  | (key, v) :: rest, h => by
    rw [membersMayRead_cons, Bool.or_eq_true] at h
    rcases h with here | later
    · obtain ⟨w, reordered, decided⟩ := exists_readingUnder v here
      refine ⟨(key, w) :: rest, ⟨w, rest, .refl _, reordered, membersReordered_refl rest⟩, ?_⟩
      rw [classifyMembers_cons, decided, Option.some_or]
    · obtain ⟨more, reordered, decided⟩ := exists_classifyMembers rest later
      refine ⟨more ++ [(key, v)],
        ⟨v, more, List.perm_append_singleton _ _, v.reordered_refl, reordered⟩, ?_⟩
      rw [classifyMembers_append, decided, Option.some_or]

end

end

end ReadPlan
