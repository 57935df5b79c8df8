import ReadPlan.Proofs.KeyOrder

namespace ReadPlan

mutual

/-- No object under a field key in the filter, or in a list of filters, may be read both ways. -/
def Json.settledFilter : Json → Bool
  | .obj ms => settledMembers ms
  | .arr items => settledItems items
  | _ => true

/-- Nor the value of a field key itself. An operator map holds no further field keys. -/
def Json.settledCondition : Json → Bool
  | .obj ms =>
    !(Json.mayRead .operators (.obj ms) && Json.mayRead .filter (.obj ms)) &&
      (Json.mayRead .operators (.obj ms) || settledMembers ms)
  | _ => true

def settledItems : List Json → Bool
  | [] => true
  | v :: rest => v.settledFilter && settledItems rest

def settledMembers : List (String × Json) → Bool
  | [] => true
  | (key, v) :: rest =>
    (if isCombinator key then v.settledFilter else v.settledCondition) && settledMembers rest

end

/-! What is read both as operators and as a filter looks like operators only. -/

theorem token_of_readClause {path token : String} {v : Json} {c : Clause}
    (h : readClause path token v = .ok c) :
    isCombinator token = true ∨ isPlainOperator token = true := by
  unfold isPlainOperator isCombinator
  cases combinator : Combinator.ofToken? token with
  | some op => exact .inl rfl
  | none =>
    cases known : Operator.ofToken? token with
    | some op => exact .inr rfl
    | none => cases v <;> simp [readClause, combinator, known] at h

theorem tokens_of_readClauses {path : String} {ms : Json.Members} {cs : List Clause}
    (h : readClauses path ms = .ok cs) :
    ∀ m ∈ ms, isCombinator m.1 = true ∨ isPlainOperator m.1 = true := by
  induction ms generalizing cs with
  | nil => simp
  | cons m rest ih =>
    simp only [readClauses, bind_eq_ok] at h
    obtain ⟨c, here, others, later, -⟩ := h
    exact List.forall_mem_cons.mpr ⟨token_of_readClause here, ih later⟩

theorem not_filter_of_tokens {ms : Json.Members}
    (tokens : ∀ m ∈ ms, isCombinator m.1 = true ∨ isPlainOperator m.1 = true)
    (members : (∀ m ∈ ms, isCombinator m.1 = true) → membersMayRead .filter ms = false) :
    Json.mayRead .filter (.obj ms) = false := by
  rw [Json.mayRead]
  split
  · rfl
  · rename_i operators
    have combinators : ∀ m ∈ ms, isCombinator m.1 = true := by
      intro m hm
      refine (tokens m hm).resolve_right fun plain => operators ?_
      exact List.any_eq_true.mpr ⟨m, hm, plain⟩
    rw [if_neg (by simpa using combinators)]
    exact members combinators

mutual

theorem members_not_filter : (ms : List (String × Json)) → ∀ {path path' cs ts},
    readClauses path ms = .ok cs → readTerms path' ms = .ok ts →
      (∀ m ∈ ms, isCombinator m.1 = true) → membersMayRead .filter ms = false
  | [], _, _, _, _, _, _, _ => rfl
  | (key, v) :: rest, path, path', cs, ts, clauses, terms, combinators => by
    obtain ⟨first, others⟩ := List.forall_mem_cons.mp combinators
    obtain ⟨op, combinator⟩ := Option.isSome_iff_exists.mp first
    simp only [readClauses, bind_eq_ok] at clauses
    simp only [readTerms, combinator, bind_eq_ok, map_eq_ok] at terms
    obtain ⟨c, clause, cs', clauses, -⟩ := clauses
    obtain ⟨_, ⟨children, read, -⟩, ts', terms, -⟩ := terms
    rw [membersMayRead_cons, under_not_filter v combinator clause read,
      members_not_filter rest clauses terms others]
    rfl

theorem under_not_filter : (v : Json) → ∀ {path path' key op c children},
    Combinator.ofToken? key = some op → readClause path key v = .ok c →
      readChildren path' op v = .ok children → v.mayReadUnder .filter = false
  | .obj inner, path, path', key, op, c, children, combinator, clause, filter => by
    cases op with
    | and | or => cases filter
    | not =>
      simp only [readClause, combinator, bind_eq_ok] at clause
      simp only [readChildren, bind_eq_ok] at filter
      obtain ⟨cs, clauses, -⟩ := clause
      obtain ⟨ts, terms, -⟩ := filter
      exact not_filter_of_tokens (tokens_of_readClauses clauses)
        (members_not_filter inner clauses terms)
  | .arr items, path, path', key, op, c, children, combinator, clause, filter => by
    cases op with
    | not => cases filter
    | and | or =>
      simp only [readClause, combinator, bind_eq_ok] at clause
      obtain ⟨lists, clauses, -⟩ := clause
      exact items_not_filter items clauses filter
  | .null, _, _, _, _, _, _, _, _, _ | .bool _, _, _, _, _, _, _, _, _, _
  | .int _, _, _, _, _, _, _, _, _, _ | .float _, _, _, _, _, _, _, _, _, _
  | .str _, _, _, _, _, _, _, _, _, _ => rfl

theorem items_not_filter : (vs : List Json) → ∀ {path path' index index' lists filters},
    readClauseLists path index vs = .ok lists → readFilters path' index' vs = .ok filters →
      itemsMayRead .filter vs = false
  | [], _, _, _, _, _, _, _, _ => rfl
  | .obj inner :: rest, path, path', index, index', lists, filters, clauses, filter => by
    simp only [readClauseLists, bind_eq_ok] at clauses
    simp only [readFilters, bind_eq_ok] at filter
    obtain ⟨cs, here, more, later, -⟩ := clauses
    obtain ⟨ts, terms, others, further, -⟩ := filter
    rw [itemsMayRead, items_not_filter rest later further, not_filter_of_tokens
      (tokens_of_readClauses here) (members_not_filter inner here terms), ite_self]
  | .arr _ :: _, _, _, _, _, _, _, clauses, _ | .null :: _, _, _, _, _, _, _, clauses, _
  | .bool _ :: _, _, _, _, _, _, _, clauses, _ | .int _ :: _, _, _, _, _, _, _, clauses, _
  | .float _ :: _, _, _, _, _, _, _, clauses, _ | .str _ :: _, _, _, _, _, _, _, clauses, _ => by
    cases clauses

end

theorem mayRead_filter_of_both {path path' : String} {ms : Json.Members} {cs : List Clause}
    {ts : List Term} (clauses : readClauses path ms = .ok cs)
    (terms : readTerms path' ms = .ok ts) :
    Json.mayRead .filter (.obj ms) = false :=
  not_filter_of_tokens (tokens_of_readClauses clauses) (members_not_filter ms clauses terms)

/-! A settled filter is read alike in any order. -/

section

variable {v w : Json}

theorem classify_of_mayRead {r : Reading} (h : v.mayRead r = true)
    (single : ∀ r', v.mayRead r' = true → r' = r) : classify v = some r := by
  obtain ⟨w, reordered, decided⟩ := exists_classify v h
  have known := classify_isSome_reordered v reordered
  rw [decided] at known
  obtain ⟨r', here⟩ := Option.isSome_iff_exists.mp known
  rw [here, single r' (mayRead_of_classify v here)]

theorem classify_reordered (reordered : v.Reordered w)
    (settled : (v.mayRead .operators && v.mayRead .filter) = false) :
    classify v = classify w := by
  cases there : classify w with
  | none =>
    have known := classify_isSome_reordered v reordered
    rw [there] at known
    exact Option.not_isSome_iff_eq_none.mp (by simp [known])
  | some r =>
    have may : v.mayRead r = true := by
      rw [mayRead_reordered v reordered]
      exact mayRead_of_classify w there
    refine classify_of_mayRead may fun r' may' => ?_
    cases r <;> cases r' <;> simp_all

end

theorem unmarked_reordered {ms ns : Json.Members} (h : membersReordered ms ns)
    (unmarked : Keyed.get? subqueryMarker ms = none) : Keyed.get? subqueryMarker ns = none := by
  rwa [Keyed.get?_eq_none, ← (keys_reordered h).mem_iff, ← Keyed.get?_eq_none]

theorem readCondition_of_nested (path : String) {ms : Json.Members}
    (unmarked : Keyed.get? subqueryMarker ms = none)
    (nested : classify (.obj ms) ≠ some .operators) :
    readCondition path (.obj ms) = Condition.nested <$> readTerms path ms := by
  rw [readCondition, unmarked]
  cases decided : classify (.obj ms) with
  | none => rfl
  | some r =>
    cases r with
    | operators => exact absurd decided nested
    | filter => rfl

theorem settledMembers_of_nested {ms : Json.Members}
    (settled : Json.settledCondition (.obj ms) = true)
    (nested : classify (.obj ms) ≠ some .operators) : settledMembers ms = true := by
  rw [Json.settledCondition, Bool.and_eq_true, Bool.not_eq_true', Bool.and_eq_false_iff,
    Bool.or_eq_true] at settled
  obtain ⟨single, below⟩ := settled
  apply below.resolve_left
  intro may
  apply nested
  apply classify_of_mayRead may
  intro r may'
  cases r with
  | operators => rfl
  | filter => simp [may, may'] at single

theorem readMarker_reordered (path : String) {ms ns : Json.Members} {v w : Json}
    (h : membersReordered ms ns) (here : Keyed.get? subqueryMarker ms = some v)
    (there : Keyed.get? subqueryMarker ns = some w) :
    Accord Condition.Like (readMarker path ms v) (readMarker path ns w) := by
  have long := (membersReordered_iff.mp h).length_eq
  match ms, ns, h, long with
  | [(key, v')], [(key', w')], ⟨_, _, moved, reordered, rfl⟩, _ =>
    cases List.singleton_perm_singleton.mp moved
    cases List.mem_singleton.mp (Keyed.mem_of_get? here)
    cases List.mem_singleton.mp (Keyed.mem_of_get? there)
    cases v with
    | str sql =>
      cases reordered
      exact .ok rfl
    | obj ms =>
      obtain ⟨ns, rfl, -⟩ := reordered
      exact .error
    | arr items =>
      obtain ⟨others, rfl, -⟩ := reordered
      exact .error
    | _ =>
      cases reordered
      exact .error
  | _ :: _ :: _, _ :: _ :: _, _, _ =>
    cases v <;> cases w <;> exact .error

mutual

theorem readTerms_reordered (path : String) : (ms : List (String × Json)) →
    settledMembers ms = true → ∀ {ns}, membersReordered ms ns →
      Accord termsLike (readTerms path ms) (readTerms path ns)
  | [], _, _, h => by
    cases h
    exact .ok rfl
  | (key, v) :: rest, settled, ns, ⟨w, more, moved, here, others⟩ => by
    rw [settledMembers, Bool.and_eq_true] at settled
    obtain ⟨first, later⟩ := settled
    have head : Accord Term.Like (readTerm path (key, v)) (readTerm path (key, w)) := by
      unfold readTerm
      cases combinator : Combinator.ofToken? key with
      | some op =>
        have filter : v.settledFilter = true := by simpa [isCombinator, combinator] using first
        refine (readChildren_reordered _ op v filter here).map fun children others related => ?_
        exact ⟨others, rfl, related⟩
      | none =>
        have settled : v.settledCondition = true := by simpa [isCombinator, combinator] using first
        refine (readCondition_reordered _ v settled here).map fun condition other related => ?_
        exact ⟨other, rfl, related⟩
    have pointwise : Accord termsLike (readTerms path ((key, v) :: rest))
        (readTerms path ((key, w) :: more)) := by
      rw [readTerms_eq_mapM, readTerms_eq_mapM, List.mapM_cons, List.mapM_cons,
        ← readTerms_eq_mapM, ← readTerms_eq_mapM]
      refine head.bind fun t u related => ?_
      refine (readTerms_reordered path rest later others).bind fun ts us further => ?_
      exact .ok ⟨u, us, .refl _, related, further⟩
    exact pointwise.trans (readTerms_perm path moved.symm) fun _ _ _ => termsLike_perm
termination_by structural ms => ms

theorem readChildren_reordered (path : String) (op : Combinator) : (v : Json) →
    v.settledFilter = true → ∀ {w}, v.Reordered w →
      Accord filtersLike (readChildren path op v) (readChildren path op w)
  | .obj ms, settled, _, ⟨ns, same, h⟩ => by
    subst same
    unfold readChildren
    split
    · refine (readTerms_reordered path ms settled h).bind fun ts us related => ?_
      exact .ok ⟨us, [], rfl, related, rfl⟩
    · exact .error
  | .arr items, settled, _, ⟨others, same, h⟩ => by
    subst same
    unfold readChildren
    split
    · exact .error
    · exact readFilters_reordered path 0 items settled h
  | .null, _, _, h | .bool _, _, _, h | .int _, _, _, h | .float _, _, _, h | .str _, _, _, h => by
    cases h
    unfold readChildren
    split <;> exact .error
termination_by structural v => v

theorem readFilters_reordered (path : String) (index : Nat) : (vs : List Json) →
    settledItems vs = true → ∀ {ws}, itemsReordered vs ws →
      Accord filtersLike (readFilters path index vs) (readFilters path index ws)
  | [], _, _, h => by
    cases h
    exact .ok rfl
  | .obj ms :: rest, settled, _, ⟨_, more, same, ⟨ns, here, h⟩, others⟩ => by
    subst same here
    rw [settledItems, Bool.and_eq_true] at settled
    unfold readFilters
    refine (readTerms_reordered _ ms settled.1 h).bind fun ts us related => ?_
    refine (readFilters_reordered path (index + 1) rest settled.2 others).bind
      fun filters filters' further => ?_
    exact .ok ⟨us, filters', rfl, related, further⟩
  | .arr _ :: _, _, _, ⟨_, _, same, ⟨_, here, _⟩, _⟩ => by
    subst same here
    exact .error
  | .null :: _, _, _, ⟨_, _, same, here, _⟩ | .bool _ :: _, _, _, ⟨_, _, same, here, _⟩
  | .int _ :: _, _, _, ⟨_, _, same, here, _⟩ | .float _ :: _, _, _, ⟨_, _, same, here, _⟩
  | .str _ :: _, _, _, ⟨_, _, same, here, _⟩ => by
    cases here
    subst same
    exact .error
termination_by structural vs => vs

theorem readCondition_reordered (path : String) : (v : Json) → v.settledCondition = true →
    ∀ {w}, v.Reordered w → Accord Condition.Like (readCondition path v) (readCondition path w)
  | .obj ms, settled, _, ⟨ns, same, h⟩ => by
    subst same
    have reordered : Json.Reordered (.obj ms) (.obj ns) := ⟨ns, rfl, h⟩
    have same : classify (.obj ms) = classify (.obj ns) := by
      apply classify_reordered reordered
      rw [Json.settledCondition, Bool.and_eq_true, Bool.not_eq_true'] at settled
      exact settled.1
    cases here : Keyed.get? subqueryMarker ms with
    | some marker =>
      unfold readCondition
      rw [here]
      cases there : Keyed.get? subqueryMarker ns with
      | some marker' => exact readMarker_reordered path h here there
      | none =>
        rw [Keyed.get?_eq_none, ← (keys_reordered h).mem_iff, ← Keyed.get?_eq_none, here] at there
        cases there
    | none =>
      have there := unmarked_reordered h here
      by_cases operators : classify (.obj ms) = some .operators
      · rw [readCondition, readCondition, here, there, ← same, operators]
        refine (readClauses_reordered path ms h).bind fun cs ds related => ?_
        exact .ok ⟨ds, rfl, related⟩
      · rw [readCondition_of_nested path here operators,
          readCondition_of_nested path there (same ▸ operators)]
        have below := settledMembers_of_nested settled operators
        refine (readTerms_reordered path ms below h).map fun ts us related => ?_
        exact ⟨us, rfl, related⟩
  | .arr items, _, _, ⟨others, same, h⟩ => by
    subst same
    exact .ok ⟨.arr others, rfl, others, rfl, h⟩
  | .null, _, _, h | .bool _, _, _, h | .int _, _, _, h | .float _, _, _, h | .str _, _, _, h => by
    cases h
    exact .ok ⟨_, rfl, rfl⟩
termination_by structural v => v

end

/-! An unsettled filter is refused in some order. -/

theorem fails_of_map {α β : Type} {x : Except QueryError α} {f : α → β}
    (h : ∃ e, x = .error e) : ∃ e, f <$> x = .error e := by
  obtain ⟨e, rfl⟩ := h
  exact ⟨e, rfl⟩

theorem settledCondition_of_marker {path : String} {ms : Json.Members} {marker : Json}
    {c : Condition} (found : Keyed.get? subqueryMarker ms = some marker)
    (h : readMarker path ms marker = .ok c) : Json.settledCondition (.obj ms) = true := by
  unfold readMarker at h
  split at h
  · rename_i sql m
    have known := Keyed.mem_of_get? found
    rw [List.mem_singleton] at known
    subst known
    have operator : isPlainOperator subqueryMarker = false := by decide
    have combinator : isCombinator subqueryMarker = false := by decide
    simp [Json.settledCondition, Json.mayRead, operator, combinator, settledMembers]
  · cases h

/-- An object that may be read both ways is refused one of the two times. -/
theorem fails_of_both (path : String) {ms : Json.Members}
    (operators : Json.mayRead .operators (.obj ms) = true)
    (filter : Json.mayRead .filter (.obj ms) = true)
    (unmarked : Keyed.get? subqueryMarker ms = none) :
    ∃ ns, membersReordered ms ns ∧ ∃ e, readCondition path (.obj ns) = .error e := by
  obtain ⟨_, ⟨ns, rfl, toFilter⟩, read⟩ := exists_classify _ filter
  obtain ⟨_, ⟨ns', rfl, toOperators⟩, read'⟩ := exists_classify _ operators
  have clauses := readClauses_reordered path ms toFilter
  have clauses' := readClauses_reordered path ms toOperators
  cases accepted : readClauses path ms with
  | error e =>
    rw [accepted] at clauses'
    refine ⟨ns', toOperators, ?_⟩
    rw [readCondition, unmarked_reordered toOperators unmarked, read']
    generalize readClauses path ns' = there at clauses'
    cases clauses' with
    | @error _ e' => exact ⟨e', rfl⟩
  | ok cs =>
    rw [accepted] at clauses
    refine ⟨ns, toFilter, ?_⟩
    rw [readCondition, unmarked_reordered toFilter unmarked, read]
    generalize made : readClauses path ns = there at clauses
    cases clauses with
    | @ok _ ds related =>
      cases terms : readTerms path ns with
      | error e => exact ⟨e, rfl⟩
      | ok ts =>
        have never := mayRead_filter_of_both made terms
        rw [← mayRead_reordered (.obj ms) ⟨ns, rfl, toFilter⟩, filter] at never
        cases never

mutual

theorem members_fail (path : String) : (ms : List (String × Json)) → settledMembers ms = false →
    ∀ {ts}, readTerms path ms = .ok ts →
      ∃ ns, membersReordered ms ns ∧ ∃ e, readTerms path ns = .error e
  | [], unsettled, _, _ => by cases unsettled
  | (key, v) :: rest, unsettled, ts, h => by
    rw [readTerms_eq_mapM, List.mapM_cons, ← readTerms_eq_mapM] at h
    obtain ⟨t, head, h⟩ := bind_eq_ok.mp h
    obtain ⟨ts', tail, -⟩ := bind_eq_ok.mp h
    rw [settledMembers, Bool.and_eq_false_iff] at unsettled
    rcases unsettled with here | later
    · have moved : ∃ w, v.Reordered w ∧ ∃ e, readTerm path (key, w) = .error e := by
        unfold readTerm at *
        cases combinator : Combinator.ofToken? key with
        | some op =>
          simp only [combinator, map_eq_ok] at head
          obtain ⟨children, read, -⟩ := head
          have unsettled : v.settledFilter = false := by
            simpa [isCombinator, combinator] using here
          obtain ⟨w, reordered, fails⟩ := children_fail _ op v unsettled read
          exact ⟨w, reordered, by simpa only [combinator] using fails_of_map fails⟩
        | none =>
          simp only [combinator, map_eq_ok] at head
          obtain ⟨condition, read, -⟩ := head
          have unsettled : v.settledCondition = false := by
            simpa [isCombinator, combinator] using here
          obtain ⟨w, reordered, fails⟩ := condition_fail _ v unsettled read
          exact ⟨w, reordered, by simpa only [combinator] using fails_of_map fails⟩
      obtain ⟨w, reordered, e, fails⟩ := moved
      refine ⟨(key, w) :: rest, ⟨w, rest, .refl _, reordered, membersReordered_refl rest⟩, e, ?_⟩
      rw [readTerms_eq_mapM, List.mapM_cons, fails]
      rfl
    · obtain ⟨more, reordered, e, fails⟩ := members_fail path rest later tail
      refine ⟨(key, v) :: more, ⟨v, more, .refl _, v.reordered_refl, reordered⟩, e, ?_⟩
      rw [readTerms_eq_mapM, List.mapM_cons, ← readTerms_eq_mapM, head, fails]
      rfl
termination_by structural ms => ms

theorem children_fail (path : String) (op : Combinator) : (v : Json) → v.settledFilter = false →
    ∀ {children}, readChildren path op v = .ok children →
      ∃ w, v.Reordered w ∧ ∃ e, readChildren path op w = .error e
  | .obj ms, unsettled, _, h => by
    cases op with
    | and | or => cases h
    | not =>
      simp only [readChildren, bind_eq_ok] at h
      obtain ⟨ts, read, -⟩ := h
      obtain ⟨ns, reordered, e, fails⟩ := members_fail path ms unsettled read
      exact ⟨.obj ns, ⟨ns, rfl, reordered⟩, e, by rw [readChildren, fails]; rfl⟩
  | .arr items, unsettled, _, h => by
    cases op with
    | not => cases h
    | and | or =>
      obtain ⟨others, reordered, e, fails⟩ := items_fail path 0 items unsettled h
      exact ⟨.arr others, ⟨others, rfl, reordered⟩, e, fails⟩
  | .null, unsettled, _, _ | .bool _, unsettled, _, _ | .int _, unsettled, _, _
  | .float _, unsettled, _, _ | .str _, unsettled, _, _ => by cases unsettled
termination_by structural v => v

theorem items_fail (path : String) (index : Nat) : (vs : List Json) → settledItems vs = false →
    ∀ {filters}, readFilters path index vs = .ok filters →
      ∃ ws, itemsReordered vs ws ∧ ∃ e, readFilters path index ws = .error e
  | [], unsettled, _, _ => by cases unsettled
  | .obj ms :: rest, unsettled, _, h => by
    simp only [readFilters, bind_eq_ok] at h
    obtain ⟨ts, here, more, later, -⟩ := h
    rw [settledItems, Bool.and_eq_false_iff] at unsettled
    rcases unsettled with unsettled | unsettled
    · obtain ⟨ns, reordered, e, fails⟩ := members_fail _ ms unsettled here
      refine ⟨.obj ns :: rest, ⟨.obj ns, rest, rfl, ⟨ns, rfl, reordered⟩,
        itemsReordered_refl rest⟩, e, ?_⟩
      rw [readFilters, fails]
      rfl
    · obtain ⟨others, reordered, e, fails⟩ := items_fail path (index + 1) rest unsettled later
      refine ⟨.obj ms :: others, ⟨.obj ms, others, rfl, Json.reordered_refl _, reordered⟩, e, ?_⟩
      rw [readFilters, here, fails]
      rfl
  | .arr _ :: _, _, _, h | .null :: _, _, _, h | .bool _ :: _, _, _, h | .int _ :: _, _, _, h
  | .float _ :: _, _, _, h | .str _ :: _, _, _, h => by cases h
termination_by structural vs => vs

theorem condition_fail (path : String) : (v : Json) → v.settledCondition = false →
    ∀ {c}, readCondition path v = .ok c →
      ∃ w, v.Reordered w ∧ ∃ e, readCondition path w = .error e
  | .obj ms, unsettled, c, h => by
    cases marked : Keyed.get? subqueryMarker ms with
    | some marker =>
      rw [readCondition, marked] at h
      rw [settledCondition_of_marker marked h] at unsettled
      cases unsettled
    | none =>
      by_cases both : (Json.mayRead .operators (.obj ms) && Json.mayRead .filter (.obj ms)) = true
      · obtain ⟨operators, filter⟩ := Bool.and_eq_true_iff.mp both
        obtain ⟨ns, reordered, fails⟩ := fails_of_both path operators filter marked
        exact ⟨.obj ns, ⟨ns, rfl, reordered⟩, fails⟩
      · have single := Bool.eq_false_iff.mpr both
        have below : Json.mayRead .operators (.obj ms) = false ∧ settledMembers ms = false := by
          simpa [Json.settledCondition, single] using unsettled
        have nested : classify (.obj ms) ≠ some .operators := by
          intro decided
          rw [mayRead_of_classify _ decided] at below
          cases below.1
        rw [readCondition_of_nested path marked nested, map_eq_ok] at h
        obtain ⟨ts, read, -⟩ := h
        obtain ⟨ns, reordered, fails⟩ := members_fail path ms below.2 read
        have moved : Json.Reordered (.obj ms) (.obj ns) := ⟨ns, rfl, reordered⟩
        rw [classify_reordered moved single] at nested
        refine ⟨.obj ns, moved, ?_⟩
        rw [readCondition_of_nested path (unmarked_reordered reordered marked) nested]
        exact fails_of_map fails
  | .arr _, unsettled, _, _ | .null, unsettled, _, _ | .bool _, unsettled, _, _
  | .int _, unsettled, _, _ | .float _, unsettled, _, _ | .str _, unsettled, _, _ => by
    cases unsettled
termination_by structural v => v

end

end ReadPlan
