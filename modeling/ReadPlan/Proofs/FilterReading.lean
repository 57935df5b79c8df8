import ReadPlan.Proofs.FilterPrinting

namespace ReadPlan

theorem Operator.bareToken_of_ofToken? {key : String} {op : Operator}
    (h : ofToken? key = some op) : bareToken key = op.token := by
  have found := List.find?_some h
  simpa using (beq_iff_eq.mp found).symm

theorem Combinator.bareToken_of_ofToken? {key : String} {op : Combinator}
    (h : ofToken? key = some op) : bareToken key = op.token := by
  unfold ofToken? at h
  split at h <;> cases h <;> assumption

def bareKeys (ms : Json.Members) : List String :=
  ms.map (bareToken ·.1)

mutual

/-- In no object, at any depth, are two keys equal without their leading double underscore. -/
def Json.KeysApart : Json → Prop
  | .obj ms => (bareKeys ms).Nodup ∧ membersKeysApart ms
  | .arr items => itemsKeysApart items
  | _ => True

def itemsKeysApart : List Json → Prop
  | [] => True
  | v :: rest => v.KeysApart ∧ itemsKeysApart rest

def membersKeysApart : List (String × Json) → Prop
  | [] => True
  | (_, v) :: rest => v.KeysApart ∧ membersKeysApart rest

end

mutual

/-- An operator map with its keys bare, those of the maps under its combinators too. An operand,
which may be an object or an array as well, stays as it is. -/
def bareClauses : List (String × Json) → List (String × Json)
  | [] => []
  | (key, v) :: rest => (bareToken key, bareOperand key v) :: bareClauses rest

def bareOperand (key : String) : Json → Json
  | .obj ms =>
    match Combinator.ofToken? key with
    | some .not => .obj (bareClauses ms)
    | _ => .obj ms
  | .arr items =>
    match Combinator.ofToken? key with
    | some .and | some .or => .arr (bareClauseItems items)
    | _ => .arr items
  | v => v

def bareClauseItems : List Json → List Json
  | [] => []
  | .obj ms :: rest => .obj (bareClauses ms) :: bareClauseItems rest
  | v :: rest => v :: bareClauseItems rest

end

mutual

def bareTerms : List (String × Json) → List (String × Json)
  | [] => []
  | (key, v) :: rest =>
    match Combinator.ofToken? key with
    | some _ => (bareToken key, bareFilter v) :: bareTerms rest
    | none => (key, bareCondition v) :: bareTerms rest

def bareFilter : Json → Json
  | .obj ms => .obj (bareTerms ms)
  | .arr items => .arr (bareFilterItems items)
  | v => v

def bareFilterItems : List Json → List Json
  | [] => []
  | v :: rest => bareFilter v :: bareFilterItems rest

def bareCondition : Json → Json
  | .obj ms =>
    match classify (.obj ms) with
    | some .operators => .obj (bareClauses ms)
    | _ => .obj (bareTerms ms)
  | v => v

end

section Keys

variable {ms ms' : Json.Members}

theorem distinct_of_bareKeys (keys : bareKeys ms' = bareKeys ms) (apart : (bareKeys ms).Nodup) :
    DistinctKeys ms' := by
  rw [← keys] at apart
  exact List.Nodup.of_map bareToken (by simpa [bareKeys, Function.comp_def] using apart)

theorem object_prints {members : Json.Members} (same : members = ms')
    (keys : bareKeys ms' = bareKeys ms) (apart : (bareKeys ms).Nodup) :
    DistinctKeys members ∧ Json.obj (Keyed.merge members) = .obj ms' := by
  have distinct := distinct_of_bareKeys keys apart
  exact ⟨same ▸ distinct, by rw [same, merge_of_distinct distinct]⟩

theorem any_key_congr {p : String → Bool} (same : ∀ a b, bareToken a = bareToken b → p a = p b)
    (keys : bareKeys ms' = bareKeys ms) : (ms'.any fun m => p m.1) = ms.any fun m => p m.1 := by
  induction ms' generalizing ms with
  | nil =>
    cases ms with
    | nil => rfl
    | cons m rest => contradiction
  | cons m' rest' ih =>
    cases ms with
    | nil => contradiction
    | cons m rest =>
      obtain ⟨first, others⟩ := List.cons.inj keys
      rw [List.any_cons, List.any_cons, same _ _ first, ih others]

theorem isCombinator_congr {a b : String} (h : bareToken a = bareToken b) :
    isCombinator a = isCombinator b := by
  rw [isCombinator, isCombinator, Combinator.ofToken?, Combinator.ofToken?, h]

theorem isPlainOperator_congr {a b : String} (h : bareToken a = bareToken b) :
    isPlainOperator a = isPlainOperator b := by
  rw [isPlainOperator, isPlainOperator, isCombinator_congr h, Operator.ofToken?,
    Operator.ofToken?, h]

theorem classify_congr (keys : bareKeys ms' = bareKeys ms)
    (members : (∀ m ∈ ms, isCombinator m.1 = true) → classifyMembers ms' = classifyMembers ms) :
    classify (.obj ms') = classify (.obj ms) := by
  have operators := any_key_congr (fun _ _ => isPlainOperator_congr) keys
  have others := any_key_congr (p := fun key => !isCombinator key)
    (fun _ _ h => congrArg not (isCombinator_congr h)) keys
  rw [classify, classify, operators, others]
  split
  · rfl
  · split
    · rfl
    · rename_i combinators
      exact members (by simpa using combinators)

theorem Combinator.bareToken_bareToken {key : String} {op : Combinator}
    (h : ofToken? key = some op) : bareToken (bareToken key) = bareToken key := by
  rw [bareToken_of_ofToken? h]
  cases op <;> decide

theorem Operator.bareToken_bareToken {key : String} {op : Operator}
    (h : ofToken? key = some op) : bareToken (bareToken key) = bareToken key := by
  rw [bareToken_of_ofToken? h]
  cases op <;> decide

theorem bareKeys_bareTerms (ms : Json.Members) : bareKeys (bareTerms ms) = bareKeys ms := by
  induction ms with
  | nil => rfl
  | cons m rest ih =>
    obtain ⟨key, v⟩ := m
    rw [bareTerms]
    split
    case h_1 op combinator =>
      exact List.cons_eq_cons.mpr ⟨Combinator.bareToken_bareToken combinator, ih⟩
    case h_2 => exact List.cons_eq_cons.mpr ⟨rfl, ih⟩

theorem bareToken_of_readClause {path key : String} {v : Json} {c : Clause}
    (h : readClause path key v = .ok c) : bareToken (bareToken key) = bareToken key := by
  cases combinator : Combinator.ofToken? key with
  | some op => exact Combinator.bareToken_bareToken combinator
  | none =>
    cases operator : Operator.ofToken? key with
    | some op => exact Operator.bareToken_bareToken operator
    | none => cases v <;> simp [readClause, combinator, operator] at h

theorem bareKeys_bareClauses {path : String} {cs : List Clause}
    (h : readClauses path ms = .ok cs) : bareKeys (bareClauses ms) = bareKeys ms := by
  induction ms generalizing cs with
  | nil => rfl
  | cons m rest ih =>
    simp only [readClauses, bind_eq_ok] at h
    obtain ⟨c, hc, others, ho, -⟩ := h
    exact List.cons_eq_cons.mpr ⟨bareToken_of_readClause hc, ih ho⟩

end Keys

def readingUnder : Json → Option Reading
  | .arr items => classifyItems items
  | v => classify v

theorem classifyMembers_cons (key : String) (v : Json) (rest : Json.Members) :
    classifyMembers ((key, v) :: rest) = (readingUnder v).or (classifyMembers rest) := by
  cases v <;> rfl

-- A map was read, so each of its keys is a token and stays the same token without its prefix.
mutual

theorem classifyMembers_bareClauses : (ms : Json.Members) → ∀ {path cs},
    readClauses path ms = .ok cs → classifyMembers (bareClauses ms) = classifyMembers ms
  | [], _, _, _ => rfl
  | (key, v) :: rest, path, cs, h => by
    simp only [readClauses, bind_eq_ok] at h
    obtain ⟨c, hc, others, ho, -⟩ := h
    rw [bareClauses, classifyMembers_cons, classifyMembers_cons, readingUnder_bareOperand v hc,
      classifyMembers_bareClauses rest ho]

theorem readingUnder_bareOperand : (v : Json) → ∀ {path key c},
    readClause path key v = .ok c → readingUnder (bareOperand key v) = readingUnder v
  | .obj inner, path, key, c, h => by
    simp only [bareOperand]
    split
    case h_1 negation =>
      simp only [readClause, negation, bind_eq_ok] at h
      obtain ⟨clauses, read, -⟩ := h
      exact classify_congr (bareKeys_bareClauses read) fun _ =>
        classifyMembers_bareClauses inner read
    case h_2 => rfl
  | .arr items, path, key, c, h => by
    simp only [bareOperand]
    split
    case h_1 combinator | h_2 combinator =>
      simp only [readClause, combinator, bind_eq_ok] at h
      obtain ⟨lists, read, -⟩ := h
      exact classifyItems_bareClauseItems items read
    case h_3 => rfl
  | .null, _, _, _, _ | .bool _, _, _, _, _ | .int _, _, _, _, _ | .float _, _, _, _, _
  | .str _, _, _, _, _ => rfl

theorem classifyItems_bareClauseItems : (items : List Json) → ∀ {path index lists},
    readClauseLists path index items = .ok lists →
      classifyItems (bareClauseItems items) = classifyItems items
  | [], _, _, _, _ => rfl
  | .obj inner :: rest, path, index, lists, h => by
    simp only [readClauseLists, bind_eq_ok] at h
    obtain ⟨clauses, read, more, hm, -⟩ := h
    rw [bareClauseItems, classifyItems, classifyItems, classifyItems_bareClauseItems rest hm,
      classify_congr (bareKeys_bareClauses read) fun _ => classifyMembers_bareClauses inner read]
  | .arr _ :: _, _, _, _, h | .null :: _, _, _, _, h | .bool _ :: _, _, _, _, h
  | .int _ :: _, _, _, _, h | .float _ :: _, _, _, _, h | .str _ :: _, _, _, _, h => by
    cases h

end

theorem classify_bareClauses {ms : Json.Members} {path : String} {cs : List Clause}
    (h : readClauses path ms = .ok cs) : classify (.obj (bareClauses ms)) = classify (.obj ms) :=
  classify_congr (bareKeys_bareClauses h) fun _ => classifyMembers_bareClauses ms h

-- Only combinators count here: a field key decides before any value is looked at.
mutual

theorem classifyMembers_bareTerms : (ms : Json.Members) →
    (∀ m ∈ ms, isCombinator m.1 = true) → classifyMembers (bareTerms ms) = classifyMembers ms
  | [], _ => rfl
  | (key, v) :: rest, combinators => by
    obtain ⟨first, others⟩ := List.forall_mem_cons.mp combinators
    obtain ⟨op, combinator⟩ := Option.isSome_iff_exists.mp first
    simp only [bareTerms, combinator]
    rw [classifyMembers_cons, classifyMembers_cons, readingUnder_bareFilter v,
      classifyMembers_bareTerms rest others]

theorem readingUnder_bareFilter : (v : Json) → readingUnder (bareFilter v) = readingUnder v
  | .obj inner =>
    classify_congr (bareKeys_bareTerms inner) (classifyMembers_bareTerms inner)
  | .arr items => classifyItems_bareFilter items
  | .null | .bool _ | .int _ | .float _ | .str _ => rfl

theorem classifyItems_bareFilter : (items : List Json) →
    classifyItems (bareFilterItems items) = classifyItems items
  | [] => rfl
  | .obj inner :: rest => by
    rw [bareFilterItems, bareFilter, classifyItems, classifyItems, classifyItems_bareFilter rest,
      classify_congr (bareKeys_bareTerms inner) (classifyMembers_bareTerms inner)]
  | .arr _ :: rest | .null :: rest | .bool _ :: rest | .int _ :: rest | .float _ :: rest
  | .str _ :: rest => by
    rw [bareFilterItems, classifyItems, classifyItems, classifyItems_bareFilter rest]
    rfl

end

theorem classify_bareTerms (ms : Json.Members) :
    classify (.obj (bareTerms ms)) = classify (.obj ms) :=
  classify_congr (bareKeys_bareTerms ms) (classifyMembers_bareTerms ms)

theorem compare_prints {key : String} {v : Json} {op : Operator}
    (known : Operator.ofToken? key = some op) (unmoved : bareOperand key v = v)
    (truth : Combinator.ofToken? key = some .not → ∀ ms, v ≠ .obj ms) :
    (Clause.compare op v).member = (bareToken key, bareOperand key v) ∧
      (Clause.compare op v).Obeys readable := by
  have token := Operator.bareToken_of_ofToken? known
  refine ⟨by rw [Clause.member, token, unmoved], ?_⟩
  rintro rfl
  exact truth (by rw [Combinator.ofToken?, token]; rfl)

mutual

theorem readClause_prints : (v : Json) → v.KeysApart → ∀ {path key c},
    readClause path key v = .ok c →
      c.member = (bareToken key, bareOperand key v) ∧ c.Obeys readable
  | .obj inner, apart, path, key, c, h => by
    rw [readClause] at h
    split at h
    case h_1 negation =>
      simp only [bind_eq_ok, pure_eq_ok] at h
      obtain ⟨cs, read, rfl⟩ := h
      obtain ⟨same, each⟩ := readClauses_print inner apart.2 read
      obtain ⟨distinct, object⟩ := object_prints same (bareKeys_bareClauses read) apart.1
      refine ⟨?_, fun _ => rfl, ⟨distinct, each⟩, trivial⟩
      simp only [Clause.member, Combinator.bareToken_of_ofToken? negation, clauseListsJson,
        underCombinator, object, bareOperand, negation]
    case h_2 => cases h
    case h_3 field =>
      split at h
      case h_1 op known =>
        cases h
        refine compare_prints known ?_ ?_
        · simp only [bareOperand, field]
        · simp [field]
      case h_2 => cases h
  | .arr items, apart, path, key, c, h => by
    rw [readClause] at h
    split at h
    case h_1 combinator | h_2 combinator =>
      simp only [bind_eq_ok, pure_eq_ok] at h
      obtain ⟨lists, read, rfl⟩ := h
      obtain ⟨same, each⟩ := readClauseLists_print items apart read
      refine ⟨?_, by simp, each⟩
      simp only [Clause.member, Combinator.bareToken_of_ofToken? combinator, underCombinator,
        bareOperand, combinator, same]
    case h_3 conjunction disjunction =>
      split at h
      case h_1 op known =>
        cases h
        refine compare_prints known ?_ (by simp)
        rw [bareOperand]
        split
        · contradiction
        · contradiction
        · rfl
      case h_2 => cases h
  | .null, _, path, key, c, h | .bool _, _, path, key, c, h | .int _, _, path, key, c, h
  | .float _, _, path, key, c, h | .str _, _, path, key, c, h => by
    simp only [readClause] at h
    split at h
    · cases h
    · cases h
    · split at h
      · cases h
        exact compare_prints ‹_› rfl (by simp)
      · cases h

theorem readClauses_print : (ms : Json.Members) → membersKeysApart ms → ∀ {path cs},
    readClauses path ms = .ok cs → clauseMembers cs = bareClauses ms ∧ clausesObey readable cs
  | [], _, _, _, h => by
    cases h
    exact ⟨rfl, trivial⟩
  | (key, v) :: rest, apart, path, cs, h => by
    simp only [readClauses, bind_eq_ok, pure_eq_ok] at h
    obtain ⟨c, hc, others, ho, rfl⟩ := h
    obtain ⟨first, obeys⟩ := readClause_prints v apart.1 hc
    obtain ⟨tail, each⟩ := readClauses_print rest apart.2 ho
    exact ⟨by rw [clauseMembers, bareClauses, first, tail], obeys, each⟩

theorem readClauseLists_print : (items : List Json) → itemsKeysApart items →
    ∀ {path index lists}, readClauseLists path index items = .ok lists →
      clauseListsJson lists = bareClauseItems items ∧ clauseListsObey readable lists
  | [], _, _, _, _, h => by
    cases h
    exact ⟨rfl, trivial⟩
  | .obj inner :: rest, apart, path, index, lists, h => by
    simp only [readClauseLists, bind_eq_ok, pure_eq_ok] at h
    obtain ⟨cs, read, more, hm, rfl⟩ := h
    obtain ⟨same, each⟩ := readClauses_print inner apart.1.2 read
    obtain ⟨tail, others⟩ := readClauseLists_print rest apart.2 hm
    obtain ⟨distinct, object⟩ := object_prints same (bareKeys_bareClauses read) apart.1.1
    exact ⟨by rw [clauseListsJson, object, tail, bareClauseItems], ⟨distinct, each⟩, others⟩
  | .arr _ :: _, _, _, _, _, h | .null :: _, _, _, _, _, h | .bool _ :: _, _, _, _, _, h
  | .int _ :: _, _, _, _, _, h | .float _ :: _, _, _, _, _, h | .str _ :: _, _, _, _, _, h => by
    cases h

end

theorem marker_not_mem_bareTerms {ms : Json.Members} (h : subqueryMarker ∉ ms.map (·.1)) :
    subqueryMarker ∉ (bareTerms ms).map (·.1) := by
  induction ms with
  | nil => exact h
  | cons m rest ih =>
    obtain ⟨key, v⟩ := m
    rw [List.map_cons, List.mem_cons, not_or] at h
    rw [bareTerms]
    split
    case h_1 op combinator =>
      rw [List.map_cons, List.mem_cons, not_or, Combinator.bareToken_of_ofToken? combinator]
      exact ⟨op.token_ne_marker, ih h.2⟩
    case h_2 =>
      rw [List.map_cons, List.mem_cons, not_or]
      exact ⟨h.1, ih h.2⟩

theorem readMarker_prints {path : String} {ms : Json.Members} {marker : Json} {c : Condition}
    (found : Keyed.get? subqueryMarker ms = some marker) (h : readMarker path ms marker = .ok c) :
    c.toJson = bareCondition (.obj ms) ∧ c.Obeys readable := by
  unfold readMarker at h
  split at h
  case h_1 sql m =>
    cases h
    have alone : m = (subqueryMarker, .str sql) := by
      obtain ⟨key, v⟩ := m
      simpa [Keyed.get?, and_comm] using found
    subst alone
    have plain : isPlainOperator subqueryMarker = false := by decide
    have field : Combinator.ofToken? subqueryMarker = none := by decide
    refine ⟨?_, trivial⟩
    simp [Condition.toJson, bareCondition, classify, plain, isCombinator, field, bareTerms]
  case h_2 => cases h

mutual

theorem readTerms_print : (ms : Json.Members) → membersKeysApart ms → ∀ {path terms},
    readTerms path ms = .ok terms → termMembers terms = bareTerms ms ∧ termsObey readable terms
  | [], _, _, _, h => by
    cases h
    exact ⟨rfl, trivial⟩
  | (key, v) :: rest, apart, path, terms, h => by
    rw [readTerms] at h
    split at h
    case h_1 op combinator =>
      simp only [bind_eq_ok, map_eq_ok, pure_eq_ok] at h
      obtain ⟨_, ⟨children, read, rfl⟩, others, ho, rfl⟩ := h
      obtain ⟨same, obeys⟩ := readChildren_prints v apart.1 read
      obtain ⟨tail, each⟩ := readTerms_print rest apart.2 ho
      refine ⟨?_, obeys, each⟩
      simp only [termMembers, Term.member, Combinator.bareToken_of_ofToken? combinator, same, tail,
        bareTerms, combinator]
    case h_2 field =>
      simp only [bind_eq_ok, map_eq_ok, pure_eq_ok] at h
      obtain ⟨_, ⟨condition, read, rfl⟩, others, ho, rfl⟩ := h
      obtain ⟨same, obeys⟩ := readCondition_prints v apart.1 read
      obtain ⟨tail, each⟩ := readTerms_print rest apart.2 ho
      refine ⟨?_, ⟨by simp [readable, isCombinator, field], obeys⟩, each⟩
      simp only [termMembers, Term.member, same, tail, bareTerms, field]

theorem readChildren_prints : (v : Json) → v.KeysApart → ∀ {path op children},
    readChildren path op v = .ok children →
      underCombinator op (filtersJson children) = bareFilter v ∧
        (op = .not → children.length = 1) ∧ filtersObey readable children
  | .obj inner, apart, path, op, children, h => by
    cases op with
    | not =>
      simp only [readChildren, bind_eq_ok, pure_eq_ok] at h
      obtain ⟨terms, read, rfl⟩ := h
      obtain ⟨same, each⟩ := readTerms_print inner apart.2 read
      obtain ⟨distinct, object⟩ := object_prints same (bareKeys_bareTerms inner) apart.1
      refine ⟨?_, fun _ => rfl, ⟨distinct, each⟩, trivial⟩
      simp only [filtersJson, underCombinator, object, bareFilter]
    | and | or => cases h
  | .arr items, apart, path, op, children, h => by
    cases op with
    | not => cases h
    | and | or =>
      obtain ⟨same, each⟩ := readFilters_print items apart h
      exact ⟨by rw [same]; rfl, by simp, each⟩
  | .null, _, _, op, _, h | .bool _, _, _, op, _, h | .int _, _, _, op, _, h
  | .float _, _, _, op, _, h | .str _, _, _, op, _, h => by
    cases op <;> cases h

theorem readFilters_print : (items : List Json) → itemsKeysApart items →
    ∀ {path index filters}, readFilters path index items = .ok filters →
      filtersJson filters = bareFilterItems items ∧ filtersObey readable filters
  | [], _, _, _, _, h => by
    cases h
    exact ⟨rfl, trivial⟩
  | .obj inner :: rest, apart, path, index, filters, h => by
    simp only [readFilters, bind_eq_ok, pure_eq_ok] at h
    obtain ⟨terms, read, more, hm, rfl⟩ := h
    obtain ⟨same, each⟩ := readTerms_print inner apart.1.2 read
    obtain ⟨tail, others⟩ := readFilters_print rest apart.2 hm
    obtain ⟨distinct, object⟩ := object_prints same (bareKeys_bareTerms inner) apart.1.1
    refine ⟨?_, ⟨distinct, each⟩, others⟩
    rw [filtersJson, object, tail, bareFilterItems, bareFilter]
  | .arr _ :: _, _, _, _, _, h | .null :: _, _, _, _, _, h | .bool _ :: _, _, _, _, _, h
  | .int _ :: _, _, _, _, _, h | .float _ :: _, _, _, _, _, h | .str _ :: _, _, _, _, _, h => by
    cases h

theorem readCondition_prints : (v : Json) → v.KeysApart → ∀ {path c},
    readCondition path v = .ok c → c.toJson = bareCondition v ∧ c.Obeys readable
  | .obj inner, apart, path, c, h => by
    rw [readCondition] at h
    split at h
    case h_1 marker found => exact readMarker_prints found h
    case h_2 unmarked =>
      split at h
      case h_1 operators =>
        simp only [bind_eq_ok, pure_eq_ok] at h
        obtain ⟨cs, read, rfl⟩ := h
        obtain ⟨same, each⟩ := readClauses_print inner apart.2 read
        obtain ⟨distinct, object⟩ := object_prints same (bareKeys_bareClauses read) apart.1
        refine ⟨?_, distinct, each, ?_⟩
        · simp only [Condition.toJson, object, bareCondition, operators]
        · simp only [readable, same, classify_bareClauses read, operators]
      case h_2 undecided =>
        simp only [bind_eq_ok, pure_eq_ok] at h
        obtain ⟨terms, read, rfl⟩ := h
        obtain ⟨same, each⟩ := readTerms_print inner apart.2 read
        obtain ⟨distinct, object⟩ := object_prints same (bareKeys_bareTerms inner) apart.1
        refine ⟨?_, distinct, each, ?_⟩
        · simp only [Condition.toJson, object, bareCondition]
        · simp only [readable, same, classify_bareTerms]
          exact ⟨undecided, marker_not_mem_bareTerms (Keyed.get?_eq_none.mp unmarked)⟩
  | .arr _, _, _, _, h | .null, _, _, _, h | .bool _, _, _, _, h | .int _, _, _, _, h
  | .float _, _, _, _, h | .str _, _, _, _, h => by
    cases h
    exact ⟨rfl, by simp [Condition.Obeys]⟩

end

/-- What was read prints as the value it was read from, its tokens bare. -/
theorem ofJson_prints {path : String} {v : Json} {filter : Filter} (apart : v.KeysApart)
    (h : Filter.ofJson path v = .ok filter) :
    filter.toJson = bareFilter v ∧ filter.Obeys readable := by
  cases v with
  | obj ms =>
    obtain ⟨same, each⟩ := readTerms_print ms apart.2 h
    obtain ⟨distinct, object⟩ := object_prints same (bareKeys_bareTerms ms) apart.1
    exact ⟨object, distinct, each⟩
  | _ => cases h

end ReadPlan
