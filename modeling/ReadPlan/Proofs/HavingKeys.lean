import ReadPlan.Predicate.OfHaving
import ReadPlan.Proofs.FilterTruth

namespace ReadPlan

namespace Having

mutual

/-- The keys in the place of filter keys, in document order: those of the object, and behind each
combinator those that its value holds. -/
def keys : List (String × Json) → List String
  | [] => []
  | (key, v) :: rest => key :: ((if isCombinator key then keysBelow v else []) ++ keys rest)

def keysBelow : Json → List String
  | .obj ms => keys ms
  | .arr items => keysOfItems items
  | .null | .bool _ | .int _ | .float _ | .str _ => []

def keysOfItems : List Json → List String
  | [] => []
  | .obj ms :: rest => keys ms ++ keysOfItems rest
  | .arr _ :: rest | .null :: rest | .bool _ :: rest | .int _ :: rest | .float _ :: rest
  | .str _ :: rest => keysOfItems rest

end

def isUnknown (aggregates : List Aggregate) (key : String) : Bool :=
  !isCombinator key && (aggregate? aggregates key).isNone

def condition (f : Frame) (aggregates : List Aggregate) (v : Json) :
    Except QueryError (Option Predicate) := do
  compile f aggregates (← read aggregates v)

end Having

/-! The check of the keys finds the first unknown one. -/

section

variable (aggregates : List Aggregate)

theorem find?_keys_cons (key : String) (below rest : List String) :
    (key :: ((if isCombinator key then below else []) ++ rest)).find?
        (Having.isUnknown aggregates) =
      if isCombinator key then
        (below.find? (Having.isUnknown aggregates)).or (rest.find? (Having.isUnknown aggregates))
      else if (Having.aggregate? aggregates key).isSome then
        rest.find? (Having.isUnknown aggregates)
      else some key := by
  cases combinator : isCombinator key with
  | true => simp [Having.isUnknown, combinator]
  | false =>
    cases known : Having.aggregate? aggregates key with
    | none => simp [Having.isUnknown, combinator, known]
    | some a => simp [Having.isUnknown, combinator, known]

mutual

theorem unknownKeyOfMembers?_eq : (ms : Json.Members) →
    Having.unknownKeyOfMembers? aggregates ms =
      (Having.keys ms).find? (Having.isUnknown aggregates)
  | [] => rfl
  | (key, .arr items) :: rest => by
    rw [Having.keys, Having.keysBelow, find?_keys_cons, ← unknownKeyOfItems?_eq items,
      ← unknownKeyOfMembers?_eq rest]
    rfl
  | (key, .obj ms) :: rest => by
    rw [Having.keys, Having.keysBelow, find?_keys_cons, ← unknownKeyOfMembers?_eq ms,
      ← unknownKeyOfMembers?_eq rest]
    rfl
  | (key, .null) :: rest | (key, .bool _) :: rest | (key, .int _) :: rest
  | (key, .float _) :: rest | (key, .str _) :: rest => by
    rw [Having.keys, Having.keysBelow, find?_keys_cons, ← unknownKeyOfMembers?_eq rest]
    rfl

theorem unknownKeyOfItems?_eq : (vs : List Json) →
    Having.unknownKeyOfItems? aggregates vs =
      (Having.keysOfItems vs).find? (Having.isUnknown aggregates)
  | [] => rfl
  | .obj ms :: rest => by
    rw [Having.keysOfItems, List.find?_append, ← unknownKeyOfMembers?_eq ms,
      ← unknownKeyOfItems?_eq rest]
    rfl
  | .arr _ :: rest | .null :: rest | .bool _ :: rest | .int _ :: rest | .float _ :: rest
  | .str _ :: rest => by
    rw [Having.keysOfItems, ← unknownKeyOfItems?_eq rest]
    rfl

end

end

/-! What is read has the keys that were checked. -/

mutual

/-- The field keys of a filter that stand under combinators alone. -/
def Term.fieldKeys : Term → List String
  | .logical _ children => fieldKeysOfFilters children
  | .field key _ => [key]

def fieldKeys : List Term → List String
  | [] => []
  | t :: rest => t.fieldKeys ++ fieldKeys rest

def fieldKeysOfFilters : List (List Term) → List String
  | [] => []
  | terms :: rest => fieldKeys terms ++ fieldKeysOfFilters rest

end

mutual

theorem readTerms_fieldKeys (path : String) : (ms : Json.Members) → ∀ {terms},
    readTerms path ms = .ok terms →
      fieldKeys terms = (Having.keys ms).filter (!isCombinator ·)
  | [], _, h => by
    cases h
    rfl
  | (key, v) :: rest, _, h => by
    simp only [readTerms] at h
    split at h
    · rename_i op found
      simp only [bind_eq_ok, map_eq_ok, pure_eq_ok] at h
      obtain ⟨_, ⟨children, first, rfl⟩, terms, more, rfl⟩ := h
      have combinator : isCombinator key = true := by rw [isCombinator, found]; rfl
      rw [fieldKeys, Term.fieldKeys, readChildren_fieldKeys _ op v first,
        readTerms_fieldKeys path rest more, Having.keys]
      simp [combinator]
    · rename_i found
      simp only [bind_eq_ok, map_eq_ok, pure_eq_ok] at h
      obtain ⟨_, ⟨condition, -, rfl⟩, terms, more, rfl⟩ := h
      have combinator : isCombinator key = false := by rw [isCombinator, found]; rfl
      rw [fieldKeys, Term.fieldKeys, readTerms_fieldKeys path rest more, Having.keys]
      simp [combinator]

theorem readChildren_fieldKeys (path : String) (op : Combinator) : (v : Json) → ∀ {children},
    readChildren path op v = .ok children →
      fieldKeysOfFilters children = (Having.keysBelow v).filter (!isCombinator ·)
  | .obj ms, _, h => by
    simp only [readChildren] at h
    split at h
    · simp only [bind_eq_ok, pure_eq_ok] at h
      obtain ⟨terms, read, rfl⟩ := h
      simp [fieldKeysOfFilters, Having.keysBelow, readTerms_fieldKeys path ms read]
    · cases h
  | .arr items, _, h => by
    simp only [readChildren] at h
    split at h
    · cases h
    · exact readFilters_fieldKeys path 0 items h
  | .null, _, h | .bool _, _, h | .int _, _, h | .float _, _, h | .str _, _, h => by
    simp only [readChildren] at h
    split at h <;> cases h

theorem readFilters_fieldKeys (path : String) (index : Nat) : (vs : List Json) → ∀ {filters},
    readFilters path index vs = .ok filters →
      fieldKeysOfFilters filters = (Having.keysOfItems vs).filter (!isCombinator ·)
  | [], _, h => by
    cases h
    rfl
  | .obj ms :: rest, _, h => by
    simp only [readFilters, bind_eq_ok, pure_eq_ok] at h
    obtain ⟨terms, first, filters, more, rfl⟩ := h
    rw [fieldKeysOfFilters, Having.keysOfItems, List.filter_append,
      readTerms_fieldKeys _ ms first, readFilters_fieldKeys path (index + 1) rest more]
  | .arr _ :: _, _, h | .null :: _, _, h | .bool _ :: _, _, h | .int _ :: _, _, h
  | .float _ :: _, _, h | .str _ :: _, _, h => by cases h

end

theorem known_of_read {aggregates : List Aggregate} {ms : Json.Members} {filter : Filter}
    (h : Having.read aggregates (.obj ms) = .ok filter) :
    ∀ key ∈ fieldKeys filter, (Having.aggregate? aggregates key).isSome = true := by
  rw [Having.read, unknownKeyOfMembers?_eq] at h
  split at h
  · cases h
  · rename_i none
    intro key hk
    rw [readTerms_fieldKeys _ ms h, List.mem_filter] at hk
    have known := List.find?_eq_none.mp none key hk.1
    rw [Having.isUnknown, hk.2, Bool.true_and, Option.isNone_iff_eq_none] at known
    exact Option.isSome_iff_ne_none.mpr known

/-! No other step reports a key that names no aggregate. -/

namespace QueryError

def OfReading : QueryError → Prop
  | .invalidShape .. | .unknownOperator _ => True
  | _ => False

def OfOperand : QueryError → Prop
  | .invalidShape .. | .unknownAssociation .. | .unknownField .. | .entityNotFound _ => True
  | _ => False

end QueryError

mutual

theorem readClauses_raises (path : String) : (ms : Json.Members) →
    Raises QueryError.OfReading (readClauses path ms)
  | [] => .ok _
  | (token, operand) :: rest => by
    rw [readClauses]
    refine (readClause_raises _ token operand).bind fun clause _ => ?_
    exact (readClauses_raises path rest).bind fun clauses _ => .ok _

theorem readClause_raises (path token : String) : (v : Json) →
    Raises QueryError.OfReading (readClause path token v)
  | .obj inner => by
    rw [readClause]
    split
    · exact (readClauses_raises path inner).bind fun clauses _ => .ok _
    · exact .error trivial
    · split
      · exact .ok _
      · exact .error trivial
  | .arr items => by
    have lists (op : Combinator) : Raises QueryError.OfReading
        (do return Clause.logical op (← readClauseLists path 0 items)) :=
      (readClauseLists_raises path 0 items).bind fun children _ => .ok _
    rw [readClause]
    split
    · exact lists .and
    · exact lists .or
    · split
      · exact .ok _
      · exact .error trivial
  | .null | .bool _ | .int _ | .float _ | .str _ => by
    unfold readClause
    split
    · exact .error trivial
    · exact .error trivial
    · split
      · exact .ok _
      · exact .error trivial

theorem readClauseLists_raises (path : String) (index : Nat) : (vs : List Json) →
    Raises QueryError.OfReading (readClauseLists path index vs)
  | [] => .ok _
  | .obj inner :: rest => by
    rw [readClauseLists]
    refine (readClauses_raises _ inner).bind fun clauses _ => ?_
    exact (readClauseLists_raises path (index + 1) rest).bind fun more _ => .ok _
  | .arr _ :: _ | .null :: _ | .bool _ :: _ | .int _ :: _ | .float _ :: _ | .str _ :: _ =>
    .error trivial

end

theorem readMarker_raises (path : String) (ms : Json.Members) (marker : Json) :
    Raises QueryError.OfReading (readMarker path ms marker) := by
  unfold readMarker
  split
  · exact .ok _
  · exact .error trivial

mutual

theorem readTerms_raises (path : String) : (ms : Json.Members) →
    Raises QueryError.OfReading (readTerms path ms)
  | [] => .ok _
  | (key, v) :: rest => by
    rw [readTerms]
    split
    · refine ((readChildren_raises _ _ v).map _).bind fun term _ => ?_
      exact (readTerms_raises path rest).bind fun terms _ => .ok _
    · refine ((readCondition_raises _ v).map _).bind fun term _ => ?_
      exact (readTerms_raises path rest).bind fun terms _ => .ok _

theorem readChildren_raises (path : String) (op : Combinator) : (v : Json) →
    Raises QueryError.OfReading (readChildren path op v)
  | .obj ms => by
    unfold readChildren
    split
    · exact (readTerms_raises path ms).bind fun terms _ => .ok _
    · exact .error trivial
  | .arr items => by
    unfold readChildren
    split
    · exact .error trivial
    · exact readFilters_raises path 0 items
  | .null | .bool _ | .int _ | .float _ | .str _ => by
    unfold readChildren
    split
    · exact .error trivial
    · exact .error trivial

theorem readFilters_raises (path : String) (index : Nat) : (vs : List Json) →
    Raises QueryError.OfReading (readFilters path index vs)
  | [] => .ok _
  | .obj ms :: rest => by
    rw [readFilters]
    refine (readTerms_raises _ ms).bind fun terms _ => ?_
    exact (readFilters_raises path (index + 1) rest).bind fun more _ => .ok _
  | .arr _ :: _ | .null :: _ | .bool _ :: _ | .int _ :: _ | .float _ :: _ | .str _ :: _ =>
    .error trivial

theorem readCondition_raises (path : String) : (v : Json) →
    Raises QueryError.OfReading (readCondition path v)
  | .obj ms => by
    rw [readCondition]
    split
    · exact readMarker_raises path ms _
    · split
      · exact (readClauses_raises path ms).bind fun clauses _ => .ok _
      · exact (readTerms_raises path ms).bind fun terms _ => .ok _
  | .arr _ | .null | .bool _ | .int _ | .float _ | .str _ => .ok _

end

section

variable (f : Frame)

theorem follow_raises (owner : String) (names : List String) :
    Raises QueryError.OfOperand (f.catalog.follow owner names) := by
  induction names generalizing owner with
  | nil => exact .ok _
  | cons name rest ih =>
    rw [Catalog.follow]
    split
    · exact .error trivial
    · rename_i a _
      have further := ih a.target
      split
      · rename_i e failed
        exact .error (further e failed)
      · exact .ok _

theorem bind_raises (reference : String) : Raises QueryError.OfOperand (f.bind reference) := by
  have reached (segments : List String) : Raises QueryError.OfOperand (f.reach segments) := by
    refine (follow_raises f _ segments).bind fun steps _ => ?_
    split
    · exact .ok _
    · split
      · exact .error trivial
      · exact .ok _
  refine (reached _).bind fun e _ => ?_
  split
  · exact .error trivial
  · exact .ok _

theorem operand_raises (path : String) (op : Operator) (v : Json) :
    Raises QueryError.OfOperand (Operand.ofJson f path op v) := by
  unfold Operand.ofJson
  split
  · split
    · exact .error trivial
    · exact .ok _
  · split
    · exact .ok _
    · exact .error trivial
  · exact .error trivial
  · split
    · exact .ok _
    · exact .error trivial
  · exact .error trivial
  · exact (bind_raises f _).bind fun field _ => .ok _
  · exact .error trivial

end

section

variable {P : QueryError → Prop} {leaf : Operator → Json → Except QueryError Predicate}

mutual

theorem clause_compile_raises (leaves : ∀ op v, Raises P (leaf op v)) :
    (c : Clause) → Raises P (c.compile leaf)
  | .compare op v => (leaves op v).bind fun _ _ => .ok _
  | .logical _ children => (compileClauseLists_raises leaves children).bind fun _ _ => .ok _

theorem compileClauses_raises (leaves : ∀ op v, Raises P (leaf op v)) :
    (cs : List Clause) → Raises P (compileClauses leaf cs)
  | [] => .ok _
  | c :: rest => (clause_compile_raises leaves c).bind fun _ _ =>
    (compileClauses_raises leaves rest).bind fun _ _ => .ok _

theorem compileClauseLists_raises (leaves : ∀ op v, Raises P (leaf op v)) :
    (lists : List (List Clause)) → Raises P (compileClauseLists leaf lists)
  | [] => .ok _
  | cs :: rest => (compileClauses_raises leaves cs).bind fun _ _ =>
    (compileClauseLists_raises leaves rest).bind fun _ _ => .ok _

end

end

section

variable {f : Frame} {aggregates : List Aggregate}

theorem having_condition_raises {key : String}
    (known : (Having.aggregate? aggregates key).isSome = true) (condition : Condition) :
    Raises QueryError.OfOperand (Having.compileCondition f aggregates key condition) := by
  obtain ⟨a, found⟩ := Option.isSome_iff_exists.mp known
  have compared (op : Operator) (v : Json) :
      Raises QueryError.OfOperand (Having.compare f key a op v) :=
    (operand_raises f key op v).bind fun _ _ => .ok _
  rw [Having.compileCondition, found]
  cases condition with
  | operators clauses => exact (compileClauses_raises compared clauses).bind fun _ _ => .ok _
  | _ => exact .error trivial

mutual

theorem having_compileTerms_raises : (terms : List Term) →
    (∀ key ∈ fieldKeys terms, (Having.aggregate? aggregates key).isSome = true) →
      Raises QueryError.OfOperand (Having.compileTerms f aggregates terms)
  | [], _ => by
    rw [Having.compileTerms]
    exact .ok _
  | .logical op children :: rest, known => by
    obtain ⟨here, others⟩ := List.forall_mem_append.mp known
    rw [Having.compileTerms]
    refine (having_compileFilters_raises children here).bind fun ps _ => ?_
    exact (having_compileTerms_raises rest others).bind fun qs _ => .ok _
  | .field key condition :: rest, known => by
    obtain ⟨here, others⟩ := List.forall_mem_cons.mp known
    rw [Having.compileTerms]
    refine (having_condition_raises here condition).bind fun ps _ => ?_
    exact (having_compileTerms_raises rest others).bind fun qs _ => .ok _

theorem having_compileFilters_raises : (filters : List (List Term)) →
    (∀ key ∈ fieldKeysOfFilters filters, (Having.aggregate? aggregates key).isSome = true) →
      Raises QueryError.OfOperand (Having.compileFilters f aggregates filters)
  | [], _ => by
    rw [Having.compileFilters]
    exact .ok _
  | terms :: rest, known => by
    obtain ⟨here, others⟩ := List.forall_mem_append.mp known
    rw [Having.compileFilters]
    refine (having_compileTerms_raises terms here).bind fun ps _ => ?_
    exact (having_compileFilters_raises rest others).bind fun qs _ => .ok _

end

theorem having_compile_raises {ms : Json.Members} {filter : Filter}
    (h : Having.read aggregates (.obj ms) = .ok filter) :
    Raises QueryError.OfOperand (Having.compile f aggregates filter) :=
  (having_compileTerms_raises filter (known_of_read h)).bind fun _ _ => .ok _

end

/-- Conditions on groups are refused for an unknown key exactly when they have one, whatever else is
wrong with them, and then for the first. After the check no key is found unknown. -/
theorem first_unknown_key_reported (f : Frame) (aggregates : List Aggregate) (ms : Json.Members) :
    (∀ key, Having.condition f aggregates (.obj ms) = .error (.havingNotAggregate key) ↔
      (Having.keys ms).find? (Having.isUnknown aggregates) = some key) ∧
    ∀ filter, Having.read aggregates (.obj ms) = .ok filter →
      ∀ key, Having.compile f aggregates filter ≠ .error (.havingNotAggregate key) := by
  have later {filter : Filter} (read : Having.read aggregates (.obj ms) = .ok filter)
      (key : String) : Having.compile f aggregates filter ≠ .error (.havingNotAggregate key) :=
    fun failed => having_compile_raises read _ failed
  refine ⟨fun key => ?_, fun filter read key => later read key⟩
  cases first : (Having.keys ms).find? (Having.isUnknown aggregates) with
  | some unknown =>
    have refused : Having.read aggregates (.obj ms) = .error (.havingNotAggregate unknown) := by
      rw [Having.read, unknownKeyOfMembers?_eq, first]
    rw [Having.condition, refused, error_bind]
    simp
  | none =>
    have reads : Having.read aggregates (.obj ms) = readTerms Having.path ms := by
      rw [Having.read, unknownKeyOfMembers?_eq, first]
    rw [Having.condition]
    cases read : Having.read aggregates (.obj ms) with
    | ok filter => simpa [ok_bind] using later read key
    | error e =>
      have fault := readTerms_raises Having.path ms e (reads ▸ read)
      rw [error_bind]
      cases e with
      | havingNotAggregate => cases fault
      | _ => simp

theorem film_unknown_key_reported :
    Having.condition filmFrame filmAggregates
        (.obj [("max_length", .obj [("gtt", .int 90)]), ("or", .obj [("min_length", .null)])]) =
      .error (.havingNotAggregate "min_length") ∧
    Having.compile filmFrame filmAggregates
        [.field "max_length" (.operators [.compare .gt (.int 90)])] ≠
      .error (.havingNotAggregate "max_length") := by
  constructor
  · exact ((first_unknown_key_reported filmFrame filmAggregates _).1 _).mpr (by decide)
  · have read : Having.read filmAggregates (.obj [("max_length", .obj [("gt", .int 90)])]) =
        .ok [.field "max_length" (.operators [.compare .gt (.int 90)])] := rfl
    exact (first_unknown_key_reported filmFrame filmAggregates _).2 _ read _

/-- An object that is reached from a value through the values of combinators and the elements of
arrays. -/
inductive Having.Passes : Json → Json.Members → Prop
  | here {ms : Json.Members} : Passes (.obj ms) ms
  | value {key : String} {v : Json} {ms inner : Json.Members} (mem : (key, v) ∈ ms)
    (combinator : isCombinator key = true) (further : Passes v inner) : Passes (.obj ms) inner
  | element {v : Json} {items : List Json} {inner : Json.Members} (mem : v ∈ items)
    (further : Passes v inner) : Passes (.arr items) inner

/-- A filter is no element of a list of lists, and its keys are not looked at there: what is
refused is the inner list. -/
theorem key_in_nested_list_not_reported :
    ¬ ((∃ key, Having.condition filmFrame filmAggregates
          (.obj [("or", .arr [.arr [.obj [("foo", .obj [("gt", .int 1)])]]])]) =
        .error (.havingNotAggregate key)) ↔
      ∃ inner, Having.Passes
          (.obj [("or", .arr [.arr [.obj [("foo", .obj [("gt", .int 1)])]]])]) inner ∧
        ∃ member ∈ inner, Having.isUnknown filmAggregates member.1 = true) := by
  have refused : Having.condition filmFrame filmAggregates
      (.obj [("or", .arr [.arr [.obj [("foo", .obj [("gt", .int 1)])]]])]) =
        .error (.invalidShape "having.or[0]" .filterNotObject) := rfl
  have passed : Having.Passes (.obj [("or", .arr [.arr [.obj [("foo", .obj [("gt", .int 1)])]]])])
      [("foo", .obj [("gt", .int 1)])] :=
    .value (List.mem_singleton.mpr rfl) rfl <| .element (List.mem_singleton.mpr rfl) <|
      .element (List.mem_singleton.mpr rfl) .here
  intro same
  obtain ⟨key, reported⟩ := same.mpr ⟨_, passed, _, List.mem_singleton.mpr rfl, rfl⟩
  rw [refused] at reported
  cases reported

end ReadPlan
