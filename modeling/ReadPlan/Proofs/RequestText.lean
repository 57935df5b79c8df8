import ReadPlan.Proofs.RequestRoundTrip
import ReadPlan.Proofs.RereadValues

namespace ReadPlan

namespace Json

variable {depth : Nat}

theorem record?_legible {v : Json} {names : List String} {field : String → Option Json}
    (opened : v.record? names = some field) (legible : v.Legible (depth + 1)) {name : String}
    {w : Json} (given : field name = some w) : w.Legible depth := by
  cases legible with
  | arr each =>
    rw [record?, Option.ite_none_left_eq_some] at opened
    cases opened.2
    exact each w (List.of_mem_zip (Keyed.mem_of_get? given)).2
  | obj each =>
    simp only [record?, object?, Option.ite_none_left_eq_some, Option.some.injEq] at opened
    obtain ⟨-, rfl⟩ := opened
    exact each _ (Keyed.mem_of_get? given)
  | _ => cases opened

theorem ofStrings_legible (names : List String) : (ofStrings names).Legible (depth + 1) :=
  .arr (List.forall_mem_map.mpr fun name _ => .str name)

theorem count?_legible {v : Json} {n : Nat} (read : count? v = some n) :
    (Json.int n).Legible depth := by
  cases v with
  | int m =>
    simp only [count?, Option.ite_none_right_eq_some, Option.some.injEq] at read
    obtain ⟨range, rfl⟩ := read
    exact .int (by omega)
  | _ => cases read

theorem optional?_eq_some {α : Type} {value? : Json → Option α} {field : Option Json} {x : α}
    (read : optional? value? field = some (some x)) : ∃ v ∈ field, value? v = some x := by
  cases field with
  | none => cases read
  | some v =>
    refine ⟨v, rfl, ?_⟩
    cases v <;> first | exact Option.map_injective (Option.some_injective _) read | cases read

theorem freeMembers?_eq_some {v : Json} {ms : Members} (read : freeMembers? v = some ms) :
    v.merged = .obj ms := by
  cases v with
  | obj given =>
    cases read
    rfl
  | _ => cases read

/-- A record is read from its text if each of its fields is read in the scope of its name. -/
theorem record_reads {scope : Scope} {fields : List (String × Option Json)}
    (each : ∀ entry ∈ fields, ∀ v ∈ entry.2, ∃ inner, scope.member? entry.1 = some inner ∧
      Reads (value depth inner) v.compact.toList v.reread?) :
    Reads (value (depth + 1) scope) (obj (recordMembers fields)).compact.toList
      (obj (recordMembers fields)).reread? := by
  rw [reread?, rereadMembers?_eq_mapM]
  refine object_reads fun m hm => ?_
  obtain ⟨entry, member, given⟩ := List.mem_filterMap.mp hm
  obtain ⟨v, here, rfl⟩ := Option.map_eq_some_iff.mp given
  exact each entry member v here

@[simp] theorem ofStrings_floats (names : List String) : (ofStrings names).floats = [] := by
  simp [ofStrings, floats, itemsFloats_eq]

end Json

open Json

def plainScope (names : List String) : Json.Scope :=
  .record (names.map fun name => (name, .whole))

theorem Page.reads {v : Json} {p : Page} (read : Page.ofJson? v = some p) (depth : Nat) :
    Reads (value (depth + 1) (plainScope Page.fieldNames)) p.toJson.compact.toList
      p.toJson.reread? := by
  obtain ⟨field, -, limit, offset⟩ := Page.ofJson?_eq_some.mp read
  have count {n? : Option Nat} {given : Option Json} (read : optional? count? given = some n?) :
      ∀ w ∈ n?.map fun n : Nat => Json.int n, w.Legible depth := by
    rintro w here
    obtain ⟨n, rfl, rfl⟩ := Option.map_eq_some_iff.mp here
    obtain ⟨v, -, counted⟩ := optional?_eq_some read
    exact count?_legible counted
  rw [Page.toJson_eq]
  apply record_reads
  simp only [Page.fields, List.forall_mem_cons]
  refine ⟨fun w here => ⟨.whole, rfl, ?_⟩, fun w here => ⟨.whole, rfl, ?_⟩, by simp⟩
  · exact (count limit w here).reads
  · exact (count offset w here).reads

@[simp] theorem Page.toJson_floats (p : Page) : p.toJson.floats = [] := by
  rw [Page.toJson_eq]
  obtain ⟨limit, offset⟩ := p
  cases limit <;> cases offset <;> rfl

theorem Sorting.reads (s : Sorting) (depth : Nat) :
    Reads (value (depth + 1) (plainScope Sorting.fieldNames)) s.toJson.compact.toList
      s.toJson.reread? := by
  have fields : s.toJson = .obj (recordMembers s.fields) := rfl
  rw [fields]
  apply record_reads
  simp only [Sorting.fields, List.forall_mem_cons]
  refine ⟨?_, ?_, by simp⟩ <;> rintro _ ⟨⟩ <;> exact ⟨.whole, rfl, (Legible.str _).reads⟩

@[simp] theorem Sorting.toJson_floats (s : Sorting) : s.toJson.floats = [] := rfl

theorem JoinOptions.legible (options : JoinOptions) (depth : Nat) :
    options.toJson.Legible (depth + 1) :=
  .obj (List.forall_mem_map.mpr fun option _ => .str option.2.name)

@[simp] theorem JoinOptions.toJson_floats (options : JoinOptions) : options.toJson.floats = [] := by
  rw [JoinOptions.toJson, floats, membersFloats_eq, List.flatMap_map]
  exact List.flatMap_eq_nil_iff.mpr fun _ _ => rfl

/-- The fields of a request with values of any form. -/
def Request.freeFields (r : Request) : List (String × Option Json) :=
  [("filters", some r.filters), ("aggregates", r.aggregates.map .obj), ("having", r.having)]

theorem Request.freeFields_subset (r : Request) : r.freeFields ⊆ r.fields := by
  simp [freeFields, fields]

theorem Request.freeFields_given {v : Json} {r : Request} (read : Request.ofJson? v = some r) :
    ∃ field, v.record? fieldNames = some field ∧ ∀ entry ∈ r.freeFields, ∀ u ∈ entry.2,
      ∃ w, field entry.1 = some w ∧ w.merged = u := by
  obtain ⟨field, opened, -, filters, -, -, -, -, aggregates, having, -, -⟩ :=
    Request.ofJson?_eq_some.mp read
  refine ⟨field, opened, ?_⟩
  simp only [freeFields, List.forall_mem_cons]
  refine ⟨?_, ?_, ?_, by simp⟩
  · rintro _ ⟨⟩
    cases given : field "filters" with
    | none =>
      rw [given] at filters
      cases filters
    | some w =>
      rw [given] at filters
      exact ⟨w, rfl, Option.some.inj filters⟩
  · intro u here
    obtain ⟨ms, known, rfl⟩ := Option.map_eq_some_iff.mp here
    rw [known] at aggregates
    obtain ⟨w, given, read⟩ := optional?_eq_some aggregates
    exact ⟨w, given, freeMembers?_eq_some read⟩
  · intro u here
    rw [Option.mem_def.mp here] at having
    obtain ⟨w, given, read⟩ := optional?_eq_some having
    exact ⟨w, given, Option.some.inj read⟩

theorem Request.freeFields_merged {v : Json} {r : Request} (read : Request.ofJson? v = some r) :
    ∀ entry ∈ r.freeFields, ∀ u ∈ entry.2, u.merged = u := by
  obtain ⟨field, -, given⟩ := freeFields_given read
  intro entry he u here
  obtain ⟨w, -, rfl⟩ := given entry he u here
  exact merged_merged w

theorem Request.freeFields_legible {v : Json} {r : Request} {depth : Nat}
    (read : Request.ofJson? v = some r) (legible : v.Legible (depth + 1)) :
    ∀ entry ∈ r.freeFields, ∀ u ∈ entry.2, u.Legible depth := by
  obtain ⟨field, opened, given⟩ := freeFields_given read
  intro entry he u here
  obtain ⟨w, known, rfl⟩ := given entry he u here
  exact (record?_legible opened legible known).merged

theorem Request.toJson_floats (r : Request) :
    r.toJson.floats = r.freeFields.flatMap fun entry => entry.2.elim [] floats := by
  have optional (name : String) (v : Option Json) :
      membersFloats (v.map (name, ·)).toList = v.elim [] floats := by
    cases v <;> simp [membersFloats]
  have append (ms ns : Members) :
      membersFloats (ms ++ ns) = membersFloats ms ++ membersFloats ns := by
    simp [membersFloats_eq]
  have plain {α : Type} {toJson : α → Json} (none : ∀ x, (toJson x).floats = []) (x? : Option α) :
      (x?.map toJson).elim [] floats = [] := by
    cases x? <;> simp [none]
  have omitted {v : Json} (none : v.floats = []) (empty : Bool) :
      ((if empty = true then Option.none else some v) : Option Json).elim [] floats = [] := by
    cases empty <;> simp [none]
  rw [toJson_eq, floats]
  simp only [fields, freeFields, recordMembers_cons, append, optional, plain ofStrings_floats,
    plain Sorting.toJson_floats, omitted (ofStrings_floats _),
    omitted (JoinOptions.toJson_floats _)]
  simp [floats, recordMembers, membersFloats]

/-- A request is read from its text, but for the floats, if the document it came from was within
the limits. -/
theorem Request.reads {v : Json} {r : Request} {depth : Nat} (read : Request.ofJson? v = some r)
    (legible : v.Legible (depth + 3)) :
    Reads (value (depth + 3) Request.scope) r.toJson.compact.toList r.toJson.reread? := by
  obtain ⟨field, -, -, -, -, page, -⟩ := Request.ofJson?_eq_some.mp read
  have free := freeFields_legible read legible
  simp only [freeFields, List.forall_mem_cons] at free
  obtain ⟨filters, aggregates, having, -⟩ := free
  have plain {name : String} {w? : Option Json}
      (known : Request.scope.member? name = some .whole) (each : ∀ w ∈ w?, w.Legible (depth + 2)) :
      ∀ w ∈ w?, ∃ inner, Request.scope.member? name = some inner ∧
        Reads (value (depth + 2) inner) w.compact.toList w.reread? :=
    fun w here => ⟨.whole, known, (each w here).reads⟩
  rw [Request.toJson_eq]
  apply record_reads
  simp only [Request.fields, List.forall_mem_cons]
  refine ⟨plain rfl ?_, plain rfl filters, plain rfl ?_, ?_, ?_, plain rfl ?_, plain rfl aggregates,
    plain rfl ?_, plain rfl ?_, plain rfl ?_, by simp⟩
  · rintro _ ⟨⟩
    exact .str _
  · intro w here
    obtain ⟨names, -, rfl⟩ := Option.map_eq_some_iff.mp here
    exact ofStrings_legible names
  · rintro _ ⟨⟩
    obtain ⟨w, given⟩ : ∃ w, Page.ofJson? w = some r.page := by
      cases given : field "pagination" with
      | none => exact ⟨.obj [], by rwa [given] at page⟩
      | some w => exact ⟨w, by rwa [given] at page⟩
    exact ⟨_, rfl, Page.reads given (depth + 1)⟩
  · intro w here
    obtain ⟨s, -, rfl⟩ := Option.map_eq_some_iff.mp here
    exact ⟨_, rfl, s.reads (depth + 1)⟩
  · intro w here
    obtain ⟨-, ⟨⟩⟩ := Option.ite_none_left_eq_some.mp here
    exact ofStrings_legible r.groupBy
  · simpa using having
  · intro w here
    obtain ⟨-, ⟨⟩⟩ := Option.ite_none_left_eq_some.mp here
    exact r.joinOptions.legible (depth + 1)
  · rintro _ ⟨⟩
    exact .bool _

theorem Request.ofText?_eq_some {text : String} {r : Request} :
    Request.ofText? text = some r ↔
      ∃ v, Json.read? Request.scope text = some v ∧ Request.ofJson? v = some r :=
  Option.bind_eq_some_iff

theorem Request.floats_canonical {v : Json} {r : Request} {depth : Nat}
    (read : Request.ofJson? v = some r) (legible : v.Legible (depth + 1)) {x : Binary64}
    (hx : x ∈ r.toJson.floats) : x.IsCanonical := by
  rw [toJson_floats] at hx
  obtain ⟨entry, he, hx⟩ := List.mem_flatMap.mp hx
  cases here : entry.2 with
  | none => simp [here] at hx
  | some u =>
    rw [here] at hx
    exact (freeFields_legible read legible entry he u here).canonical x hx

theorem Request.floats_reread {v w : Json} {r : Request} (read : Request.ofJson? v = some r)
    (drifted : r.toJson.reread? = some w) (again : Request.ofJson? w = some r) :
    ∀ x ∈ r.toJson.floats, x.reread? = some x := by
  obtain ⟨field, opened, given⟩ := freeFields_given again
  rw [toJson_eq] at drifted
  obtain ⟨ns, members, rfl⟩ := Option.map_eq_some_iff.mp drifted
  simp only [record?, object?, Option.ite_none_left_eq_some, Option.some.injEq] at opened
  obtain ⟨-, rfl⟩ := opened
  rw [toJson_floats]
  intro x hx
  obtain ⟨entry, he, hx⟩ := List.mem_flatMap.mp hx
  cases here : entry.2 with
  | none => simp [here] at hx
  | some u =>
    rw [here] at hx
    have written : Keyed.get? entry.1 (recordMembers r.fields) = some u := by
      rw [← here]
      have distinct : (r.fields.map (·.1)).Nodup := show Request.fieldNames.Nodup by decide
      exact get?_recordMembers distinct (r.freeFields_subset he)
    obtain ⟨t, changed, found⟩ := get?_reread members written
    obtain ⟨t', known, same⟩ := given entry he u here
    cases found.symm.trans known
    have settled := freeFields_merged read entry he u here
    exact (reread?_eq_self_iff u).mp (reread?_of_merged settled changed same) x hx

/-- A request is restored from the value that is written for it. From the text of that value it is
restored if and only if every float in it is read back from its own text, as those with short
decimals are; nothing else in it changes. -/
theorem request_round_trip (v : Json) (r : Request) (read : Request.ofJson? v = some r) :
    Request.ofJson? r.toJson = some r ∧
      (Request.ofJson? r.toJson).map Request.toJson = some r.toJson ∧
      ∀ text, Json.read? Request.scope text = some v →
        Request.ofText? r.toJson.compact = r.toJson.reread?.bind Request.ofJson? ∧
          (Request.ofText? r.toJson.compact = some r ↔
            ∀ x ∈ r.toJson.floats, x.reread? = some x) ∧
          ((∀ x ∈ r.toJson.floats, x.IsShort) → Request.ofText? r.toJson.compact = some r) := by
  have again := request_rereads v r read
  refine ⟨again, by rw [again, Option.map_some], fun text found => ?_⟩
  have legible := read?_legible found
  have changed : Request.ofText? r.toJson.compact = r.toJson.reread?.bind Request.ofJson? := by
    rw [Request.ofText?, read?_compact (Request.reads read legible)]
    rfl
  have restored : Request.ofText? r.toJson.compact = some r ↔
      ∀ x ∈ r.toJson.floats, x.reread? = some x := by
    rw [changed]
    constructor
    · intro same
      obtain ⟨w, drifted, back⟩ := Option.bind_eq_some_iff.mp same
      exact Request.floats_reread read drifted back
    · intro each
      rw [(reread?_eq_self_iff _).mpr each]
      exact again
  refine ⟨changed, restored, fun short => restored.mpr fun x hx => ?_⟩
  exact reread?_of_isShort (Request.floats_canonical read legible hx) (short x hx)

/-- The fields of a request in their order, with a repeated key, an empty list, other names of a
direction and of a join, and null for no value. -/
def titleRequestText : String :=
  "[\"film\", \x7b\"b\": 1, \"a\": 2.50, \"b\": null\x7d, null, [10], " ++
    "[\"title\", \x7b\"ASC\": null\x7d], [], null, null, \x7b\"actor\": \"left outer\"\x7d]"

def titleRequestWritten : String :=
  "\x7b\"modelName\":\"film\",\"filters\":\x7b\"b\":null,\"a\":2.5\x7d," ++
    "\"pagination\":\x7b\"limit\":10\x7d,\"sorting\":\x7b\"field\":\"title\",\"direction\":\"ASC\"\x7d," ++
    "\"joinOptions\":\x7b\"actor\":\"LEFT\"\x7d,\"globalSearch\":false\x7d"

theorem title_request_restored :
    ∃ v r, Json.read? Request.scope titleRequestText = some v ∧ Request.ofJson? v = some r ∧
      r.toJson.compact = titleRequestWritten ∧ Request.ofJson? r.toJson = some r ∧
      Request.ofText? titleRequestWritten = some r := by
  have written : (Request.ofText? titleRequestText).any (fun r =>
      decide (r.toJson.compact = titleRequestWritten ∧ ∀ x ∈ r.toJson.floats, x.IsShort)) = true := by
    decide +kernel
  obtain ⟨r, read, checked⟩ := (Option.any_eq_true _ _).mp written
  obtain ⟨text, short⟩ := of_decide_eq_true checked
  obtain ⟨v, found, given⟩ := Request.ofText?_eq_some.mp read
  refine ⟨v, r, found, given, text, (request_round_trip v r given).1, ?_⟩
  rw [← text]
  exact ((request_round_trip v r given).2.2 titleRequestText found).2.2 short

/-- The float `4.9999999999999995e39`: the digit and the power of ten are rounded separately. -/
def driftingText : String :=
  "\x7b\"modelName\":\"film\",\"filters\":\x7b\"length\":5e39\x7d\x7d"

def driftingWritten : String :=
  "\x7b\"modelName\":\"film\",\"filters\":\x7b\"length\":4.9999999999999995e+39\x7d," ++
    "\"pagination\":\x7b\x7d,\"globalSearch\":false\x7d"

theorem drifting_request_changed : ∃ r s, Request.ofText? driftingText = some r ∧
    r.toJson.compact = driftingWritten ∧ Request.ofText? driftingWritten = some s ∧ s ≠ r := by
  have first : (Request.ofText? driftingText).map (·.toJson.compact) = some driftingWritten := by
    decide +kernel
  have second : (Request.ofText? driftingWritten).any
      (fun s => s.toJson.compact != driftingWritten) = true := by
    decide +kernel
  obtain ⟨r, read, written⟩ := Option.map_eq_some_iff.mp first
  obtain ⟨s, again, other⟩ := (Option.any_eq_true _ _).mp second
  refine ⟨r, s, read, written, again, ?_⟩
  rintro rfl
  simp [written] at other

end ReadPlan
