import ReadPlan.Proofs.MergedMembers
import ReadPlan.Request.Document

namespace ReadPlan

namespace Json

section

variable {α : Type}

/-- What was read of some value is read again of what is written for it. -/
def Rereads (value? : Json → Option α) (toJson : α → Json) : Prop :=
  ∀ v x, value? v = some x → value? (toJson x) = some x

/-- The same of a field of a record, which is left out where nothing is written. -/
def FieldRereads (field? : Option Json → Option α) (toJson? : α → Option Json) : Prop :=
  ∀ v x, field? v = some x → field? (toJson? x) = some x

theorem string_rereads : Rereads string? .str := by
  intro v x _
  rfl

theorem bool_rereads : Rereads bool? .bool := by
  intro v x _
  rfl

theorem count_rereads : Rereads count? fun n : Nat => .int n := by
  intro v x read
  cases v with
  | int n =>
    simp only [count?, Option.ite_none_right_eq_some, Option.some.injEq] at read
    obtain ⟨range, rfl⟩ := read
    have same : ((n.toNat : Nat) : Int) = n := Int.toNat_of_nonneg range.1
    rw [count?, same, if_pos range]
  | _ => cases read

theorem list_rereads {item? : Json → Option α} {toJson : α → Json}
    (item : Rereads item? toJson) : Rereads (list? item?) fun xs => .arr (xs.map toJson) := by
  intro v xs read
  cases v with
  | arr items =>
    rw [list?] at read ⊢
    induction items generalizing xs with
    | nil =>
      cases read
      rfl
    | cons first rest ih =>
      simp only [List.mapM_cons, Option.bind_eq_bind, Option.bind_eq_some_iff, Option.pure_def,
        Option.some.injEq] at read
      obtain ⟨x, here, others, later, rfl⟩ := read
      have first' := item first x here
      have rest' := ih others later
      rw [List.map_cons, List.mapM_cons, first', rest']
      rfl
  | _ => cases read

theorem choice_rereads {named? : String → Option α} {name : α → String}
    (named : ∀ a, named? (name a) = some a) :
    Rereads (choice? named?) fun a => .str (name a) := by
  intro v x _
  exact named x

theorem freeForm_rereads : Rereads freeForm? id := by
  intro v x read
  cases read
  exact congrArg some (merged_merged v)

theorem freeMembers_rereads : Rereads freeMembers? .obj := by
  intro v ms read
  cases v with
  | obj given =>
    cases read
    have settled := merged_merged (.obj given)
    rw [merged, merged, obj.injEq] at settled
    exact congrArg some settled
  | _ => cases read

/-! Fields. -/

theorem required_rereads {value? : Json → Option α} {toJson : α → Json}
    (value : Rereads value? toJson) : FieldRereads (required? value?) fun x => some (toJson x) := by
  intro v x read
  cases v with
  | none => cases read
  | some v => exact value v _ read

theorem defaulted_rereads {value? : Json → Option α} {toJson : α → Json} {default : α}
    (value : Rereads value? toJson) (usual : value? (toJson default) = some default) :
    FieldRereads (defaulted? default value?) fun x => some (toJson x) := by
  intro v x read
  cases v with
  | none =>
    cases read
    exact usual
  | some v => exact value v _ read

theorem omitted_rereads {value? : Json → Option (List α)} {toJson : List α → Json}
    (value : Rereads value? toJson) :
    FieldRereads (defaulted? [] value?) fun xs =>
      if xs.isEmpty then none else some (toJson xs) := by
  intro v xs read
  cases xs with
  | nil => rfl
  | cons x rest =>
    cases v with
    | none => cases read
    | some v => exact value v _ read

theorem optional_rereads {value? : Json → Option α} {toJson : α → Json}
    (value : Rereads value? toJson)
    (proper : ∀ v x, value? v = some x → v ≠ .null → toJson x ≠ .null) :
    FieldRereads (optional? value?) (Option.map toJson) := by
  have nullable {v : Json} (given : v ≠ .null) : nullable? value? v = some <$> value? v := by
    cases v <;> first | rfl | contradiction
  intro v x read
  cases x with
  | none => rfl
  | some x =>
    cases v with
    | none => cases read
    | some v =>
      have given : v ≠ .null := by
        rintro rfl
        cases read
      have here : value? v = some x := by
        rw [optional?, defaulted?, nullable given] at read
        simpa using read
      have written := value v x here
      rw [Option.map_some, optional?, defaulted?, nullable (proper v x here given), written]
      rfl

theorem merged_ne_null {v : Json} (h : v ≠ .null) : v.merged ≠ .null := by
  cases v <;> simp_all [merged]

/-! Records. -/

/-- The members of a record, where a field without a value is left out. -/
def recordMembers (fields : List (String × Option Json)) : Members :=
  fields.filterMap fun field => field.2.map (field.1, ·)

theorem recordMembers_keys_sublist (fields : List (String × Option Json)) :
    ((recordMembers fields).map (·.1)).Sublist (fields.map (·.1)) := by
  induction fields with
  | nil => exact List.Sublist.slnil
  | cons field rest ih =>
    obtain ⟨name, v⟩ := field
    cases v with
    | none => exact ih.cons name
    | some v => exact ih.cons_cons name

theorem occurrences_le_one {ms : Members} (distinct : (ms.map (·.1)).Nodup) (key : String) :
    ms.occurrences key ≤ 1 := by
  have once := List.nodup_iff_count_le_one.mp distinct key
  rwa [List.count, List.countP_map, List.countP_eq_length_filter] at once

theorem get?_recordMembers {fields : List (String × Option Json)}
    (distinct : (fields.map (·.1)).Nodup) {name : String} {v : Option Json}
    (member : (name, v) ∈ fields) : Keyed.get? name (recordMembers fields) = v := by
  induction fields with
  | nil => cases member
  | cons field rest ih =>
    obtain ⟨first, others⟩ := List.nodup_cons.mp distinct
    rcases List.mem_cons.mp member with rfl | later
    · cases v with
      | none =>
        have absent : name ∉ (recordMembers rest).map (·.1) := fun known =>
          first ((recordMembers_keys_sublist rest).subset known)
        exact Keyed.get?_eq_none.mpr absent
      | some v => simp [recordMembers, Keyed.get?]
    · have apart : field.1 ≠ name := by
        rintro rfl
        exact first (List.mem_map_of_mem (f := (·.1)) later)
      have found := ih others later
      obtain ⟨key, value⟩ := field
      cases value with
      | none => exact found
      | some value => simpa [recordMembers, Keyed.get?, apart] using found

theorem record?_recordMembers (fields : List (String × Option Json))
    (distinct : (fields.map (·.1)).Nodup) :
    ∃ field, record? (fields.map (·.1)) (.obj (recordMembers fields)) = some field ∧
      ∀ entry ∈ fields, field entry.1 = entry.2 := by
  have keys := distinct.sublist (recordMembers_keys_sublist fields)
  have single : (fields.map (·.1)).any
      (fun name => decide (1 < Members.occurrences (recordMembers fields) name)) = false := by
    rw [List.any_eq_false]
    intro name _
    have once := occurrences_le_one keys name
    simpa using once
  refine ⟨fun name => Keyed.get? name (recordMembers fields), ?_, fun entry he => ?_⟩
  swap
  · exact get?_recordMembers distinct he
  simp [record?, object?, single]

end

theorem recordMembers_cons (name : String) (v : Option Json) (rest : List (String × Option Json)) :
    recordMembers ((name, v) :: rest) = (v.map (name, ·)).toList ++ recordMembers rest := by
  cases v <;> rfl

theorem optionalMember_eq {α : Type} (key : String) (toJson : α → Json) (x : Option α) :
    optionalMember key toJson x = ((x.map toJson).map (key, ·)).toList := by
  cases x <;> rfl

end Json

open Json

/-! The records of a request. -/

def Page.fields (p : Page) : List (String × Option Json) :=
  [("limit", p.limit.map fun n : Nat => .int n), ("offset", p.offset.map fun n : Nat => .int n)]

theorem Page.toJson_eq (p : Page) : p.toJson = .obj (recordMembers p.fields) := by
  simp only [toJson, fields, recordMembers_cons, optionalMember_eq]
  simp [recordMembers]

theorem Page.ofJson?_eq_some {v : Json} {p : Page} :
    Page.ofJson? v = some p ↔ ∃ field, v.record? Page.fieldNames = some field ∧
      optional? count? (field "limit") = some p.limit ∧
      optional? count? (field "offset") = some p.offset := by
  obtain ⟨limit, offset⟩ := p
  simp only [Page.ofJson?, Option.bind_eq_bind, Option.bind_eq_some_iff, Option.pure_def,
    Option.some.injEq, Page.mk.injEq]
  constructor
  · rintro ⟨field, opened, _, limited, _, skipped, rfl, rfl⟩
    exact ⟨field, opened, limited, skipped⟩
  · rintro ⟨field, opened, limited, skipped⟩
    exact ⟨field, opened, _, limited, _, skipped, rfl, rfl⟩

theorem page_rereads : Rereads Page.ofJson? Page.toJson := by
  intro v p read
  obtain ⟨_, -, limit, offset⟩ := Page.ofJson?_eq_some.mp read
  obtain ⟨field, opened, found⟩ :=
    record?_recordMembers p.fields (show Page.fieldNames.Nodup by decide)
  have count : FieldRereads (optional? count?) (Option.map fun n : Nat => .int n) :=
    optional_rereads count_rereads (by simp)
  simp only [Page.fields, List.forall_mem_cons] at found
  rw [Page.toJson_eq]
  refine Page.ofJson?_eq_some.mpr ⟨field, opened, ?_, ?_⟩
  · rw [found.1]
    exact count _ _ limit
  · rw [found.2.1]
    exact count _ _ offset

def Sorting.fields (s : Sorting) : List (String × Option Json) :=
  [("field", some (.str s.field)), ("direction", some (.str s.direction.name))]

theorem Direction.named?_name (d : Direction) : Direction.named? d.name = some d := by
  cases d <;> rfl

theorem Sorting.ofJson?_eq_some {v : Json} {s : Sorting} :
    Sorting.ofJson? v = some s ↔ ∃ field, v.record? Sorting.fieldNames = some field ∧
      required? string? (field "field") = some s.field ∧
      defaulted? .asc (choice? Direction.named?) (field "direction") = some s.direction := by
  obtain ⟨name, direction⟩ := s
  simp only [Sorting.ofJson?, Option.bind_eq_bind, Option.bind_eq_some_iff, Option.pure_def,
    Option.some.injEq, Sorting.mk.injEq]
  constructor
  · rintro ⟨field, opened, _, named, _, directed, rfl, rfl⟩
    exact ⟨field, opened, named, directed⟩
  · rintro ⟨field, opened, named, directed⟩
    exact ⟨field, opened, _, named, _, directed, rfl, rfl⟩

theorem sorting_rereads : Rereads Sorting.ofJson? Sorting.toJson := by
  intro v s read
  obtain ⟨_, -, name, direction⟩ := Sorting.ofJson?_eq_some.mp read
  obtain ⟨field, opened, found⟩ :=
    record?_recordMembers s.fields (show Sorting.fieldNames.Nodup by decide)
  have directions : Rereads (choice? Direction.named?) fun d => .str d.name :=
    choice_rereads Direction.named?_name
  simp only [Sorting.fields, List.forall_mem_cons] at found
  refine Sorting.ofJson?_eq_some.mpr ⟨field, opened, ?_, ?_⟩
  · rw [found.1]
    exact required_rereads string_rereads _ _ name
  · rw [found.2.1]
    exact defaulted_rereads directions rfl _ _ direction

theorem JoinStrength.named?_name (s : JoinStrength) : JoinStrength.named? s.name = some s := by
  cases s <;> rfl

theorem joinOptions_rereads : Rereads JoinOptions.ofJson? JoinOptions.toJson := by
  intro v options read
  cases v with
  | obj ms =>
    rw [JoinOptions.ofJson?] at read
    obtain ⟨pairs, -, rfl⟩ := Option.map_eq_some_iff.mp read
    have each (options : JoinOptions) :
        (options.map fun option => (option.1, Json.str option.2.name)).mapM
          (fun m => do return (m.1, ← choice? JoinStrength.named? m.2)) = some options := by
      induction options with
      | nil => rfl
      | cons first rest ih =>
        have named := JoinStrength.named?_name first.2
        rw [List.map_cons, List.mapM_cons, ih]
        simp [choice?, named]
    have again := congrArg (Option.map Keyed.sorted) (each (Keyed.sorted pairs))
    rw [Option.map_some, Keyed.sorted_of_ascending (Keyed.sorted_ascending pairs)] at again
    exact again
  | _ => cases read

namespace Request

def fields (r : Request) : List (String × Option Json) :=
  [("modelName", some (.str r.modelName)), ("filters", some r.filters),
    ("select", r.select.map ofStrings), ("pagination", some r.page.toJson),
    ("sorting", r.sorting.map Sorting.toJson),
    ("groupBy", if r.groupBy.isEmpty then none else some (ofStrings r.groupBy)),
    ("aggregates", r.aggregates.map .obj), ("having", r.having.map id),
    ("joinOptions", if r.joinOptions.isEmpty then none else some r.joinOptions.toJson),
    ("globalSearch", some (.bool r.globalSearch))]

theorem toJson_eq (r : Request) : r.toJson = .obj (recordMembers r.fields) := by
  have omitted (key : String) (empty : Bool) (v : Json) :
      (if empty = true then [] else [(key, v)]) =
        (((if empty = true then none else some v) : Option Json).map (key, ·)).toList := by
    cases empty <;> rfl
  simp only [toJson, fields, recordMembers_cons, optionalMember_eq, omitted]
  simp [recordMembers]

theorem ofJson?_eq_some {v : Json} {r : Request} :
    ofJson? v = some r ↔ ∃ field, v.record? fieldNames = some field ∧
      required? string? (field "modelName") = some r.modelName ∧
      required? freeForm? (field "filters") = some r.filters ∧
      optional? (list? string?) (field "select") = some r.select ∧
      defaulted? .whole Page.ofJson? (field "pagination") = some r.page ∧
      optional? Sorting.ofJson? (field "sorting") = some r.sorting ∧
      defaulted? [] (list? string?) (field "groupBy") = some r.groupBy ∧
      optional? freeMembers? (field "aggregates") = some r.aggregates ∧
      optional? freeForm? (field "having") = some r.having ∧
      defaulted? [] JoinOptions.ofJson? (field "joinOptions") = some r.joinOptions ∧
      defaulted? false bool? (field "globalSearch") = some r.globalSearch := by
  obtain ⟨modelName, filters, select, page, sorting, groupBy, aggregates, having, joinOptions,
    globalSearch⟩ := r
  simp only [ofJson?, Option.bind_eq_bind, Option.bind_eq_some_iff, Option.pure_def,
    Option.some.injEq, Request.mk.injEq]
  constructor
  · rintro ⟨field, opened, _, h₁, _, h₂, _, h₃, _, h₄, _, h₅, _, h₆, _, h₇, _, h₈, _, h₉, _, h₁₀,
      rfl, rfl, rfl, rfl, rfl, rfl, rfl, rfl, rfl, rfl⟩
    exact ⟨field, opened, h₁, h₂, h₃, h₄, h₅, h₆, h₇, h₈, h₉, h₁₀⟩
  · rintro ⟨field, opened, h₁, h₂, h₃, h₄, h₅, h₆, h₇, h₈, h₉, h₁₀⟩
    exact ⟨field, opened, _, h₁, _, h₂, _, h₃, _, h₄, _, h₅, _, h₆, _, h₇, _, h₈, _, h₉, _, h₁₀,
      rfl, rfl, rfl, rfl, rfl, rfl, rfl, rfl, rfl, rfl⟩

end Request

theorem request_rereads : Rereads Request.ofJson? Request.toJson := by
  intro v r read
  obtain ⟨_, -, modelName, filters, select, page, sorting, groupBy, aggregates, having,
    joinOptions, globalSearch⟩ := Request.ofJson?_eq_some.mp read
  obtain ⟨field, opened, found⟩ :=
    record?_recordMembers r.fields (show Request.fieldNames.Nodup by decide)
  have strings : Rereads (list? string?) ofStrings := list_rereads string_rereads
  simp only [Request.fields, List.forall_mem_cons] at found
  obtain ⟨f₁, f₂, f₃, f₄, f₅, f₆, f₇, f₈, f₉, f₁₀, -⟩ := found
  rw [Request.toJson_eq]
  refine Request.ofJson?_eq_some.mpr ⟨field, opened, ?_, ?_, ?_, ?_, ?_, ?_, ?_, ?_, ?_, ?_⟩
  · rw [f₁]
    exact required_rereads string_rereads _ _ modelName
  · rw [f₂]
    exact required_rereads freeForm_rereads _ _ filters
  · rw [f₃]
    exact optional_rereads strings (by simp [ofStrings]) _ _ select
  · rw [f₄]
    exact defaulted_rereads page_rereads rfl _ _ page
  · rw [f₅]
    exact optional_rereads sorting_rereads (by simp [Sorting.toJson]) _ _ sorting
  · rw [f₆]
    exact omitted_rereads strings _ _ groupBy
  · rw [f₇]
    exact optional_rereads freeMembers_rereads (by simp) _ _ aggregates
  · rw [f₈]
    refine optional_rereads freeForm_rereads ?_ _ _ having
    rintro v _ ⟨⟩ given
    exact merged_ne_null given
  · rw [f₉]
    exact omitted_rereads joinOptions_rereads _ _ joinOptions
  · rw [f₁₀]
    exact defaulted_rereads bool_rereads rfl _ _ globalSearch

end ReadPlan
