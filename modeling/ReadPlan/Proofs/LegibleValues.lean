import ReadPlan.Proofs.JsonText
import ReadPlan.Proofs.MergedMembers

namespace ReadPlan.Json

/-- The value is nested at most `depth` deep, its integers have 64 bits and its floats are
canonical. -/
inductive Legible : Nat → Json → Prop
  | null {depth : Nat} : Legible depth .null
  | bool {depth : Nat} (b : Bool) : Legible depth (.bool b)
  | int {depth : Nat} {n : Int} (range : -0x8000000000000000 ≤ n ∧ n < 0x10000000000000000) :
    Legible depth (.int n)
  | float {depth : Nat} {x : Binary64} (canonical : x.IsCanonical) : Legible depth (.float x)
  | str {depth : Nat} (s : String) : Legible depth (.str s)
  | arr {depth : Nat} {vs : List Json} (each : ∀ v ∈ vs, Legible depth v) :
    Legible (depth + 1) (.arr vs)
  | obj {depth : Nat} {ms : Members} (each : ∀ m ∈ ms, Legible depth m.2) :
    Legible (depth + 1) (.obj ms)

theorem Legible.merged {depth : Nat} {v : Json} (legible : v.Legible depth) :
    v.merged.Legible depth := by
  induction legible with
  | arr _ ih =>
    rw [Json.merged, mergedItems_eq_map]
    exact .arr (List.forall_mem_map.mpr ih)
  | obj _ ih =>
    rw [Json.merged, mergedMembers_eq_map]
    refine .obj fun m hm => ?_
    obtain ⟨given, member, rfl⟩ := List.mem_map.mp (Keyed.merge_subset _ hm)
    exact ih given member
  | null => exact .null
  | bool b => exact .bool b
  | int range => exact .int range
  | float canonical => exact .float canonical
  | str s => exact .str s

theorem NumberText.value?_legible {t : NumberText} {v : Json} (given : t.value? = some v)
    (depth : Nat) : v.Legible depth := by
  have float (given : t.float? = some v) : v.Legible depth := by
    rw [NumberText.float?] at given
    simp only [Option.ite_none_right_eq_some, Option.some.injEq] at given
    obtain ⟨finite, rfl⟩ := given
    exact .float (Binary64.ofDigits_rounded _ _ _ finite)
  unfold NumberText.value? at given
  simp only at given
  split at given
  · exact float given
  split at given
  · split at given
    · exact float given
    · cases given
      exact .int (by omega)
  · split at given
    · cases given
      exact .int (by omega)
    · exact float given

section

variable {α κ : Type} {key : Reader κ} {item : κ → Reader α}

theorem moreItems_each {item : Nat → Reader α} {n : Nat} {s : List Char} {vs : List α} {r : Rest s}
    (read : moreItems item n s = some (vs, r)) : ∀ v ∈ vs, ∃ i t u, item i t = some (v, u) := by
  induction n, s using moreItems.induct generalizing vs with
  | case1 n s _ skip =>
    rw [moreItems, skip] at read
    cases read
  | case2 n s c rest _ skip close =>
    rw [moreItems, skip] at read
    simp only [close, if_true] at read
    cases read
    simp
  | case3 n s c rest _ skip close comma r₁ _ skip' ih =>
    rw [moreItems, skip] at read
    simp only [close, comma, if_true] at read
    rw [skip'] at read
    simp only [Bool.false_eq_true, if_false, Option.bind_eq_bind, Option.bind_eq_some_iff] at read
    obtain ⟨⟨v, t⟩, here, ⟨ws, u⟩, later, result⟩ := read
    cases result
    refine List.forall_mem_cons.mpr ⟨⟨n, r₁, t, here⟩, ?_⟩
    exact ih t.val t.property later
  | case4 n s c rest _ skip close comma =>
    rw [moreItems, skip] at read
    simp only [close, comma] at read
    cases read

theorem items_each {item : Nat → Reader α} {s : List Char} {vs : List α} {r : Rest s}
    (read : items item s = some (vs, r)) : ∀ v ∈ vs, ∃ i t u, item i t = some (v, u) := by
  unfold items at read
  split at read
  · cases read
    simp
  · simp only [Option.bind_eq_bind, Option.bind_eq_some_iff] at read
    obtain ⟨⟨v, t⟩, here, ⟨ws, u⟩, later, result⟩ := read
    cases result
    exact List.forall_mem_cons.mpr ⟨⟨_, _, t, here⟩, moreItems_each later⟩

variable {key : Reader κ} {item : κ → Reader α} {s : List Char}

theorem member_value {m : κ × α} {r : Rest s} (read : member key item s = some (m, r)) :
    ∃ t u, item m.1 t = some (m.2, u) := by
  simp only [member, Option.bind_eq_bind, Option.bind_eq_some_iff] at read
  obtain ⟨⟨k, t⟩, -, read⟩ := read
  split at read
  · simp only [Option.bind_eq_some_iff] at read
    obtain ⟨⟨v, u⟩, here, result⟩ := read
    cases result
    exact ⟨_, u, here⟩
  · cases read

theorem moreMembers_each {ms : List (κ × α)} {r : Rest s}
    (read : moreMembers key item s = some (ms, r)) :
    ∀ m ∈ ms, ∃ t u, item m.1 t = some (m.2, u) := by
  induction s using moreMembers.induct generalizing ms with
  | case1 s _ skip =>
    rw [moreMembers, skip] at read
    cases read
  | case2 s c rest _ skip close =>
    rw [moreMembers, skip] at read
    simp only [close, if_true] at read
    cases read
    simp
  | case3 s c rest _ skip close comma r₁ _ skip' ih =>
    rw [moreMembers, skip] at read
    simp only [close, comma, if_true] at read
    rw [skip'] at read
    simp only [Bool.false_eq_true, if_false, Option.bind_eq_bind, Option.bind_eq_some_iff] at read
    obtain ⟨⟨m, t⟩, here, ⟨others, u⟩, later, result⟩ := read
    cases result
    exact List.forall_mem_cons.mpr ⟨member_value here, ih t.val t.property later⟩
  | case4 s c rest _ skip close comma =>
    rw [moreMembers, skip] at read
    simp only [close, comma] at read
    cases read

theorem members_each {ms : List (κ × α)} {r : Rest s}
    (read : members key item s = some (ms, r)) : ∀ m ∈ ms, ∃ t u, item m.1 t = some (m.2, u) := by
  unfold members at read
  split at read
  · cases read
    simp
  · simp only [Option.bind_eq_bind, Option.bind_eq_some_iff] at read
    obtain ⟨⟨m, t⟩, here, ⟨others, u⟩, later, result⟩ := read
    cases result
    exact List.forall_mem_cons.mpr ⟨member_value here, moreMembers_each later⟩

theorem word_legible {v : Json} {r : Rest s} (read : word s = some (v, r)) (depth : Nat) :
    v.Legible depth := by
  unfold word at read
  split at read <;> cases read
  · exact .null
  · exact .bool true
  · exact .bool false

theorem number_legible {v : Json} {r : Rest s} (read : number s = some (v, r)) (depth : Nat) :
    v.Legible depth := by
  simp only [number, Option.bind_eq_bind, Option.bind_eq_some_iff] at read
  obtain ⟨⟨t, u⟩, -, w, given, result⟩ := read
  cases result
  exact NumberText.value?_legible given depth

end

theorem valueOf_eq_some {value : Scope → Reader Json} {scope : Scope} {key : String}
    {s : List Char} {v : Json} {r : Rest s} (read : valueOf value scope key s = some (some v, r)) :
    ∃ inner, value inner s = some (v, r) := by
  rw [valueOf] at read
  cases known : scope.member? key with
  | none =>
    rw [known] at read
    simp [Reader.map] at read
  | some inner =>
    rw [known] at read
    simp only [Reader.map, Option.map_eq_some_iff] at read
    obtain ⟨⟨w, u⟩, found, result⟩ := read
    cases result
    exact ⟨inner, found⟩

/-- The reader of values makes a string, an array or an object of values that are nested less
deep, a word or a number. -/
theorem value_cases {depth : Nat} {scope : Scope} {s : List Char} {v : Json} {r : Rest s}
    (read : value depth scope s = some (v, r)) :
    (∃ text, v = .str text) ∨
    (∃ inner vs, depth = inner + 1 ∧ v = .arr vs ∧
      ∀ w ∈ vs, ∃ scope t u, value inner scope t = some (w, u)) ∨
    (∃ inner ms, depth = inner + 1 ∧ v = .obj ms ∧
      ∀ m ∈ ms, ∃ scope t u, value inner scope t = some (m.2, u)) ∨
    word s = some (v, r) ∨ number s = some (v, r) := by
  unfold value at read
  split at read
  · simp only [Reader.map, Option.map_eq_some_iff] at read
    obtain ⟨⟨text, t⟩, -, result⟩ := read
    cases result
    exact .inl ⟨text, rfl⟩
  · cases depth with
    | zero => cases read
    | succ inner =>
      simp only [Option.bind_eq_bind, Option.bind_eq_some_iff] at read
      obtain ⟨⟨vs, t⟩, listed, result⟩ := read
      cases result
      refine .inr (.inl ⟨inner, vs, rfl, rfl, fun w hw => ?_⟩)
      obtain ⟨i, t, u, here⟩ := items_each listed w hw
      exact ⟨_, t, u, here⟩
  · cases depth with
    | zero => cases read
    | succ inner =>
      simp only [Option.bind_eq_bind, Option.bind_eq_some_iff] at read
      obtain ⟨⟨ms, t⟩, listed, result⟩ := read
      cases result
      refine .inr (.inr (.inl ⟨inner, _, rfl, rfl, fun m hm => ?_⟩))
      obtain ⟨⟨key, w⟩, member, known⟩ := List.mem_filterMap.mp hm
      obtain ⟨w, rfl, rfl⟩ := Option.map_eq_some_iff.mp known
      obtain ⟨t, u, here⟩ := members_each listed _ member
      obtain ⟨inner, found⟩ := valueOf_eq_some here
      exact ⟨inner, t, u, found⟩
  · cases found : word s with
    | some p => exact .inr (.inr (.inr (.inl (by simpa [found] using read))))
    | none => exact .inr (.inr (.inr (.inr (by simpa [found] using read))))

theorem value_legible {depth : Nat} {scope : Scope} {s : List Char} {v : Json} {r : Rest s}
    (read : value depth scope s = some (v, r)) : v.Legible depth := by
  induction depth using Nat.strongRecOn generalizing scope s v with
  | ind depth ih =>
    rcases value_cases read with ⟨text, rfl⟩ | ⟨inner, vs, rfl, rfl, each⟩ |
      ⟨inner, ms, rfl, rfl, each⟩ | found | found
    · exact .str text
    · refine .arr fun w hw => ?_
      obtain ⟨scope, t, u, here⟩ := each w hw
      exact ih inner (Nat.lt_succ_self inner) here
    · refine .obj fun m hm => ?_
      obtain ⟨scope, t, u, here⟩ := each m hm
      exact ih inner (Nat.lt_succ_self inner) here
    · exact word_legible found depth
    · exact number_legible found depth

/-! Whole texts. -/

theorem read?_legible {scope : Scope} {text : String} {v : Json}
    (read : read? scope text = some v) : v.Legible nestingLimit := by
  simp only [read?, Option.bind_eq_bind, Option.bind_eq_some_iff] at read
  obtain ⟨⟨w, t⟩, found, read⟩ := read
  split at read <;> cases read
  exact value_legible found

end ReadPlan.Json
