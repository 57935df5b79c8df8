import ReadPlan.Proofs.LegibleValues

namespace ReadPlan

/-- What the float is read as from its own text. -/
def Binary64.reread? (x : Binary64) : Option Binary64 :=
  match Json.read? .whole (Json.float x).compact with
  | some (.float y) => some y
  | _ => none

def Binary64.IsShort : Binary64 → Prop
  | .finite _ m e => (shortest m e).IsShort
  | .nan | .infinite _ => False

instance (x : Binary64) : Decidable x.IsShort :=
  match x with
  | .finite _ m e => inferInstanceAs (Decidable (Binary64.shortest m e).IsShort)
  | .nan | .infinite _ => inferInstanceAs (Decidable False)

namespace Json

mutual

/-- What the value becomes if each of its floats is read from its own text. -/
def reread? : Json → Option Json
  | .float x => x.reread?.map .float
  | .arr items => (rereadItems? items).map .arr
  | .obj ms => (rereadMembers? ms).map .obj
  | .null => some .null
  | .bool b => some (.bool b)
  | .int n => some (.int n)
  | .str s => some (.str s)

def rereadItems? : List Json → Option (List Json)
  | [] => some []
  | v :: rest => v.reread?.bind fun w => (rereadItems? rest).map (w :: ·)

def rereadMembers? : Members → Option Members
  | [] => some []
  | (key, v) :: rest => v.reread?.bind fun w => (rereadMembers? rest).map ((key, w) :: ·)

end

mutual

def floats : Json → List Binary64
  | .float x => [x]
  | .arr items => itemsFloats items
  | .obj ms => membersFloats ms
  | .null | .bool _ | .int _ | .str _ => []

def itemsFloats : List Json → List Binary64
  | [] => []
  | v :: rest => v.floats ++ itemsFloats rest

def membersFloats : Members → List Binary64
  | [] => []
  | (_, v) :: rest => v.floats ++ membersFloats rest

end

theorem membersFloats_eq (ms : Members) : membersFloats ms = ms.flatMap (·.2.floats) := by
  induction ms with
  | nil => rfl
  | cons m rest ih => rw [membersFloats, ih, List.flatMap_cons]

theorem itemsFloats_eq (vs : List Json) : itemsFloats vs = vs.flatMap floats := by
  induction vs with
  | nil => rfl
  | cons v rest ih => rw [itemsFloats, ih, List.flatMap_cons]

theorem Legible.canonical {depth : Nat} {v : Json} (legible : v.Legible depth) :
    ∀ x ∈ v.floats, x.IsCanonical := by
  induction legible with
  | float canonical => exact List.forall_mem_singleton.mpr canonical
  | arr _ ih =>
    rw [floats, itemsFloats_eq, List.forall_mem_flatMap]
    exact ih
  | obj _ ih =>
    rw [floats, membersFloats_eq, List.forall_mem_flatMap]
    exact ih
  | null | bool | int | str => exact List.forall_mem_nil _

theorem rereadItems?_eq_mapM (vs : List Json) : rereadItems? vs = vs.mapM reread? := by
  induction vs with
  | nil => rfl
  | cons v rest ih => rw [rereadItems?, ih, mapM_cons_eq]

theorem rereadMembers?_eq_mapM (ms : Members) :
    rereadMembers? ms = ms.mapM fun m => m.2.reread?.map (m.1, ·) := by
  induction ms with
  | nil => rfl
  | cons m rest ih =>
    rw [rereadMembers?, ih, mapM_cons_eq]
    cases m.2.reread? <;> rfl

theorem rereadMembers?_cons {key : String} {v : Json} {rest ns : Members} :
    rereadMembers? ((key, v) :: rest) = some ns ↔ ∃ w others, v.reread? = some w ∧
      rereadMembers? rest = some others ∧ ns = (key, w) :: others := by
  simp only [rereadMembers?, Option.bind_eq_some_iff, Option.map_eq_some_iff]
  constructor
  · rintro ⟨w, here, others, later, rfl⟩
    exact ⟨w, others, here, later, rfl⟩
  · rintro ⟨w, others, here, later, rfl⟩
    exact ⟨w, here, others, later, rfl⟩

mutual

/-- A value is read back if and only if all its floats are. -/
theorem reread?_eq_self_iff : (v : Json) → (v.reread? = some v ↔ ∀ x ∈ v.floats, x.reread? = some x)
  | .null | .bool _ | .int _ | .str _ => by simp [reread?, floats]
  | .float x => by simp [reread?, floats]
  | .arr items => by simp [reread?, floats, rereadItems?_eq_self_iff items]
  | .obj ms => by simp [reread?, floats, rereadMembers?_eq_self_iff ms]

theorem rereadItems?_eq_self_iff : (vs : List Json) →
    (rereadItems? vs = some vs ↔ ∀ x ∈ itemsFloats vs, x.reread? = some x)
  | [] => by simp [rereadItems?, itemsFloats]
  | v :: rest => by
    rw [itemsFloats, List.forall_mem_append, ← reread?_eq_self_iff v,
      ← rereadItems?_eq_self_iff rest]
    simp [rereadItems?, Option.bind_eq_some_iff]

theorem rereadMembers?_eq_self_iff : (ms : Members) →
    (rereadMembers? ms = some ms ↔ ∀ x ∈ membersFloats ms, x.reread? = some x)
  | [] => by simp [rereadMembers?, membersFloats]
  | (key, v) :: rest => by
    rw [membersFloats, List.forall_mem_append, ← reread?_eq_self_iff v,
      ← rereadMembers?_eq_self_iff rest]
    simp [rereadMembers?, Option.bind_eq_some_iff]

end

theorem get?_reread {key : String} {ms read : Members} (h : rereadMembers? ms = some read) {v : Json}
    (given : Keyed.get? key ms = some v) :
    ∃ w, v.reread? = some w ∧ Keyed.get? key read = some w := by
  induction ms generalizing read with
  | nil => cases given
  | cons m rest ih =>
    obtain ⟨w, others, here, later, rfl⟩ := rereadMembers?_cons.mp h
    by_cases same : m.1 = key
    · simp only [Keyed.get?, List.find?_cons, same, beq_self_eq_true, Option.map_some,
        Option.some.injEq] at given ⊢
      exact ⟨w, given ▸ here, rfl⟩
    · have apart : (m.1 == key) = false := by simpa using same
      simp only [Keyed.get?, List.find?_cons, apart] at given ⊢
      exact ih later given

/-! Merging before and after. -/

theorem rereadMembers?_put {key : String} {v w : Json} (here : v.reread? = some w)
    {done read : Members} (h : rereadMembers? done = some read) :
    rereadMembers? (Keyed.put key v done) = some (Keyed.put key w read) := by
  induction done generalizing read with
  | nil =>
    cases h
    exact rereadMembers?_cons.mpr ⟨w, [], here, rfl, rfl⟩
  | cons m rest ih =>
    obtain ⟨u, others, first, later, rfl⟩ := rereadMembers?_cons.mp h
    by_cases same : m.1 = key
    · simp only [Keyed.put, same, beq_self_eq_true, if_true]
      exact rereadMembers?_cons.mpr ⟨w, others, here, later, rfl⟩
    · simp only [Keyed.put, beq_iff_eq, same, if_false]
      exact rereadMembers?_cons.mpr ⟨u, _, first, ih later, rfl⟩

theorem rereadMembers?_merge {ms read : Members} (h : rereadMembers? ms = some read) :
    rereadMembers? (Keyed.merge ms) = some (Keyed.merge read) := by
  have run (done made : Members) (before : rereadMembers? done = some made) :
      rereadMembers? (ms.foldl (fun done m => Keyed.put m.1 m.2 done) done) =
        some (read.foldl (fun done m => Keyed.put m.1 m.2 done) made) := by
    induction ms generalizing read done made with
    | nil =>
      cases h
      exact before
    | cons m rest ih =>
      obtain ⟨w, others, here, later, rfl⟩ := rereadMembers?_cons.mp h
      exact ih later _ _ (rereadMembers?_put here before)
  exact run [] [] rfl

mutual

/-- It is the same to merge a value before its text is read or after. -/
theorem reread?_merged : (v : Json) → ∀ {w}, v.reread? = some w → v.merged.reread? = some w.merged
  | .null, _, h | .bool _, _, h | .int _, _, h | .str _, _, h => by
    cases h
    rfl
  | .float x, _, h => by
    obtain ⟨y, read, rfl⟩ := Option.map_eq_some_iff.mp h
    exact h
  | .arr items, _, h => by
    obtain ⟨ws, read, rfl⟩ := Option.map_eq_some_iff.mp h
    rw [merged, merged, reread?, rereadItems?_merged items read, Option.map_some]
  | .obj ms, _, h => by
    obtain ⟨ns, read, rfl⟩ := Option.map_eq_some_iff.mp h
    rw [merged, merged, reread?, rereadMembers?_merge (rereadMembers?_merged ms read),
      Option.map_some]

theorem rereadItems?_merged : (vs : List Json) → ∀ {ws}, rereadItems? vs = some ws →
    rereadItems? (mergedItems vs) = some (mergedItems ws)
  | [], _, h => by
    cases h
    rfl
  | v :: rest, _, h => by
    simp only [rereadItems?, Option.bind_eq_some_iff, Option.map_eq_some_iff] at h
    obtain ⟨w, here, others, later, rfl⟩ := h
    rw [mergedItems, mergedItems, rereadItems?, reread?_merged v here, rereadItems?_merged rest later]
    rfl

theorem rereadMembers?_merged : (ms : Members) → ∀ {ns}, rereadMembers? ms = some ns →
    rereadMembers? (mergedMembers ms) = some (mergedMembers ns)
  | [], _, h => by
    cases h
    rfl
  | (key, v) :: rest, _, h => by
    obtain ⟨w, others, here, later, rfl⟩ := rereadMembers?_cons.mp h
    exact rereadMembers?_cons.mpr
      ⟨_, _, reread?_merged v here, rereadMembers?_merged rest later, rfl⟩

end

theorem reread?_of_merged {v w : Json} (settled : v.merged = v) (read : v.reread? = some w)
    (same : w.merged = v) : v.reread? = some v := by
  have merged := reread?_merged v read
  rwa [settled, same] at merged

/-! Texts. -/

theorem read?_compact {scope : Scope} {v : Json} {w? : Option Json}
    (reads : Reads (value nestingLimit scope) v.compact.toList w?) :
    read? scope v.compact = w? := by
  have whole := reads.leaves [] (by simp [Stops])
  have start : (skipBlanks v.compact.toList).val = v.compact.toList := by
    have solid := congrArg Subtype.val (reads.skipBlanks [])
    rwa [List.append_nil] at solid
  rw [List.append_nil, ← start] at whole
  cases w? with
  | none =>
    have refused := Option.map_eq_none_iff.mp whole
    rw [read?, refused]
    rfl
  | some w =>
    obtain ⟨h, found⟩ := leaves_of_outcome whole
    rw [read?, found]
    rfl

theorem NumberText.float?_cases (t : NumberText) :
    t.float? = none ∨ ∃ x, t.float? = some (.float x) := by
  unfold NumberText.float?
  simp only
  split
  · exact .inr ⟨_, rfl⟩
  · exact .inl rfl

theorem float_reads {x : Binary64} (finite : x.isFinite = true) (depth : Nat) (scope : Scope) :
    Reads (value depth scope) (Json.float x).compact.toList (x.reread?.map .float) := by
  cases x with
  | finite negative m e =>
    obtain ⟨t, formed, float, text, -⟩ := float_text negative m e
    have reads (depth : Nat) (scope : Scope) :
        Reads (value depth scope) (Json.float (.finite negative m e)).compact.toList t.float? := by
      have reads := numeral_reads depth scope formed
      rwa [float, text] at reads
    have given : (Binary64.finite negative m e).reread?.map Json.float = t.float? := by
      rw [Binary64.reread?, read?_compact (reads _ _)]
      obtain none | ⟨y, some⟩ := t.float?_cases
      · rw [none]
        rfl
      · rw [some]
        rfl
    rw [given]
    exact reads depth scope
  | nan | infinite => cases finite

/-- A legible value is read from its text as itself, but for the floats. -/
theorem Legible.reads {depth : Nat} {v : Json} (legible : v.Legible depth) :
    Reads (value depth .whole) v.compact.toList v.reread? := by
  induction legible with
  | null => exact null_reads _ _
  | bool b => exact bool_reads _ _ b
  | int range =>
    obtain ⟨t, formed, given, text⟩ := int_text range
    rw [reread?, ← given]
    exact text ▸ numeral_reads _ _ formed
  | float canonical => exact float_reads canonical.isFinite _ _
  | str s => exact str_reads _ _ s
  | arr _ ih =>
    rw [reread?, rereadItems?_eq_mapM]
    exact array_reads ih
  | obj _ ih =>
    rw [reread?, rereadMembers?_eq_mapM]
    exact object_reads fun m hm => ⟨.whole, rfl, ih m hm⟩

theorem reread?_of_isShort {x : Binary64} (canonical : x.IsCanonical) (short : x.IsShort) :
    x.reread? = some x := by
  cases x with
  | finite negative m e =>
    obtain ⟨t, formed, -, text, given⟩ := float_text negative m e
    have reads := numeral_reads nestingLimit .whole formed
    rw [text, given canonical short] at reads
    rw [Binary64.reread?, read?_compact reads]
  | nan | infinite => cases canonical

end Json

end ReadPlan
