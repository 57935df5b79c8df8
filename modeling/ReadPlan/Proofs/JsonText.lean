import ReadPlan.Json.Printer
import ReadPlan.Proofs.NumberReading

namespace ReadPlan.Json

/-! Strings. -/

theorem hexValue?_hexDigit (n : Nat) : Text.hexValue? (hexDigit n) = some (n % 16) := by
  have each : ∀ d < 16, Text.hexValue? (hexDigit d) = some d := by decide
  have same : hexDigit n = hexDigit (n % 16) := by simp [hexDigit]
  rw [same]
  exact each (n % 16) (Nat.mod_lt n (by decide))

theorem hexNumber?_control {n : Nat} (control : n < 32) :
    Text.hexNumber? ['0', '0', hexDigit (n / 16), hexDigit n] = some n := by
  have zero : Text.hexValue? '0' = some 0 := rfl
  have high := hexValue?_hexDigit (n / 16)
  have low := hexValue?_hexDigit n
  simp only [Text.hexNumber?, List.foldlM_cons, List.foldlM_nil, zero, high, low, Option.map_eq_map,
    Option.map_some, Option.bind_eq_bind, Option.bind_some, Option.pure_def, Option.some.injEq]
  omega

theorem escape_cases (c : Char) :
    (∃ d, escape c = ['\\', d] ∧ d ≠ 'u' ∧ shortEscape? d = some c) ∨
    (escape c = ['\\', 'u', '0', '0', hexDigit (c.toNat / 16), hexDigit c.toNat] ∧
      c.toNat < 32) ∨
    (escape c = [c] ∧ c ≠ '"' ∧ c ≠ '\\' ∧ ¬c.toNat < 32) := by
  unfold escape
  split
  case h_8 quote slash _ _ _ _ _ =>
    split
    · rename_i control
      exact .inr (.inl ⟨rfl, control⟩)
    · rename_i plain
      exact .inr (.inr ⟨rfl, quote, slash, plain⟩)
  all_goals exact .inl ⟨_, rfl, by decide, rfl⟩

section

variable {s cs rest : List Char}

theorem stringBody_short {c d : Char} (other : d ≠ 'u') (short : shortEscape? d = some c)
    (read : Leaves (stringBody s) cs rest) :
    Leaves (stringBody ('\\' :: d :: s)) (c :: cs) rest := by
  obtain ⟨h, read⟩ := read
  refine ⟨Nat.lt_succ_of_lt (Nat.lt_succ_of_lt h), ?_⟩
  rw [stringBody]
  · simp only [short, read, Option.bind_eq_bind, Option.bind_some]
    rfl
  · exact fun _ _ _ _ _ unit _ => other unit

theorem stringBody_unit {a b c d x : Char} {u : Nat} (unit : Text.hexNumber? [a, b, c, d] = some u)
    (scalar : Text.scalarChar? u = some x) (read : Leaves (stringBody s) cs rest) :
    Leaves (stringBody ('\\' :: 'u' :: a :: b :: c :: d :: s)) (x :: cs) rest := by
  obtain ⟨h, read⟩ := read
  refine ⟨?_, ?_⟩
  swap
  · rw [stringBody]
    simp only [unit, scalar, read]
    rfl

theorem stringBody_plain {c : Char} (quote : c ≠ '"') (slash : c ≠ '\\') (plain : ¬c.toNat < 32)
    (read : Leaves (stringBody s) cs rest) : Leaves (stringBody (c :: s)) (c :: cs) rest := by
  obtain ⟨h, read⟩ := read
  refine ⟨Nat.lt_succ_of_lt h, ?_⟩
  rw [stringBody]
  · rw [if_neg (by simp [plain, slash]), read]
    rfl
  · exact quote
  · exact fun _ _ _ _ _ same _ => slash same
  · exact fun _ _ same _ => slash same

theorem stringBody_escape (c : Char) (read : Leaves (stringBody s) cs rest) :
    Leaves (stringBody (escape c ++ s)) (c :: cs) rest := by
  rcases escape_cases c with ⟨d, written, other, short⟩ | ⟨written, control⟩ |
    ⟨written, quote, slash, plain⟩
  · rw [written]
    exact stringBody_short other short read
  · have scalar : Text.scalarChar? c.toNat = some c := by
      rw [Text.scalarChar?, if_pos (.inl (by omega)), Char.ofNat_toNat]
    rw [written]
    exact stringBody_unit (hexNumber?_control control) scalar read
  · rw [written]
    exact stringBody_plain quote slash plain read

end

theorem stringBody_escaped (cs rest : List Char) :
    Leaves (stringBody (cs.flatMap escape ++ '"' :: rest)) cs rest := by
  induction cs with
  | nil => exact ⟨Nat.lt_succ_self _, rfl⟩
  | cons c cs ih =>
    rw [List.flatMap_cons, List.append_assoc]
    exact stringBody_escape c ih

/-! Lists of items and of members. -/

/-- What the reader makes of the text, if it does not refuse it, whatever follows; and it takes no
blank or closing bracket for the beginning. -/
structure Reads {α : Type} (reader : Reader α) (text : List Char) (x? : Option α) : Prop where
  starts : ∃ c cs, text = c :: cs ∧ isBlank c = false ∧ c ≠ ']' ∧ c ≠ '}'
  leaves : ∀ rest, Stops rest → outcome (reader (text ++ rest)) = x?.map (·, rest)

theorem string_reads (s : String) : Reads string (stringText s).toList (some s) := by
  refine ⟨⟨'"', s.toList.flatMap escape ++ ['"'], ?_, by decide, by decide, by decide⟩, ?_⟩
  · rw [stringText, String.toList_ofList]
    rfl
  · intro rest _
    obtain ⟨h, read⟩ := stringBody_escaped s.toList rest
    have text : (stringText s).toList ++ rest =
        '"' :: (s.toList.flatMap escape ++ '"' :: rest) := by simp [stringText]
    rw [text]
    simp only [string, read, Option.bind_eq_bind, Option.bind_some, String.ofList_toList]
    rfl

theorem skipBlanks_solid {c : Char} (solid : isBlank c = false) (s : List Char) :
    skipBlanks (c :: s) = ⟨c :: s, le_refl _⟩ := by
  simp [skipBlanks, Text.skipWhile, solid]

section

variable {α β κ : Type}

theorem Reads.skipBlanks {reader : Reader α} {text : List Char} {x? : Option α}
    (reads : Reads reader text x?) (rest : List Char) :
    Json.skipBlanks (text ++ rest) = ⟨text ++ rest, le_refl _⟩ := by
  obtain ⟨c, cs, rfl, solid, -⟩ := reads.starts
  exact skipBlanks_solid solid (cs ++ rest)

theorem outcome_map (f : α → β) (reader : Reader α) (s : List Char) :
    outcome (reader.map f s) = (outcome (reader s)).map fun (x, r) => (f x, r) := by
  rw [Reader.map]
  cases reader s <;> rfl

theorem Reads.map {reader : Reader α} {text : List Char} {x? : Option α}
    (reads : Reads reader text x?) (f : α → β) : Reads (reader.map f) text (x?.map f) := by
  refine ⟨reads.starts, fun rest stops => ?_⟩
  rw [outcome_map, reads.leaves rest stops, Option.map_map, Option.map_map]
  rfl

def listed (text : α → List Char) (xs : List α) : List Char :=
  xs.flatMap fun x => ',' :: text x

theorem stops_listed (text : α → List Char) (xs : List α) {c : Char} (close : Stops [c])
    (rest : List Char) : Stops (listed text xs ++ c :: rest) := by
  cases xs with
  | nil => exact close
  | cons x xs => exact stops_cons _ (by decide)

theorem stops_bracket : Stops [']'] :=
  stops_cons [] (by decide)

theorem stops_brace : Stops ['}'] :=
  stops_cons [] (by decide)

def joined (text : α → List Char) : List α → List Char
  | [] => []
  | x :: xs => text x ++ listed text xs

def thenMore (first : Option (α × List Char)) (more : List Char → Option (List α × List Char)) :
    Option (List α × List Char) :=
  first.bind fun (x, r) => (more r).map fun (xs, t) => (x :: xs, t)

section

variable {item : Nat → Reader α} {n : Nat} {s : List Char}

theorem outcome_moreItems (solid : skipBlanks s = ⟨s, le_refl _⟩) :
    outcome (moreItems item n (',' :: s)) =
      thenMore (outcome (item n s)) fun r => outcome (moreItems item (n + 1) r) := by
  rw [moreItems, skipBlanks_solid (by decide)]
  dsimp only
  rw [solid, if_neg (by decide), if_pos (by decide)]
  dsimp only
  cases item n s with
  | none => rfl
  | some p =>
    obtain ⟨x, r, h⟩ := p
    cases later : moreItems item (n + 1) r <;> simp [later, thenMore, outcome]

theorem outcome_items {c : Char} (solid : skipBlanks (c :: s) = ⟨c :: s, le_refl _⟩)
    (proper : c ≠ ']') :
    outcome (items item (c :: s)) =
      thenMore (outcome (item 0 (c :: s))) fun r => outcome (moreItems item 1 r) := by
  rw [items, solid]
  split
  · rename_i r h same
    rw [Subtype.mk.injEq] at same
    exact absurd (List.cons.inj same).1 proper
  · cases item 0 (c :: s) with
    | none => rfl
    | some p =>
      obtain ⟨x, r, h⟩ := p
      cases later : moreItems item 1 r <;> simp [later, thenMore, outcome]

end

theorem thenMore_map (x? : Option α) (rest after : List Char) (xs? : Option (List α))
    {more : List Char → Option (List α × List Char)} (later : more after = xs?.map (·, rest)) :
    thenMore (x?.map (·, after)) more =
      (x?.bind fun x => xs?.map (x :: ·)).map (·, rest) := by
  cases x? with
  | none => rfl
  | some x =>
    simp only [thenMore, Option.map_some, Option.bind_some, later]
    cases xs? <;> rfl

section

variable {reader : Reader β} {text : α → List Char} {f : α → Option β}

theorem mapM_cons_eq (x : α) (xs : List α) :
    (x :: xs).mapM f = (f x).bind fun y => (xs.mapM f).map (y :: ·) := by
  rw [List.mapM_cons]
  cases f x with
  | none => rfl
  | some y => cases xs.mapM f <;> rfl

theorem mapM_map_eq {γ : Type} (g : β → γ) (xs : List α) :
    (xs.mapM fun x => (f x).map g) = (xs.mapM f).map (·.map g) := by
  induction xs with
  | nil => rfl
  | cons x xs ih =>
    rw [mapM_cons_eq, mapM_cons_eq, ih]
    cases f x <;> cases xs.mapM f <;> rfl

theorem moreItems_reads (xs : List α) (n : Nat) (rest : List Char)
    (each : ∀ x ∈ xs, Reads reader (text x) (f x)) :
    outcome (moreItems (fun _ => reader) n (listed text xs ++ ']' :: rest)) =
      (xs.mapM f).map (·, rest) := by
  induction xs generalizing n with
  | nil =>
    change outcome (moreItems (fun _ => reader) n (']' :: rest)) = _
    rw [moreItems, skipBlanks_solid (by decide)]
    rfl
  | cons x xs ih =>
    obtain ⟨first, others⟩ := List.forall_mem_cons.mp each
    have read := first.leaves _ (stops_listed text xs stops_bracket rest)
    have text : listed text (x :: xs) ++ ']' :: rest =
        ',' :: (text x ++ (listed text xs ++ ']' :: rest)) := by simp [listed]
    rw [text, outcome_moreItems (first.skipBlanks _), read, thenMore_map _ rest _ _ (ih _ others),
      mapM_cons_eq]

theorem items_reads (xs : List α) (rest : List Char)
    (each : ∀ x ∈ xs, Reads reader (text x) (f x)) :
    outcome (items (fun _ => reader) (joined text xs ++ ']' :: rest)) =
      (xs.mapM f).map (·, rest) := by
  cases xs with
  | nil =>
    change outcome (items (fun _ => reader) (']' :: rest)) = _
    rw [items, skipBlanks_solid (by decide)]
    rfl
  | cons x xs =>
    obtain ⟨first, others⟩ := List.forall_mem_cons.mp each
    have read := first.leaves _ (stops_listed text xs stops_bracket rest)
    have solid := first.skipBlanks (listed text xs ++ ']' :: rest)
    obtain ⟨c, cs, starts, -, proper, -⟩ := first.starts
    rw [joined, List.append_assoc]
    rw [starts, List.cons_append] at read solid ⊢
    rw [outcome_items solid proper, read, thenMore_map _ rest _ _ (moreItems_reads xs 1 rest others),
      mapM_cons_eq]

end

section

variable {key : Reader κ} {item : κ → Reader α}

theorem member_reads {k : κ} {x? : Option α} {keyText text : List Char}
    (named : Reads key keyText (some k)) (value : Reads (item k) text x?) :
    Reads (member key item) (keyText ++ ':' :: text) (x?.map (k, ·)) := by
  obtain ⟨c, cs, text', starts⟩ := named.starts
  refine ⟨⟨c, cs ++ ':' :: text, by rw [text', List.cons_append], starts⟩, fun rest stops => ?_⟩
  obtain ⟨h, here⟩ := leaves_of_outcome
    (named.leaves (':' :: (text ++ rest)) (stops_cons _ (by decide)))
  have read := value.leaves rest stops
  rw [List.append_assoc, List.cons_append, member, here]
  simp only [Option.bind_eq_bind, Option.bind_some]
  rw [skipBlanks_solid (by decide)]
  simp only
  rw [value.skipBlanks]
  dsimp only
  revert read
  cases item k (text ++ rest) <;> cases x? <;> simp +contextual [outcome]

theorem outcome_moreMembers {s : List Char} (solid : skipBlanks s = ⟨s, le_refl _⟩) :
    outcome (moreMembers key item (',' :: s)) =
      thenMore (outcome (member key item s)) fun r => outcome (moreMembers key item r) := by
  rw [moreMembers, skipBlanks_solid (by decide)]
  dsimp only
  rw [solid, if_neg (by decide), if_pos (by decide)]
  dsimp only
  cases member key item s with
  | none => rfl
  | some p =>
    obtain ⟨x, r, h⟩ := p
    cases later : moreMembers key item r <;> simp [later, thenMore, outcome]

theorem outcome_members {c : Char} {s : List Char}
    (solid : skipBlanks (c :: s) = ⟨c :: s, le_refl _⟩) (proper : c ≠ '}') :
    outcome (members key item (c :: s)) =
      thenMore (outcome (member key item (c :: s))) fun r => outcome (moreMembers key item r) := by
  rw [members, solid]
  split
  · rename_i r h same
    rw [Subtype.mk.injEq] at same
    exact absurd (List.cons.inj same).1 proper
  · cases member key item (c :: s) with
    | none => rfl
    | some p =>
      obtain ⟨x, r, h⟩ := p
      cases later : moreMembers key item r <;> simp [later, thenMore, outcome]

variable {text : β → List Char} {entry : β → Option (κ × α)}

theorem moreMembers_reads (ms : List β) (rest : List Char)
    (each : ∀ m ∈ ms, Reads (member key item) (text m) (entry m)) :
    outcome (moreMembers key item (listed text ms ++ '}' :: rest)) =
      (ms.mapM entry).map (·, rest) := by
  induction ms with
  | nil =>
    change outcome (moreMembers key item ('}' :: rest)) = _
    rw [moreMembers, skipBlanks_solid (by decide)]
    rfl
  | cons m ms ih =>
    obtain ⟨first, others⟩ := List.forall_mem_cons.mp each
    have read := first.leaves _ (stops_listed text ms stops_brace rest)
    have text : listed text (m :: ms) ++ '}' :: rest =
        ',' :: (text m ++ (listed text ms ++ '}' :: rest)) := by simp [listed]
    rw [text, outcome_moreMembers (first.skipBlanks _), read, thenMore_map _ rest _ _ (ih others),
      mapM_cons_eq]

theorem members_reads (ms : List β) (rest : List Char)
    (each : ∀ m ∈ ms, Reads (member key item) (text m) (entry m)) :
    outcome (members key item (joined text ms ++ '}' :: rest)) = (ms.mapM entry).map (·, rest) := by
  cases ms with
  | nil =>
    change outcome (members key item ('}' :: rest)) = _
    rw [members, skipBlanks_solid (by decide)]
    rfl
  | cons m ms =>
    obtain ⟨first, others⟩ := List.forall_mem_cons.mp each
    have read := first.leaves _ (stops_listed text ms stops_brace rest)
    have solid := first.skipBlanks (listed text ms ++ '}' :: rest)
    obtain ⟨c, cs, starts, -, -, proper⟩ := first.starts
    rw [joined, List.append_assoc]
    rw [starts, List.cons_append] at read solid ⊢
    rw [outcome_members solid proper, read,
      thenMore_map _ rest _ _ (moreMembers_reads ms rest others), mapM_cons_eq]

end

end

/-! Values. -/

theorem compactItems_toList (items : List Json) :
    (compactItems items).toList = joined (fun v => v.compact.toList) items := by
  have more (v : Json) (rest : List Json) : (compactItems (v :: rest)).toList =
      v.compact.toList ++ listed (fun v => v.compact.toList) rest := by
    induction rest generalizing v with
    | nil => simp [compactItems, listed]
    | cons w rest ih =>
      rw [compactItems, String.toList_append, String.toList_append, ih]
      · simp [listed]
      · simp
  cases items with
  | nil => rfl
  | cons v rest => exact more v rest

def memberText (m : String × Json) : List Char :=
  (stringText m.1).toList ++ ':' :: m.2.compact.toList

theorem compactMembers_toList (ms : Members) :
    (compactMembers ms).toList = joined memberText ms := by
  have more (m : String × Json) (rest : Members) : (compactMembers (m :: rest)).toList =
      memberText m ++ listed memberText rest := by
    induction rest generalizing m with
    | nil => simp [compactMembers, listed, memberText]
    | cons n rest ih =>
      rw [compactMembers, String.toList_append, String.toList_append, ih]
      · simp [listed, memberText]
      · simp
  cases ms with
  | nil => rfl
  | cons m rest => exact more m rest

section

variable (depth : Nat) (scope : Scope)

theorem str_reads (text : String) :
    Reads (value depth scope) (Json.str text).compact.toList (some (.str text)) := by
  refine ⟨(string_reads text).starts, fun rest stops => ?_⟩
  have read := (string_reads text).leaves rest stops
  obtain ⟨cs, quoted⟩ : ∃ cs, (stringText text).toList = '"' :: cs := by
    rw [stringText, String.toList_ofList]
    exact ⟨_, rfl⟩
  change outcome (value depth scope ((stringText text).toList ++ rest)) = _
  rw [quoted, List.cons_append] at read ⊢
  rw [value, outcome_map, read]
  rfl

theorem scalar_reads {v? : Option Json} {c : Char} {cs : List Char}
    (lead : c = '-' ∨ c.isAlphanum = true)
    (read : ∀ rest, Stops rest →
      outcome (word (c :: cs ++ rest) <|> number (c :: cs ++ rest)) = v?.map (·, rest)) :
    Reads (value depth scope) (c :: cs) v? := by
  have other {d : Char} (sign : ¬(d = '-' ∨ d.isAlphanum = true)) : c ≠ d := by
    rintro rfl
    exact sign lead
  have solid : isBlank c = false := by
    simp [isBlank, other (d := ' ') (by decide), other (d := '\n') (by decide),
      other (d := '\t') (by decide), other (d := '\r') (by decide)]
  refine ⟨⟨c, cs, rfl, solid, other (by decide), other (by decide)⟩, fun rest stops => ?_⟩
  have result := read rest stops
  change outcome (value depth scope (c :: (cs ++ rest))) = _
  rw [value]
  · exact result
  · exact fun _ same => other (by decide) (List.cons.inj same).1
  · exact fun _ same => other (by decide) (List.cons.inj same).1
  · exact fun _ same => other (by decide) (List.cons.inj same).1

theorem word_none {c : Char} (lead : c = '-' ∨ c.isDigit = true) (s : List Char) :
    word (c :: s) = none := by
  have other {d : Char} (letter : ¬(d = '-' ∨ d.isDigit = true)) : c ≠ d := by
    rintro rfl
    exact letter lead
  rw [word]
  all_goals exact fun _ same => other (by decide) (List.cons.inj same).1

theorem numeral_reads {t : NumberText} (formed : t.WellFormed) :
    Reads (value depth scope) t.signed t.value? := by
  obtain ⟨c, cs, starts, lead⟩ := formed.starts
  rw [starts]
  refine scalar_reads depth scope ?_ fun rest stops => ?_
  · exact lead.imp_right fun digit => by simp [Char.isAlphanum, digit]
  · have read := number_reads formed stops
    rw [starts] at read
    rw [List.cons_append, word_none lead]
    exact read

theorem null_reads : Reads (value depth scope) Json.null.compact.toList (some .null) :=
  scalar_reads depth scope (c := 'n') (.inr (by decide)) fun _ _ => rfl

theorem bool_reads (b : Bool) :
    Reads (value depth scope) (Json.bool b).compact.toList (some (.bool b)) := by
  cases b
  · exact scalar_reads depth scope (c := 'f') (.inr (by decide)) fun _ _ => rfl
  · exact scalar_reads depth scope (c := 't') (.inr (by decide)) fun _ _ => rfl

end

section

variable {depth : Nat} {scope : Scope} {f : Json → Option Json}

theorem outcome_array (s : List Char) : outcome (value (depth + 1) scope ('[' :: s)) =
    (outcome (items (fun n => value depth (scope.item n)) s)).map fun (vs, r) => (.arr vs, r) := by
  rw [value]
  change outcome ((items (fun n => value depth (scope.item n)) s).bind _) = _
  cases items (fun n => value depth (scope.item n)) s <;> rfl

theorem outcome_object (s : List Char) : outcome (value (depth + 1) scope ('{' :: s)) =
    (outcome (members string (valueOf (value depth) scope) s)).map fun (ms, r) =>
      (.obj (ms.filterMap fun (key, v) => v.map (key, ·)), r) := by
  rw [value]
  change outcome ((members string (valueOf (value depth) scope) s).bind _) = _
  cases members string (valueOf (value depth) scope) s <;> rfl

theorem array_reads {vs : List Json}
    (each : ∀ v ∈ vs, Reads (value depth .whole) v.compact.toList (f v)) :
    Reads (value (depth + 1) .whole) (Json.arr vs).compact.toList ((vs.mapM f).map .arr) := by
  have text : (Json.arr vs).compact.toList =
      '[' :: (joined (fun v => v.compact.toList) vs ++ [']']) := by
    simp [compact, compactItems_toList]
  rw [text]
  refine ⟨⟨'[', _, rfl, by decide, by decide, by decide⟩, fun rest _ => ?_⟩
  have read := items_reads vs rest each
  rw [List.cons_append, List.append_assoc, List.singleton_append, outcome_array]
  change (outcome (items (fun _ => value depth .whole) _)).map _ = _
  rw [read]
  cases vs.mapM f <;> rfl

theorem object_reads {ms : Members} (each : ∀ m ∈ ms, ∃ inner, scope.member? m.1 = some inner ∧
      Reads (value depth inner) m.2.compact.toList (f m.2)) :
    Reads (value (depth + 1) scope) (Json.obj ms).compact.toList
      ((ms.mapM fun m => (f m.2).map (m.1, ·)).map .obj) := by
  have text : (Json.obj ms).compact.toList = '{' :: (joined memberText ms ++ ['}']) := by
    simp [compact, compactMembers_toList]
  rw [text]
  refine ⟨⟨'{', _, rfl, by decide, by decide, by decide⟩, fun rest _ => ?_⟩
  have entries : ∀ m ∈ ms, Reads (member string (valueOf (value depth) scope)) (memberText m)
      (((f m.2).map (m.1, ·)).map fun (k, v) => (k, some v)) := by
    intro m hm
    obtain ⟨inner, known, reads⟩ := each m hm
    have item : Reads (valueOf (value depth) scope m.1) m.2.compact.toList ((f m.2).map some) := by
      rw [valueOf, known]
      exact reads.map some
    have read := member_reads (string_reads m.1) item
    rwa [Option.map_map] at read ⊢
  have read := members_reads ms rest entries
  rw [mapM_map_eq] at read
  rw [List.cons_append, List.append_assoc, List.singleton_append, outcome_object, read]
  cases ms.mapM fun m => (f m.2).map (m.1, ·) with
  | none => rfl
  | some read =>
    have known : (read.map fun m => (m.1, some m.2)).filterMap (fun m => m.2.map (m.1, ·)) =
        read := by
      rw [List.filterMap_map]
      exact List.filterMap_some
    exact congrArg (fun ms => some (Json.obj ms, rest)) known

end

end ReadPlan.Json
