import ReadPlan.Proofs.CharRuns
import ReadPlan.Proofs.Outcome
import ReadPlan.Settings.Basic

/-!
Expanding variables is one substitution from left to right. A text is cut into pieces in exactly one
way, each as long as it can be; every reference among them gives its value as it is, and the first
one without a value is the fault. So two texts expand side by side wherever the cut between them
does not go through a piece.
-/

namespace ReadPlan.Expansion

/-- The piece is written as these characters, where `rest` follows them. -/
inductive Writes (rest : List Char) : Piece → List Char → Prop
  | text {w} (given : w ≠ []) (plain : ∀ c ∈ w, c ≠ '$') (ends : ∀ c ∈ rest.head?, c = '$') :
    Writes rest (.text (String.ofList w)) w
  | closed {name} (inside : ∀ c ∈ name, c ≠ '}') :
    Writes rest (.reference (String.ofList name)) ('$' :: '{' :: (name ++ ['}']))
  | unclosed {name} (inside : ∀ c ∈ name, c ≠ '}') (last : rest = []) :
    Writes rest (.reference (String.ofList name)) ('$' :: '{' :: name)
  | bare {name} (given : name ≠ []) (named : ∀ c ∈ name, isNameChar c = true)
    (ends : ∀ c ∈ rest.head?, isNameChar c = false) :
    Writes rest (.reference (String.ofList name)) ('$' :: name)
  | dollar (lone : ∀ c ∈ rest.head?, c ≠ '{' ∧ isNameChar c = false) : Writes rest .dollar ['$']

/-- The text is cut into these pieces, where `rest` follows it. -/
inductive Cuts (rest : List Char) : List Piece → List Char → Prop
  | nil : Cuts rest [] []
  | cons {p w ps s} (first : Writes (s ++ rest) p w) (more : Cuts rest ps s) :
    Cuts rest (p :: ps) (w ++ s)

section

variable {rest w name s : List Char} {p : Piece} {ps : List Piece}

theorem pieces_text (given : w ≠ []) (plain : ∀ c ∈ w, c ≠ '$') (ends : ∀ c ∈ rest.head?, c = '$') :
    pieces (w ++ rest) = .text (String.ofList w) :: pieces rest := by
  obtain ⟨c, w, rfl⟩ := List.exists_cons_of_ne_nil given
  obtain ⟨first, others⟩ := List.forall_mem_cons.mp plain
  have run : ∀ d ∈ w, (d != '$') = true := by simpa using others
  have stop : ∀ d ∈ rest.head?, (d != '$') = false := by simpa using ends
  rw [List.cons_append, pieces.eq_def]
  split
  · rename_i nothing
    cases nothing
  · rename_i braced
    exact absurd (List.cons.inj braced).1 first
  · rename_i dollar
    exact absurd (List.cons.inj dollar).1 first
  · rename_i same
    obtain ⟨rfl, rfl⟩ := List.cons.inj same
    rw [takeWhile_run run stop, dropWhile_run run stop]

theorem pieces_braced (inside : ∀ c ∈ name, c ≠ '}') (ends : ∀ c ∈ rest.head?, c = '}') :
    pieces ('$' :: '{' :: (name ++ rest)) =
      .reference (String.ofList name) :: pieces (rest.drop 1) := by
  have run : ∀ c ∈ name, (c != '}') = true := by simpa using inside
  have stop : ∀ c ∈ rest.head?, (c != '}') = false := by simpa using ends
  rw [pieces.eq_def]
  simp only [takeWhile_run run stop, dropWhile_run run stop]

theorem pieces_dollar (unbraced : ∀ c ∈ rest.head?, c ≠ '{') :
    pieces ('$' :: rest) = match rest.takeWhile isNameChar with
      | [] => .dollar :: pieces rest
      | name => .reference (String.ofList name) :: pieces (rest.dropWhile isNameChar) := by
  rw [pieces.eq_def]
  split
  · rename_i nothing
    cases nothing
  · rename_i braced
    obtain ⟨-, rfl⟩ := List.cons.inj braced
    exact absurd rfl (unbraced '{' rfl)
  · rename_i same
    cases same
    rfl
  · rename_i other same
    exact (other (List.cons.inj same).1.symm).elim

theorem pieces_bare (given : name ≠ []) (named : ∀ c ∈ name, isNameChar c = true)
    (ends : ∀ c ∈ rest.head?, isNameChar c = false) :
    pieces ('$' :: (name ++ rest)) = .reference (String.ofList name) :: pieces rest := by
  obtain ⟨c, name, rfl⟩ := List.exists_cons_of_ne_nil given
  have unbraced : c ≠ '{' := by
    rintro rfl
    exact absurd (named '{' List.mem_cons_self) (by decide)
  have first : ∀ d ∈ ((c :: name) ++ rest).head?, d ≠ '{' := by simpa using unbraced
  rw [pieces_dollar first, takeWhile_run named ends, dropWhile_run named ends]

theorem pieces_lone (lone : ∀ c ∈ rest.head?, c ≠ '{' ∧ isNameChar c = false) :
    pieces ('$' :: rest) = .dollar :: pieces rest := by
  have none : rest.takeWhile isNameChar = [] :=
    takeWhile_run (w := []) (by simp) fun c hc => (lone c hc).2
  rw [pieces_dollar fun c hc => (lone c hc).1, none]

theorem Writes.pieces (h : Writes rest p w) : pieces (w ++ rest) = p :: pieces rest := by
  cases h with
  | text given plain ends => exact pieces_text given plain ends
  | closed inside =>
    rw [List.cons_append, List.cons_append, List.append_assoc]
    exact pieces_braced inside (by simp)
  | unclosed inside last =>
    subst last
    rw [List.cons_append, List.cons_append]
    exact pieces_braced inside (by simp)
  | bare given named ends => exact pieces_bare given named ends
  | dollar lone => exact pieces_lone lone

theorem Cuts.pieces (h : Cuts rest ps s) : pieces (s ++ rest) = ps ++ pieces rest := by
  induction h with
  | nil => rfl
  | cons first _ ih => rw [List.append_assoc, first.pieces, ih, List.cons_append]

theorem Writes.before {t : List Char} (h : Writes (s ++ t) p w) : Writes s p w := by
  have ends {Q : Char → Prop} (h : ∀ c ∈ (s ++ t).head?, Q c) : ∀ c ∈ s.head?, Q c := by
    cases s with
    | nil => simp
    | cons c s => exact h
  cases h with
  | text given plain next => exact .text given plain (ends next)
  | closed inside => exact .closed inside
  | unclosed inside last => exact .unclosed inside (List.append_eq_nil_iff.mp last).1
  | bare given named next => exact .bare given named (ends next)
  | dollar lone => exact .dollar (ends lone)

theorem Cuts.alone (h : Cuts rest ps s) : Cuts [] ps s := by
  induction h with
  | nil => exact .nil
  | cons first _ ih => exact .cons (by simpa using first.before) ih

theorem exists_writes_braced (s : List Char) :
    ∃ p w rest, '$' :: '{' :: s = w ++ rest ∧ w ≠ [] ∧ Writes rest p w := by
  have inside : ∀ c ∈ s.takeWhile (· != '}'), c ≠ '}' := by
    simpa using takeWhile_each (· != '}') s
  have whole : s.takeWhile (· != '}') ++ s.dropWhile (· != '}') = s :=
    List.takeWhile_append_dropWhile
  cases after : s.dropWhile (· != '}') with
  | nil =>
    rw [after, List.append_nil] at whole
    exact ⟨_, _, [], by rw [whole, List.append_nil], by simp, .unclosed inside rfl⟩
  | cons c rest =>
    have brace : c = '}' := by
      have first := head_dropWhile (· != '}') s
      rw [after] at first
      simpa using first c rfl
    subst brace
    refine ⟨_, _, rest, ?_, by simp, .closed inside⟩
    rw [after] at whole
    simp [whole]

theorem exists_writes_dollar {s : List Char} (unbraced : ∀ c ∈ s.head?, c ≠ '{') :
    ∃ p w rest, '$' :: s = w ++ rest ∧ w ≠ [] ∧ Writes rest p w := by
  have whole : s.takeWhile isNameChar ++ s.dropWhile isNameChar = s :=
    List.takeWhile_append_dropWhile
  have ends := head_dropWhile isNameChar s
  by_cases lone : s.takeWhile isNameChar = []
  · rw [lone, List.nil_append] at whole
    rw [whole] at ends
    exact ⟨_, _, s, rfl, by simp, .dollar fun c hc => ⟨unbraced c hc, ends c hc⟩⟩
  · refine ⟨_, _, _, ?_, by simp, .bare lone (takeWhile_each isNameChar s) ends⟩
    rw [List.cons_append, whole]

theorem exists_writes (given : s ≠ []) :
    ∃ p w rest, s = w ++ rest ∧ w ≠ [] ∧ Writes rest p w := by
  obtain ⟨c, s, rfl⟩ := List.exists_cons_of_ne_nil given
  by_cases dollar : c = '$'
  · subst dollar
    by_cases braced : s.head? = some '{'
    · obtain ⟨s, rfl⟩ := List.head?_eq_some_iff.mp braced
      exact exists_writes_braced s
    · refine exists_writes_dollar fun c hc same => braced ?_
      rw [← same]
      exact hc
  · have plain : ∀ d ∈ c :: s.takeWhile (· != '$'), d ≠ '$' :=
      List.forall_mem_cons.mpr ⟨dollar, by simpa using takeWhile_each (· != '$') s⟩
    have ends : ∀ d ∈ (s.dropWhile (· != '$')).head?, d = '$' := by
      simpa using head_dropWhile (· != '$') s
    exact ⟨_, _, _, by simp, by simp, .text (by simp) plain ends⟩

theorem cuts_pieces (s : List Char) : Cuts [] (Expansion.pieces s) s := by
  induction h : s.length using Nat.strongRecOn generalizing s with
  | ind n ih =>
    by_cases none : s = []
    · subst none
      rw [Expansion.pieces]
      exact .nil
    · obtain ⟨p, w, rest, rfl, written, first⟩ := exists_writes none
      have shorter : rest.length < n := by
        have length := List.length_pos_iff.mpr written
        rw [List.length_append] at h
        omega
      rw [first.pieces]
      exact .cons (by simpa using first) (ih _ shorter rest rfl)

theorem cuts_iff : Cuts [] ps s ↔ ps = Expansion.pieces s := by
  constructor
  · intro h
    have read := h.pieces
    rw [List.append_nil, Expansion.pieces.eq_1, List.append_nil] at read
    exact read.symm
  · rintro rfl
    exact cuts_pieces s

end

/-! What the pieces give. -/

def Piece.value (env : String → Option String) : Piece → String
  | .text s => s
  | .dollar => "$"
  | .reference name => (env name).getD ""

/-- The pieces with the values of their references, or the first name without a value. -/
def substituted (env : String → Option String) (ps : List Piece) : Except String String :=
  match (ps.filterMap Piece.name?).find? (fun name => (env name).isNone) with
  | some name => .error name
  | none => .ok (String.join (ps.map (Piece.value env)))

section

variable (env : String → Option String)

theorem substituted_cons (p : Piece) (ps : List Piece) :
    substituted env (p :: ps) = (do
      let value ← p.expand env
      let more ← substituted env ps
      return value ++ more) := by
  unfold substituted
  cases p with
  | text s | dollar =>
    simp only [List.filterMap_cons, Piece.name?, List.map_cons, Piece.value, Piece.expand, ok_bind]
    cases List.find? _ _ with
    | none => simp [String.join_cons, ok_bind, pure, Except.pure]
    | some name => rfl
  | reference name =>
    simp only [List.filterMap_cons, Piece.name?, List.map_cons, Piece.value, Piece.expand,
      List.find?_cons]
    cases env name with
    | none => rfl
    | some value =>
      simp only [Option.isNone_some, ok_bind, Option.getD_some]
      cases List.find? _ _ with
      | none => simp [String.join_cons, ok_bind, pure, Except.pure]
      | some name => rfl

theorem mapM_expand (ps : List Piece) :
    String.join <$> ps.mapM (Piece.expand env) = substituted env ps := by
  induction ps with
  | nil => rfl
  | cons p rest ih =>
    rw [substituted_cons, ← ih, List.mapM_cons]
    cases p.expand env with
    | error name => rfl
    | ok value =>
      cases rest.mapM (Piece.expand env) with
      | error name => rfl
      | ok values => simp [String.join_cons, ok_bind, pure, Except.pure, Functor.map, Except.map]

theorem substituted_append (ps qs : List Piece) :
    substituted env (ps ++ qs) = (do
      let first ← substituted env ps
      let more ← substituted env qs
      return first ++ more) := by
  induction ps with
  | nil =>
    have empty : substituted env [] = .ok "" := rfl
    rw [List.nil_append, empty, ok_bind]
    cases substituted env qs with
    | error name => rfl
    | ok more => exact congrArg Except.ok String.empty_append.symm
  | cons p rest ih =>
    rw [List.cons_append, substituted_cons, ih, substituted_cons]
    cases p.expand env with
    | error name => rfl
    | ok value =>
      cases substituted env rest with
      | error name => rfl
      | ok first =>
        cases substituted env qs with
        | error name => rfl
        | ok more => exact congrArg Except.ok (String.append_assoc ..).symm

theorem expand_eq (s : String) : expand env s = substituted env (pieces s.toList) :=
  mapM_expand env (pieces s.toList)

theorem expand_append {s t : String} {ps : List Piece} (between : Cuts t.toList ps s.toList) :
    expand env (s ++ t) = (do
      let first ← expand env s
      let more ← expand env t
      return first ++ more) := by
  have alone := cuts_iff.mp between.alone
  rw [expand_eq, String.toList_append, between.pieces, substituted_append, alone, ← expand_eq,
    ← expand_eq]

end

/-- A text has one cut into pieces. It expands to their values, or to the first name among them that
has none, and so does the path of a catalog; and it expands beside another text unless they meet
within a piece. -/
theorem expands_by_pieces (env : String → Option String) (s : String) :
    ∃ ps, (∀ qs, Cuts [] qs s.toList ↔ qs = ps) ∧ expand env s = substituted env ps ∧
      (∀ settings : Settings, settings.catalogPath = some s →
        settings.expandedCatalogPath env =
          (substituted env ps).mapError SettingsError.missingVariable) ∧
      ∀ t, (∃ qs, Cuts t.toList qs s.toList) → expand env (s ++ t) = (do
        let first ← expand env s
        let more ← expand env t
        return first ++ more) := by
  refine ⟨pieces s.toList, fun qs => cuts_iff, expand_eq env s, ?_, ?_⟩
  · intro settings given
    simp only [Settings.expandedCatalogPath, given, ← expand_eq]
    cases expand env s with
    | error name => rfl
    | ok path => rfl
  · rintro t ⟨qs, between⟩
    exact expand_append env between

def homeAndUser : String → Option String
  | "HOME" => some "/h/$USER"
  | "USER" => some "ann"
  | _ => none

theorem home_expands_by_pieces :
    (∃ settings : Settings, settings.catalogPath = some "${HOME}/$" ∧
      settings.expandedCatalogPath homeAndUser = .ok "/h/$USER/$") ∧
    Cuts "$USER!".toList [.reference "HOME", .text "/", .dollar] "${HOME}/$".toList ∧
      expand homeAndUser ("${HOME}/$" ++ "$USER!") = .ok "/h/$USER/$ann!" := by
  have slash : Writes "$$USER!".toList (.text "/") ['/'] :=
    .text (by simp) (forall_of_all (by decide)) (forall_of_head (by decide))
  have lone : Writes "$USER!".toList .dollar ['$'] := .dollar (forall_of_head (by decide))
  have home : Cuts "$USER!".toList [.reference "HOME", .text "/", .dollar] "${HOME}/$".toList :=
    .cons (.closed (forall_of_all (by decide))) (.cons slash (.cons lone .nil))
  have name : Writes "!".toList (.reference "USER") "$USER".toList :=
    .bare (by simp) (forall_of_all (by decide)) (forall_of_head (by decide))
  have bang : Writes [] (.text "!") ['!'] :=
    .text (by simp) (forall_of_all (by decide)) (forall_of_head (by decide))
  have user : Cuts [] [.reference "USER", .text "!"] "$USER!".toList :=
    .cons name (.cons bang .nil)
  obtain ⟨ps, cut, expanded, path, beside⟩ := expands_by_pieces homeAndUser "${HOME}/$"
  obtain ⟨qs, cut', expanded', -⟩ := expands_by_pieces homeAndUser "$USER!"
  cases (cut _).mp home.alone
  cases (cut' _).mp user
  refine ⟨⟨{ Settings.default with catalogPath := some "${HOME}/$" }, rfl, path _ rfl⟩, home, ?_⟩
  rw [beside "$USER!" ⟨_, home⟩, expanded, expanded']
  rfl

end ReadPlan.Expansion
