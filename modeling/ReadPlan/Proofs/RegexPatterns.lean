import Mathlib.Computability.Language

namespace ReadPlan.Sql

inductive CharClass
  | digit
  | word
  | space
  deriving DecidableEq

def CharClass.has : CharClass → Char → Bool
  | digit, c => c.isDigit
  | word, c => c.isAlphanum || c == '_'
  | space, c => [' ', '\t', '\n', '\x0c', '\r'].contains c

inductive RegexAtom
  | exactly (c : Char)
  | inside (k : CharClass)
  | outside (k : CharClass)
  deriving DecidableEq

namespace RegexAtom

def Takes : RegexAtom → Char → Prop
  | exactly d, c => c = d
  | inside k, c => k.has c = true
  | outside k, c => k.has c = false

def texts (a : RegexAtom) : Language Char :=
  {x | ∃ c, a.Takes c ∧ x = [c]}

def sample : RegexAtom → Char
  | exactly c => c
  | inside .digit => '0'
  | inside .space | outside .word => ' '
  | inside .word | outside .digit | outside .space => 'a'

theorem takes_sample (a : RegexAtom) : a.Takes a.sample := by
  rcases a with c | k | k
  · rfl
  · cases k <;> rfl
  · cases k <;> rfl

end RegexAtom

def regexMarks : List Char :=
  ['.', '^', '$', '*', '+', '?', '(', ')', '[', ']', '{', '}', '|']

/-- What a backslash makes of the character after it. Other letters and digits have meanings of
their own. -/
def escaped? (c : Char) : Option RegexAtom :=
  match c with
  | 'd' => some (.inside .digit)
  | 'D' => some (.outside .digit)
  | 'w' => some (.inside .word)
  | 'W' => some (.outside .word)
  | 's' => some (.inside .space)
  | 'S' => some (.outside .space)
  | c => if c.isAlphanum then none else some (.exactly c)

def regexAtoms? : List Char → Option (List RegexAtom)
  | [] => some []
  | c :: rest =>
    if c = '\\' then
      match rest with
      | [] => none
      | e :: rest => do
        let a ← escaped? e
        (a :: ·) <$> regexAtoms? rest
    else if c ∈ regexMarks then none
    else (.exactly c :: ·) <$> regexAtoms? rest

theorem regexAtoms_cons {c : Char} (h : c ≠ '\\') (rest : List Char) :
    regexAtoms? (c :: rest) =
      if c ∈ regexMarks then none else (.exactly c :: ·) <$> regexAtoms? rest := by
  rw [regexAtoms?.eq_def]
  simp [h]

def atomsLanguage (as : List RegexAtom) : Language Char :=
  (as.map RegexAtom.texts).prod

def found (pattern : List Char) : Language Char :=
  (regexAtoms? pattern).elim 0 fun as => ⊤ * atomsLanguage as * ⊤

section

variable {as : List RegexAtom} {x : List Char}

theorem mem_atomsLanguage : x ∈ atomsLanguage as ↔ List.Forall₂ RegexAtom.Takes as x := by
  induction as generalizing x with
  | nil => exact (Language.mem_one x).trans List.forall₂_nil_left_iff.symm
  | cons a as ih =>
    rw [atomsLanguage, List.map_cons, List.prod_cons, ← atomsLanguage, Language.mem_mul,
      List.forall₂_cons_left_iff]
    constructor
    · rintro ⟨_, ⟨c, takes, rfl⟩, y, more, rfl⟩
      exact ⟨c, y, takes, ih.mp more, rfl⟩
    · rintro ⟨c, y, takes, more, rfl⟩
      exact ⟨[c], ⟨c, takes, rfl⟩, y, ih.mpr more, rfl⟩

theorem mem_found_of_length (size : x.length = as.length) :
    x ∈ ⊤ * atomsLanguage as * ⊤ ↔ List.Forall₂ RegexAtom.Takes as x := by
  rw [← mem_atomsLanguage]
  constructor
  · rintro ⟨_, ⟨before, -, y, taken, rfl⟩, after, -, whole⟩
    have length := (mem_atomsLanguage.mp taken).length_eq
    simp only [← whole, List.length_append] at size
    have first : before = [] := List.eq_nil_of_length_eq_zero (by omega)
    have last : after = [] := List.eq_nil_of_length_eq_zero (by omega)
    have same : x = y := by simp [← whole, first, last]
    exact same ▸ taken
  · intro taken
    exact ⟨x, ⟨[], trivial, x, taken, rfl⟩, [], trivial, List.append_nil x⟩

theorem found_of_atoms {pattern : List Char} (read : regexAtoms? pattern = some as) :
    found pattern = ⊤ * atomsLanguage as * ⊤ := by
  rw [found, read, Option.elim_some]

theorem sample_found {pattern : List Char} (read : regexAtoms? pattern = some as) :
    as.map RegexAtom.sample ∈ found pattern := by
  rw [found_of_atoms read, mem_found_of_length (List.length_map _), List.forall₂_map_right_iff]
  exact List.forall₂_same.mpr fun a _ => a.takes_sample

end

end ReadPlan.Sql
