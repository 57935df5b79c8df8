import ReadPlan.Proofs.CharRuns
import ReadPlan.Proofs.Lexer

/-!
How the lexer goes through the text of one lexeme: in silence, up to a mode that a blank or a
punctuation mark ends. Texts that read alone read the same side by side, where the second starts
with such a character.
-/

namespace ReadPlan.Sql.Lexer

def Mode.silent? (d : Dialect) (m : Mode) (c : Char) : Option Mode :=
  match m.follow? d c with
  | some ([], next) => some next
  | _ => none

def Mode.run? (d : Dialect) (m : Mode) (cs : List Char) : Option Mode :=
  cs.foldlM (Mode.silent? d) m

def separators : List Char :=
  blanks ++ punctuation

def SetApart (cs : List Char) : Prop :=
  ∀ c ∈ cs.head?, c ∈ separators

/-- The text is read as these lexemes, whatever comes after it and is set apart. -/
def Reads (d : Dialect) (cs : List Char) (ls : List Lexeme) : Prop :=
  ∀ rest, SetApart rest → scan d .between (cs ++ rest) = (ls ++ ·) <$> scan d .between rest

variable {d : Dialect}

theorem SetApart.append {cs rest : List Char} (h : SetApart cs) (hr : SetApart rest) :
    SetApart (cs ++ rest) := by
  cases cs with
  | nil => exact hr
  | cons c cs => exact h

theorem scan_run {m last : Mode} {cs : List Char} (h : m.run? d cs = some last)
    (rest : List Char) : scan d m (cs ++ rest) = scan d last rest := by
  induction cs generalizing m with
  | nil =>
    cases h
    rfl
  | cons c cs ih =>
    simp only [Mode.run?, List.foldlM_cons, Option.bind_eq_bind, Option.bind_eq_some_iff] at h
    obtain ⟨next, silent, h⟩ := h
    unfold Mode.silent? at silent
    split at silent <;> cases silent
    rename_i followed
    simp [scan, followed, ih h]

theorem scan_leave {m : Mode} {ls : List Lexeme} {rest : List Char} (done : m.finish? d = some ls)
    (leaves : ∀ c ∈ rest.head?, m.follow? d c = m.leave? d c) :
    scan d m rest = (ls ++ ·) <$> scan d .between rest := by
  cases rest with
  | nil =>
    have empty : Mode.finish? d .between = some [] := rfl
    simp [scan, done, empty]
  | cons c rest =>
    have left := leaves c rfl
    simp only [Mode.leave?, done, Option.bind_eq_bind, Option.bind_some] at left
    have begun : Mode.follow? d .between c = begin? d c := rfl
    rw [scan, scan, left, begun]
    cases begin? d c with
    | none => rfl
    | some begun => simp [Function.comp_def]

theorem next_separator (phase : Phase) : ∀ c ∈ separators, phase.next? c = none := by
  apply forall_of_all
  cases phase <;> decide

theorem isQuote_separator (d : Dialect) : ∀ c ∈ separators, isQuote d c = false := by
  apply forall_of_all
  cases d <;> decide

theorem plain_separator :
    ∀ c ∈ separators, isWordChar c = false ∧ c ∉ operatorChars ∧ c.isDigit = false ∧ c ≠ '.' := by
  apply forall_of_all
  decide

theorem isQuote_of_closing {quote : Char} {read : List Char} {ls : List Lexeme}
    (done : (Mode.closing quote read).finish? d = some ls) : isQuote d quote = true := by
  simp only [Mode.finish?] at done
  split at done
  · rename_i name
    simp [isQuote, name]
  · split at done
    · rename_i string
      simp [isQuote, string]
    · cases done

theorem follow_separator {m : Mode} {ls : List Lexeme} (done : m.finish? d = some ls) {c : Char}
    (h : c ∈ separators) : m.follow? d c = m.leave? d c := by
  obtain ⟨word, operator, digit, point⟩ := plain_separator c h
  have unquoted := isQuote_separator d c h
  cases m with
  | between => cases begun : begin? d c <;> simp [Mode.follow?, Mode.leave?, Mode.finish?, begun]
  | word read => simp [Mode.follow?, word, unquoted]
  | number phase read => simp [Mode.follow?, next_separator phase c h, word, point]
  | point => simp [Mode.follow?, digit]
  | operator read => simp [Mode.follow?, operator]
  | closing quote read =>
    have other : c ≠ quote := by
      rintro rfl
      rw [isQuote_of_closing done] at unquoted
      contradiction
    simp [Mode.follow?, other]
  | quoted | escape => cases done

namespace Reads

theorem nil : Reads d [] [] := by
  intro rest apart
  simp

theorem append {cs ds : List Char} {ls ms : List Lexeme} (h : Reads d cs ls) (hd : Reads d ds ms)
    (apart : SetApart ds) : Reads d (cs ++ ds) (ls ++ ms) := by
  intro rest after
  rw [List.append_assoc, h _ (apart.append after), hd rest after]
  simp [Function.comp_def]

theorem of_run {m : Mode} {cs : List Char} {ls : List Lexeme} (h : Mode.run? d .between cs = some m)
    (done : m.finish? d = some ls) : Reads d cs ls := by
  intro rest apart
  rw [scan_run h]
  exact scan_leave done fun c hc => follow_separator done (apart c hc)

theorem dotted {m : Mode} {cs ds : List Char} {ls ms : List Lexeme}
    (h : Mode.run? d .between cs = some m) (done : m.finish? d = some ls)
    (leaves : m.follow? d '.' = m.leave? d '.') (hd : Reads d ds ms)
    (digit : ∀ c ∈ ds.head?, c.isDigit = false) (nonempty : ds ≠ []) :
    Reads d (cs ++ '.' :: ds) (ls ++ .symbol "." :: ms) := by
  intro rest apart
  have step : Mode.run? d .between ['.'] = some .point := rfl
  have point : scan d .between ('.' :: (ds ++ rest)) = scan d .point (ds ++ rest) :=
    scan_run step (ds ++ rest)
  have first : ∀ c ∈ ('.' :: (ds ++ rest)).head?, m.follow? d c = m.leave? d c := by
    simpa using leaves
  have second : ∀ c ∈ (ds ++ rest).head?, Mode.follow? d .point c = Mode.leave? d .point c := by
    cases ds with
    | nil => exact absurd rfl nonempty
    | cons x ds =>
      have nondigit := digit x rfl
      simp [Mode.follow?, nondigit]
  rw [List.append_assoc, List.cons_append, scan_run h, scan_leave done first, point,
    scan_leave rfl second, hd rest apart]
  simp [Function.comp_def]

theorem cons {c : Char} {cs : List Char} {ls ms : List Lexeme}
    (begun : begin? d c = some (ls, .between)) (h : Reads d cs ms) :
    Reads d (c :: cs) (ls ++ ms) := by
  intro rest apart
  have first :
      scan d .between (c :: (cs ++ rest)) = (ls ++ ·) <$> scan d .between (cs ++ rest) := by
    simp [scan, Mode.follow?, begun]
  rw [List.cons_append, first, h rest apart]
  simp [Function.comp_def]

theorem blank {c : Char} (hc : c ∈ blanks) {cs : List Char} {ls : List Lexeme} (h : Reads d cs ls) :
    Reads d (c :: cs) ls := by
  have begun : ∀ c ∈ blanks, begin? d c = some ([], .between) := by
    apply forall_of_all
    cases d <;> decide
  exact cons (begun c hc) h

theorem spaced {cs ds : List Char} {ls ms : List Lexeme} (h : Reads d cs ls) (hd : Reads d ds ms) :
    Reads d (cs ++ ' ' :: ds) (ls ++ ms) :=
  h.append (blank (by decide) hd) (by simp [SetApart, separators, blanks])

theorem punctuation {c : Char} (hc : c ∈ Lexer.punctuation) {cs : List Char} {ls : List Lexeme}
    (h : Reads d cs ls) : Reads d (c :: cs) (.symbol (String.singleton c) :: ls) := by
  have begun : ∀ c ∈ Lexer.punctuation,
      begin? d c = some ([.symbol (String.singleton c)], .between) := by
    apply forall_of_all
    cases d <;> decide
  exact cons (begun c hc) h

end Reads

theorem run_cons {m n : Mode} {c : Char} (h : m.follow? d c = some ([], n)) (cs : List Char) :
    m.run? d (c :: cs) = n.run? d cs := by
  simp [Mode.run?, Mode.silent?, h]

theorem run_append {m n : Mode} {cs : List Char} (h : m.run? d cs = some n) (ds : List Char) :
    m.run? d (cs ++ ds) = n.run? d ds := by
  rw [Mode.run?, List.foldlM_append]
  exact congrArg (· >>= (Mode.run? d · ds)) h

theorem run_word {w : List Char} (h : ∀ c ∈ w, isWordChar c = true) (read : List Char) :
    (Mode.word read).run? d w = some (.word (read ++ w)) := by
  induction w generalizing read with
  | nil => simp [Mode.run?]
  | cons c w ih =>
    obtain ⟨first, others⟩ := List.forall_mem_cons.mp h
    rw [run_cons (n := .word (read ++ [c])) (by simp [Mode.follow?, first]), ih others]
    simp

theorem run_number {phase last : Phase} {cs : List Char}
    (h : cs.foldlM Phase.next? phase = some last) (read : List Char) :
    (Mode.number phase read).run? d cs = some (.number last (read ++ cs)) := by
  induction cs generalizing phase read with
  | nil =>
    cases h
    simp [Mode.run?]
  | cons c cs ih =>
    simp only [List.foldlM_cons, Option.bind_eq_bind, Option.bind_eq_some_iff] at h
    obtain ⟨next, step, h⟩ := h
    rw [run_cons (n := .number next (read ++ [c])) (by simp [Mode.follow?, step]), ih h]
    simp

theorem run_quoted {quote : Char} {written : Char → List Char}
    (h : ∀ c read, (Mode.quoted quote read).run? d (written c) = some (.quoted quote (read ++ [c])))
    (cs read : List Char) :
    (Mode.quoted quote read).run? d (cs.flatMap written) = some (.quoted quote (read ++ cs)) := by
  induction cs generalizing read with
  | nil => simp [Mode.run?]
  | cons c cs ih =>
    rw [List.flatMap_cons, run_append (h c read), ih]
    simp

theorem lex_of_reads {text : String} {ls : List Lexeme} (h : Reads d text.toList ls) :
    lex d text = some ls := by
  have whole := h [] (by simp [SetApart])
  simpa [lex, scan, Mode.finish?] using whole

end ReadPlan.Sql.Lexer
