namespace ReadPlan

section

variable {P : Char → Prop} [DecidablePred P]

/-- The check goes through the list and not through all characters there are. -/
theorem forall_of_all {cs : List Char} (h : cs.all (P ·) = true) : ∀ c ∈ cs, P c := by
  simpa using h

theorem forall_of_head {cs : List Char} (h : cs.head?.all (P ·) = true) : ∀ c ∈ cs.head?, P c := by
  cases cs with
  | nil => simp
  | cons c rest => simpa using h

end

section

variable {q : Char → Bool} {w rest : List Char}

theorem takeWhile_run (run : ∀ c ∈ w, q c = true) (ends : ∀ c ∈ rest.head?, q c = false) :
    (w ++ rest).takeWhile q = w := by
  rw [List.takeWhile_append_of_pos run]
  cases rest with
  | nil => simp
  | cons c rest => simp [ends c rfl]

theorem dropWhile_run (run : ∀ c ∈ w, q c = true) (ends : ∀ c ∈ rest.head?, q c = false) :
    (w ++ rest).dropWhile q = rest := by
  rw [List.dropWhile_append_of_pos run]
  cases rest with
  | nil => simp
  | cons c rest => simp [ends c rfl]

end

theorem takeWhile_each (q : Char → Bool) (s : List Char) : ∀ c ∈ s.takeWhile q, q c = true :=
  fun _ hc => List.all_eq_true.mp List.all_takeWhile _ hc

theorem head_dropWhile (q : Char → Bool) (s : List Char) :
    ∀ c ∈ (s.dropWhile q).head?, q c = false := by
  intro c hc
  have first := List.head?_dropWhile_not q s
  rwa [Option.mem_def.mp hc] at first

end ReadPlan
