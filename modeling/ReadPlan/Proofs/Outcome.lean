import Mathlib.Data.List.Forall2

namespace ReadPlan

variable {ε α β γ : Type}

theorem bind_eq_ok {x : Except ε α} {f : α → Except ε β} {b : β} :
    x >>= f = .ok b ↔ ∃ a, x = .ok a ∧ f a = .ok b := by
  cases x with
  | error e => simp [bind, Except.bind]
  | ok a => simp [bind, Except.bind]

theorem ok_bind {a : α} {f : α → Except ε β} : (Except.ok a >>= f) = f a := rfl

theorem error_bind {e : ε} {f : α → Except ε β} : (Except.error e >>= f) = .error e := rfl

theorem map_eq_ok {x : Except ε α} {f : α → β} {b : β} :
    f <$> x = .ok b ↔ ∃ a, x = .ok a ∧ f a = b := by
  cases x with
  | error e => simp [Functor.map, Except.map]
  | ok a => simp [Functor.map, Except.map]

theorem pure_eq_ok {a b : α} : (pure a : Except ε α) = .ok b ↔ a = b := by
  simp [pure, Except.pure]

theorem exists_ok_of_any {x : Except ε α} {P : α → Bool} (h : x.toOption.any P = true) :
    ∃ a, x = .ok a ∧ P a = true := by
  cases x with
  | error e => cases h
  | ok a => exact ⟨a, rfl, h⟩

theorem mapM_cons_eq_ok {f : α → Except ε β} {x : α} {xs : List α} {zs : List β} :
    (x :: xs).mapM f = .ok zs ↔ ∃ y ys, f x = .ok y ∧ xs.mapM f = .ok ys ∧ zs = y :: ys := by
  simp only [List.mapM_cons, bind_eq_ok, pure_eq_ok]
  constructor
  · rintro ⟨y, here, ys, others, rfl⟩
    exact ⟨y, ys, here, others, rfl⟩
  · rintro ⟨y, ys, here, others, rfl⟩
    exact ⟨y, here, ys, others, rfl⟩

theorem result_of_mapM {f : α → Except ε β} {xs : List α} {ys : List β}
    (h : xs.mapM f = .ok ys) : ∀ x ∈ xs, ∃ y, f x = .ok y := by
  induction xs generalizing ys with
  | nil => simp
  | cons x rest ih =>
    obtain ⟨y, more, here, others, rfl⟩ := mapM_cons_eq_ok.mp h
    exact List.forall_mem_cons.mpr ⟨⟨y, here⟩, ih others⟩

theorem source_of_mapM {f : α → Except ε β} {xs : List α} {ys : List β}
    (h : xs.mapM f = .ok ys) : ∀ y ∈ ys, ∃ x ∈ xs, f x = .ok y := by
  induction xs generalizing ys with
  | nil =>
    cases h
    simp
  | cons x rest ih =>
    obtain ⟨y, more, here, others, rfl⟩ := mapM_cons_eq_ok.mp h
    intro z hz
    rcases List.mem_cons.mp hz with rfl | hz
    · exact ⟨x, List.mem_cons_self, here⟩
    · obtain ⟨w, hw, made⟩ := ih others z hz
      exact ⟨w, List.mem_cons_of_mem x hw, made⟩

theorem map_of_mapM {f : α → Except ε β} {g : β → γ} {k : α → γ}
    (each : ∀ {x y}, f x = .ok y → g y = k x) {xs : List α} {ys : List β}
    (h : xs.mapM f = .ok ys) : ys.map g = xs.map k := by
  induction xs generalizing ys with
  | nil =>
    cases h
    rfl
  | cons x rest ih =>
    obtain ⟨y, more, here, others, rfl⟩ := mapM_cons_eq_ok.mp h
    rw [List.map_cons, List.map_cons, each here, ih others]

theorem flatMap_of_mapM {f : α → Except ε β} {g : β → List γ} {k : α → List γ}
    (each : ∀ {x y}, f x = .ok y → g y = k x) {xs : List α} {ys : List β}
    (h : xs.mapM f = .ok ys) : ys.flatMap g = xs.flatMap k := by
  rw [List.flatMap_def, List.flatMap_def, map_of_mapM each h]

theorem mapM_eq_some_iff {f : α → Option β} {xs : List α} {ys : List β} :
    xs.mapM f = some ys ↔ List.Forall₂ (fun x y => f x = some y) xs ys := by
  induction xs generalizing ys with
  | nil => simp [eq_comm]
  | cons x xs ih =>
    simp only [List.mapM_cons, Option.bind_eq_bind, Option.bind_eq_some_iff, ih, Option.pure_def,
      Option.some.injEq, List.forall₂_cons_left_iff]
    constructor
    · rintro ⟨y, here, more, others, rfl⟩
      exact ⟨y, more, here, others, rfl⟩
    · rintro ⟨y, more, here, others, rfl⟩
      exact ⟨y, here, more, others, rfl⟩

/-- The run ends in a result or in an error of some kind. -/
def Raises (P : ε → Prop) (r : Except ε α) : Prop :=
  ∀ e, r = .error e → P e

namespace Raises

variable {P : ε → Prop}

theorem ok (a : α) : Raises P (.ok a) := by
  rintro e ⟨⟩

theorem error {e : ε} (h : P e) : Raises P (.error e : Except ε α) := by
  rintro e ⟨⟩
  exact h

theorem bind {r : Except ε α} {k : α → Except ε β} (hr : Raises P r)
    (hk : ∀ a, r = .ok a → Raises P (k a)) : Raises P (r >>= k) := by
  cases r with
  | error e => exact error (hr e rfl)
  | ok a => exact hk a rfl

theorem map {r : Except ε α} (hr : Raises P r) (f : α → β) : Raises P (f <$> r) := by
  cases r with
  | error e => exact error (hr e rfl)
  | ok a => exact ok (f a)

end Raises

end ReadPlan
