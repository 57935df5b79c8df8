import ReadPlan.Proofs.Outcome
import Mathlib.Data.List.Forall2
import Mathlib.Data.Multiset.Bind
import Mathlib.Data.Multiset.ZeroCons

namespace ReadPlan

variable {α β γ δ ε : Type}

/-- The elements are related one to one, in some order. -/
def Matched (R : α → β → Prop) (xs : List α) (ys : List β) : Prop :=
  Multiset.Rel R xs ys

namespace Matched

variable {R : α → β → Prop} {S : γ → δ → Prop} {xs xs' : List α} {ys ys' : List β}

theorem nil : Matched R [] [] :=
  Multiset.Rel.zero

theorem cons {x : α} {y : β} (first : R x y) (rest : Matched R xs ys) :
    Matched R (x :: xs) (y :: ys) :=
  Multiset.Rel.cons first rest

theorem reorder (h : Matched R xs ys) (left : xs.Perm xs') (right : ys.Perm ys') :
    Matched R xs' ys' := by
  rw [Matched, ← Multiset.coe_eq_coe.mpr left, ← Multiset.coe_eq_coe.mpr right]
  exact h

theorem nil_iff : Matched R [] ys ↔ ys = [] := by
  rw [Matched, Multiset.coe_nil, Multiset.rel_zero_left, Multiset.coe_eq_zero]

theorem cons_iff {x : α} : Matched R (x :: xs) ys ↔
    ∃ y more, ys.Perm (y :: more) ∧ R x y ∧ Matched R xs more := by
  constructor
  · intro h
    rw [Matched, ← Multiset.cons_coe, Multiset.rel_cons_left] at h
    obtain ⟨y, more, first, rest, whole⟩ := h
    induction more using Quotient.inductionOn with
    | h more => exact ⟨y, more, Multiset.coe_eq_coe.mp whole, first, rest⟩
  · rintro ⟨y, more, moved, first, rest⟩
    exact (rest.cons first).reorder (.refl _) moved.symm

theorem mono {T : α → β → Prop} (h : Matched R xs ys)
    (next : ∀ x ∈ xs, ∀ y ∈ ys, R x y → T x y) : Matched T xs ys :=
  Multiset.Rel.mono h next

theorem append (first : Matched R xs ys) (second : Matched R xs' ys') :
    Matched R (xs ++ xs') (ys ++ ys') := by
  rw [Matched, ← Multiset.coe_add, ← Multiset.coe_add]
  exact Multiset.Rel.add first second

theorem flatMap {f : α → List γ} {g : β → List δ} (h : Matched R xs ys)
    (each : ∀ x y, R x y → Matched S (f x) (g y)) :
    Matched S (xs.flatMap f) (ys.flatMap g) := by
  rw [Matched, ← Multiset.coe_bind, ← Multiset.coe_bind]
  exact Multiset.rel_bind (fun x y => each x y) h

theorem map {f : α → γ} {g : β → δ} (h : Matched R xs ys) (each : ∀ x y, R x y → S (f x) (g y)) :
    Matched S (xs.map f) (ys.map g) := by
  rw [Matched, ← Multiset.map_coe, ← Multiset.map_coe, Multiset.rel_map]
  exact h.mono fun x _ y _ => each x y

theorem eq_iff {xs ys : List α} : Matched Eq xs ys ↔ xs.Perm ys := by
  rw [Matched, Multiset.rel_eq, Multiset.coe_eq_coe]

theorem of_map {f : α → γ} {g : β → γ} (h : (xs.map f).Perm (ys.map g)) :
    Matched (fun x y => f x = g y) xs ys := by
  rw [Matched, ← Multiset.rel_map, Multiset.rel_eq, Multiset.map_coe, Multiset.map_coe,
    Multiset.coe_eq_coe]
  exact h

theorem map_perm {f : α → γ} {g : β → γ} (h : Matched R xs ys) (each : ∀ x y, R x y → f x = g y) :
    (xs.map f).Perm (ys.map g) :=
  eq_iff.mp (h.map each)

theorem length_eq (h : Matched R xs ys) : xs.length = ys.length :=
  Multiset.card_eq_card_of_rel h

theorem refl {R : α → α → Prop} (each : ∀ x ∈ xs, R x x) : Matched R xs xs :=
  Multiset.rel_refl_of_refl_on each

end Matched

/-- Both fail, or both have results, which are related. -/
inductive Accord (R : α → β → Prop) : Except ε α → Except ε β → Prop
  | ok {a : α} {b : β} (related : R a b) : Accord R (.ok a) (.ok b)
  | error {e e' : ε} : Accord R (.error e) (.error e')

namespace Accord

variable {R : α → β → Prop} {S : γ → δ → Prop} {x : Except ε α} {y : Except ε β}

theorem bind {f : α → Except ε γ} {g : β → Except ε δ} (h : Accord R x y)
    (next : ∀ a b, R a b → Accord S (f a) (g b)) : Accord S (x >>= f) (y >>= g) := by
  cases h with
  | ok related => exact next _ _ related
  | error => exact .error

theorem map {f : α → γ} {g : β → δ} (h : Accord R x y) (next : ∀ a b, R a b → S (f a) (g b)) :
    Accord S (f <$> x) (g <$> y) := by
  cases h with
  | ok related => exact .ok (next _ _ related)
  | error => exact .error

theorem trans {z : Except ε γ} {T : β → γ → Prop} {U : α → γ → Prop} (h : Accord R x y)
    (h' : Accord T y z) (both : ∀ a b c, R a b → T b c → U a c) : Accord U x z := by
  cases h with
  | ok related =>
    cases h' with
    | ok next => exact .ok (both _ _ _ related next)
  | error =>
    cases h' with
    | error => exact .error

theorem refl {R : α → α → Prop} (same : ∀ a, R a a) (x : Except ε α) : Accord R x x := by
  cases x with
  | error e => exact .error
  | ok a => exact .ok (same a)

theorem mapM {P : α → γ → Prop} {R : β → δ → Prop} {f : α → Except ε β} {g : γ → Except ε δ}
    (each : ∀ x y, P x y → Accord R (f x) (g y)) {xs : List α} {ys : List γ}
    (h : List.Forall₂ P xs ys) : Accord (List.Forall₂ R) (xs.mapM f) (ys.mapM g) := by
  induction h with
  | nil => exact .ok .nil
  | @cons x y xs ys first _ ih =>
    rw [List.mapM_cons, List.mapM_cons]
    refine (each x y first).bind fun a b here => ?_
    exact ih.bind fun as bs more => .ok (.cons here more)

theorem mapM_perm (f : α → Except ε β) {xs ys : List α} (h : xs.Perm ys) :
    Accord List.Perm (xs.mapM f) (ys.mapM f) := by
  induction h with
  | nil => exact .ok (.refl _)
  | @cons x xs ys _ ih =>
    rw [List.mapM_cons, List.mapM_cons]
    refine (refl (R := Eq) (fun _ => rfl) (f x)).bind ?_
    rintro a _ rfl
    exact ih.bind fun as bs related => .ok (related.cons a)
  | swap x y xs =>
    simp only [List.mapM_cons]
    cases f x with
    | error e => cases f y <;> exact .error
    | ok a =>
      cases f y with
      | error e => exact .error
      | ok b =>
        cases xs.mapM f with
        | error e => exact .error
        | ok as => exact .ok (.swap a b as)
  | trans _ _ first second => exact first.trans second fun _ _ _ => List.Perm.trans

end Accord

end ReadPlan
