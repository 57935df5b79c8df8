import ReadPlan.Plan.Basic

namespace ReadPlan

inductive Truth
  | no | unknown | yes
  deriving DecidableEq

namespace Truth

def not : Truth → Truth
  | no => yes
  | unknown => unknown
  | yes => no

def and : Truth → Truth → Truth
  | no, _ | _, no => no
  | yes, yes => yes
  | _, _ => unknown

def or : Truth → Truth → Truth
  | yes, _ | _, yes => yes
  | no, no => no
  | _, _ => unknown

def all (ts : List Truth) : Truth :=
  ts.foldr and yes

def any (ts : List Truth) : Truth :=
  ts.foldr or no

@[simp] theorem and_yes (t : Truth) : and t yes = t := by cases t <;> rfl

@[simp] theorem or_no (t : Truth) : or t no = t := by cases t <;> rfl

@[simp] theorem all_singleton (t : Truth) : all [t] = t := and_yes t

@[simp] theorem any_singleton (t : Truth) : any [t] = t := or_no t

theorem and_assoc (s t u : Truth) : (s.and t).and u = s.and (t.and u) := by
  cases s <;> cases t <;> cases u <;> rfl

theorem all_append (ts us : List Truth) : all (ts ++ us) = (all ts).and (all us) := by
  induction ts with
  | nil =>
    have none : (all []).and (all us) = yes.and (all us) := rfl
    rw [List.nil_append, none]
    cases all us <;> rfl
  | cons t rest ih =>
    have whole : all (t :: rest ++ us) = t.and (all (rest ++ us)) := rfl
    rw [whole, ih, ← and_assoc]
    rfl

theorem any_of_mem {ts : List Truth} (h : yes ∈ ts) : any ts = yes := by
  induction ts with
  | nil => cases h
  | cons t rest ih =>
    have whole : any (t :: rest) = t.or (any rest) := rfl
    rcases List.mem_cons.mp h with rfl | h
    · rfl
    · rw [whole, ih h]
      cases t <;> rfl

end Truth

def Combinator.truth (op : Combinator) (ts : List Truth) : Truth :=
  match op with
  | .and => .all ts
  | .or => .any ts
  | .not => (Truth.all ts).not

/-- An assignment of truths to comparisons and fragments, and to the search terms that no column is
bound to. -/
structure Valuation where
  comparison : Comparison → Truth
  fragment : String → FragmentScope → Truth
  pattern : String → Truth

mutual

def Predicate.truth (v : Valuation) : Predicate → Truth
  | .comparison c | .qualified _ c => v.comparison c
  | .logical op children => op.truth (predicateTruths v children)
  | .fragment sql scope => v.fragment sql scope
  | .globalPattern pattern => v.pattern pattern

def predicateTruths (v : Valuation) : List Predicate → List Truth
  | [] => []
  | p :: rest => p.truth v :: predicateTruths v rest

end

/-- The truth of a part, for the part around it: nothing when nothing is in it. -/
def Truth.ofPart (occupied : Bool) (t : Truth) : List Truth :=
  if occupied then [t] else []

theorem Truth.ofPart_append_isEmpty (occupied : Bool) (t : Truth) (ts : List Truth) :
    (Truth.ofPart occupied t ++ ts).isEmpty = (!occupied && ts.isEmpty) := by
  cases occupied <;> rfl

section

variable (v : Valuation)

@[simp] theorem predicateTruths_append (ps qs : List Predicate) :
    predicateTruths v (ps ++ qs) = predicateTruths v ps ++ predicateTruths v qs := by
  induction ps with
  | nil => rfl
  | cons p rest ih => simp only [List.cons_append, predicateTruths, ih]

theorem truths_all (ps : List Predicate) :
    predicateTruths v (Predicate.all ps).toList =
      Truth.ofPart (!(predicateTruths v ps).isEmpty) (.all (predicateTruths v ps)) := by
  match ps with
  | [] => rfl
  | [p] => simp [Predicate.all, predicateTruths, Truth.ofPart]
  | p :: q :: rest =>
    simp [Predicate.all, predicateTruths, Predicate.truth, Truth.ofPart, Combinator.truth]

theorem truths_combine (op : Combinator) (ps : List Predicate) :
    predicateTruths v (Predicate.combine op ps).toList =
      Truth.ofPart (!(predicateTruths v ps).isEmpty) (op.truth (predicateTruths v ps)) := by
  cases op with
  | and => exact truths_all v ps
  | or =>
    match ps with
    | [] => rfl
    | [p] => simp [Predicate.combine, predicateTruths, Truth.ofPart, Combinator.truth]
    | p :: q :: rest =>
      simp [Predicate.combine, predicateTruths, Predicate.truth, Truth.ofPart]
  | not =>
    match ps with
    | [] => rfl
    | [p] =>
      simp [Predicate.combine, Predicate.all, predicateTruths, Predicate.truth, Truth.ofPart]
    | p :: q :: rest =>
      simp [Predicate.combine, Predicate.all, predicateTruths, Predicate.truth, Truth.ofPart,
        Combinator.truth]

end

end ReadPlan
