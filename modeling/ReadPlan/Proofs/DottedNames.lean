import ReadPlan.Binding

namespace ReadPlan

theorem chain_cons {separator s : String} {rest : List String} (more : rest ≠ []) :
    chain separator (s :: rest) = s ++ separator ++ chain separator rest := by
  cases rest with
  | nil => contradiction
  | cons => rfl

theorem chain_concat {separator : String} {xs : List String} (more : xs ≠ []) (x : String) :
    chain separator (xs ++ [x]) = chain separator xs ++ separator ++ x := by
  induction xs with
  | nil => contradiction
  | cons y rest ih =>
    cases rest with
    | nil => rfl
    | cons z rest =>
      rw [List.cons_append, chain_cons (by simp), chain_cons (by simp), ih (by simp)]
      simp only [String.append_assoc]

theorem isDotted_eq_false {name : String} : isDotted name = false ↔ '.' ∉ name.toList := by
  simp [isDotted]

theorem splitDots_plain {cs : List Char} (plain : '.' ∉ cs) : splitDots cs = [cs] := by
  induction cs with
  | nil => rfl
  | cons c rest ih =>
    rw [List.mem_cons, not_or] at plain
    rw [splitDots, if_neg (Ne.symm plain.1), ih plain.2]

theorem splitDots_append {cs : List Char} (plain : '.' ∉ cs) (rest : List Char) :
    splitDots (cs ++ '.' :: rest) = cs :: splitDots rest := by
  induction cs with
  | nil => simp [splitDots]
  | cons c cs ih =>
    rw [List.mem_cons, not_or] at plain
    rw [List.cons_append, splitDots, if_neg (Ne.symm plain.1), ih plain.2]

theorem dottedPath_cons_toList {name : String} {rest : List String} (more : rest ≠ []) :
    (dottedPath (name :: rest)).toList = name.toList ++ '.' :: (dottedPath rest).toList := by
  rw [dottedPath, chain_cons more]
  simp [dottedPath]

theorem splitDots_dottedPath {names : List String} (more : names ≠ [])
    (plain : ∀ name ∈ names, isDotted name = false) :
    (splitDots (dottedPath names).toList).map String.ofList = names := by
  induction names with
  | nil => contradiction
  | cons name rest ih =>
    obtain ⟨first, others⟩ := List.forall_mem_cons.mp plain
    have letters := isDotted_eq_false.mp first
    by_cases last : rest = []
    · subst last
      rw [dottedPath, chain, splitDots_plain letters]
      simp
    · rw [dottedPath_cons_toList last, splitDots_append letters, List.map_cons, ih last others,
        String.ofList_toList]

theorem dottedPath_inj {xs ys : List String} (hx : ∀ x ∈ xs, isDotted x = false)
    (hy : ∀ y ∈ ys, isDotted y = false) (nx : xs ≠ []) (ny : ys ≠ [])
    (h : dottedPath xs = dottedPath ys) : xs = ys := by
  rw [← splitDots_dottedPath nx hx, h, splitDots_dottedPath ny hy]

namespace Reference

theorem ofString_dottedPath {names : List String} {field : String}
    (plain : ∀ name ∈ names ++ [field], isDotted name = false) :
    ofString (dottedPath (names ++ [field])) = ⟨names, field⟩ := by
  rw [ofString, splitDots_dottedPath (by simp) plain]
  simp

theorem ofString_undotted {s : String} (undotted : isDotted s = false) : ofString s = ⟨[], s⟩ := by
  rw [ofString, splitDots_plain (isDotted_eq_false.mp undotted)]
  simp

theorem path_eq_nil_iff {s : String} : (ofString s).path = [] ↔ isDotted s = false := by
  cases dotted : isDotted s with
  | false => simp [ofString_undotted dotted]
  | true =>
    have dot : '.' ∈ s.toList := by simpa [isDotted] using dotted
    obtain ⟨before, after, whole, plain⟩ := List.eq_append_cons_of_mem dot
    have more : (splitDots after).map String.ofList ≠ [] := by simpa using splitDots_ne_nil after
    simp [ofString, whole, splitDots_append plain, List.dropLast_cons_of_ne_nil more]

end Reference

end ReadPlan
