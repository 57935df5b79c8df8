import ReadPlan.Json.Basic
import Mathlib.Data.List.Nodup
import Mathlib.Data.String.Basic

namespace ReadPlan

namespace Keyed

variable {α : Type}

theorem get?_eq_none {key : String} {pairs : List (String × α)} :
    get? key pairs = none ↔ key ∉ pairs.map (·.1) := by
  rw [get?, Option.map_eq_none_iff, List.find?_eq_none]
  constructor
  · intro absent known
    obtain ⟨pair, hp, rfl⟩ := List.mem_map.mp known
    exact absent pair hp (by simp)
  · intro absent pair hp same
    exact absent (List.mem_map.mpr ⟨pair, hp, by simpa using same⟩)

theorem mem_of_get? {key : String} {pairs : List (String × α)} {x : α}
    (h : get? key pairs = some x) : (key, x) ∈ pairs := by
  obtain ⟨⟨k, _⟩, found, rfl⟩ := Option.map_eq_some_iff.mp h
  have same : k = key := by simpa using List.find?_some found
  exact same ▸ List.mem_of_find?_eq_some found

theorem put_fresh {key : String} {value : α} {done : List (String × α)}
    (fresh : key ∉ done.map (·.1)) : put key value done = done ++ [(key, value)] := by
  induction done with
  | nil => rfl
  | cons pair rest ih =>
    obtain ⟨apart, others⟩ := not_or.mp (mt List.mem_cons.mpr fresh)
    simp [put, Ne.symm apart, ih others]

theorem put_known {key : String} {value : α} {done : List (String × α)}
    (known : key ∈ done.map (·.1)) : (put key value done).map (·.1) = done.map (·.1) := by
  induction done with
  | nil => cases known
  | cons pair rest ih =>
    by_cases here : pair.1 = key
    · simp [put, here]
    · have later : key ∈ rest.map (·.1) := (List.mem_cons.mp known).resolve_left (Ne.symm here)
      simp [put, here, ih later]

theorem mem_put {key : String} {value : α} {done : List (String × α)} {p : String × α}
    (h : p ∈ put key value done) : p = (key, value) ∨ p ∈ done := by
  induction done with
  | nil => exact .inl (List.mem_singleton.mp h)
  | cons pair rest ih =>
    by_cases here : pair.1 = key
    · rw [put, if_pos (by simpa using here)] at h
      rcases List.mem_cons.mp h with rfl | later
      · exact .inl (by rw [here])
      · exact .inr (List.mem_cons_of_mem _ later)
    · rw [put, if_neg (by simpa using here)] at h
      rcases List.mem_cons.mp h with rfl | later
      · exact .inr List.mem_cons_self
      · exact (ih later).imp_right (List.mem_cons_of_mem _)

theorem put_nodup (key : String) (value : α) {done : List (String × α)}
    (distinct : (done.map (·.1)).Nodup) : ((put key value done).map (·.1)).Nodup := by
  by_cases known : key ∈ done.map (·.1)
  · rwa [put_known known]
  · rw [put_fresh known, List.map_append]
    refine distinct.append (List.nodup_singleton key) ?_
    intro k hk same
    cases List.mem_singleton.mp same
    exact known hk

theorem merge_induction {P : List (String × α) → Prop} {pairs : List (String × α)} (nothing : P [])
    (step : ∀ done, P done → ∀ pair ∈ pairs, P (put pair.1 pair.2 done)) : P (merge pairs) :=
  List.foldlRecOn pairs _ nothing fun done held pair member => step done held pair member

theorem merge_nodup (pairs : List (String × α)) : ((merge pairs).map (·.1)).Nodup := by
  apply merge_induction (P := fun done => (done.map (·.1)).Nodup) List.nodup_nil
  intro done distinct pair _
  exact put_nodup pair.1 pair.2 distinct

theorem merge_subset (pairs : List (String × α)) : merge pairs ⊆ pairs := by
  apply merge_induction (P := fun done => done ⊆ pairs) (List.nil_subset _)
  intro done within pair member p hp
  rcases mem_put hp with rfl | old
  · exact member
  · exact within old

/-- Adding elements one by one appends them where each one is new to those before. -/
theorem foldl_eq_append {β : Type} {add : List β → β → List β} {P : List β → Prop}
    (step : ∀ done x rest, P (done ++ x :: rest) → add done x = done ++ [x]) (done rest : List β)
    (h : P (done ++ rest)) : rest.foldl add done = done ++ rest := by
  induction rest generalizing done with
  | nil => simp
  | cons x rest ih =>
    rw [List.foldl_cons, step done x rest h, ih _ (by simpa using h)]
    simp

theorem merge_of_nodup {pairs : List (String × α)} (distinct : (pairs.map (·.1)).Nodup) :
    merge pairs = pairs := by
  refine foldl_eq_append (P := fun ps => (ps.map (·.1)).Nodup) ?_ [] pairs distinct
  intro done pair rest distinct
  refine put_fresh fun known => ?_
  rw [List.map_append, List.nodup_append'] at distinct
  exact distinct.2.2 known (by simp)

theorem mem_insert {key : String} {value : α} {done : List (String × α)} {p : String × α}
    (h : p ∈ insert key value done) : p = (key, value) ∨ p ∈ done := by
  induction done with
  | nil => exact .inl (List.mem_singleton.mp h)
  | cons pair rest ih =>
    rw [insert] at h
    split at h
    · exact (List.mem_cons.mp h).imp_right (List.mem_cons_of_mem _)
    split at h
    · exact List.mem_cons.mp h
    · rcases List.mem_cons.mp h with rfl | later
      · exact .inr List.mem_cons_self
      · exact (ih later).imp_right (List.mem_cons_of_mem _)

def Ascending (pairs : List (String × α)) : Prop :=
  pairs.Pairwise fun p q => p.1 < q.1

theorem Ascending.insert (key : String) (value : α) {done : List (String × α)}
    (ordered : Ascending done) : Ascending (insert key value done) := by
  induction done with
  | nil => exact List.pairwise_singleton _ _
  | cons pair rest ih =>
    obtain ⟨first, others⟩ := List.pairwise_cons.mp ordered
    rw [Keyed.insert]
    split
    · rename_i same
      exact List.pairwise_cons.mpr ⟨by simpa [eq_of_beq same] using first, others⟩
    split
    · rename_i before
      refine List.pairwise_cons.mpr ⟨List.forall_mem_cons.mpr ⟨before, fun p hp => ?_⟩, ordered⟩
      exact before.trans (first p hp)
    · rename_i apart before
      have after : pair.1 < key :=
        lt_of_le_of_ne (not_lt.mp before) fun same => apart (by simp [same])
      refine List.pairwise_cons.mpr ⟨fun p hp => ?_, ih others⟩
      rcases mem_insert hp with rfl | later
      · exact after
      · exact first p later

theorem sorted_ascending (pairs : List (String × α)) : Ascending (sorted pairs) :=
  List.foldlRecOn pairs _ List.Pairwise.nil fun _ ordered pair _ => ordered.insert pair.1 pair.2

theorem insert_last {key : String} {value : α} {done : List (String × α)}
    (last : ∀ p ∈ done, p.1 < key) : insert key value done = done ++ [(key, value)] := by
  induction done with
  | nil => rfl
  | cons pair rest ih =>
    obtain ⟨first, others⟩ := List.forall_mem_cons.mp last
    rw [Keyed.insert, if_neg (by simpa using first.ne'), if_neg first.asymm, ih others]
    rfl

theorem sorted_of_ascending {pairs : List (String × α)} (ordered : Ascending pairs) :
    sorted pairs = pairs := by
  refine foldl_eq_append (P := Ascending) ?_ [] pairs ordered
  intro done pair rest ordered
  refine insert_last fun p hp => ?_
  exact (List.pairwise_append.mp ordered).2.2 p hp pair List.mem_cons_self

theorem merge_merge (pairs : List (String × α)) : merge (merge pairs) = merge pairs :=
  merge_of_nodup (merge_nodup pairs)

end Keyed

namespace Json

theorem mergedMembers_eq_map (ms : Members) :
    mergedMembers ms = ms.map fun m => (m.1, m.2.merged) := by
  induction ms with
  | nil => rfl
  | cons m rest ih => rw [mergedMembers, ih, List.map_cons]

theorem mergedItems_eq_map (vs : List Json) : mergedItems vs = vs.map merged := by
  induction vs with
  | nil => rfl
  | cons v rest ih => rw [mergedItems, ih, List.map_cons]

mutual

theorem merged_merged : (v : Json) → v.merged.merged = v.merged
  | .null | .bool _ | .int _ | .float _ | .str _ => rfl
  | .arr items => by
    rw [merged, merged, mergedItems_mergedItems items]
  | .obj ms => by
    have fixed : mergedMembers (Keyed.merge (mergedMembers ms)) =
        Keyed.merge (mergedMembers ms) := by
      rw [mergedMembers_eq_map]
      refine List.map_congr_left (g := id) (fun m hm => ?_) |>.trans (List.map_id _)
      have settled := merged_of_mem_mergedMembers ms m (Keyed.merge_subset _ hm)
      exact Prod.ext rfl settled
    rw [merged, merged, fixed, Keyed.merge_merge]

theorem mergedItems_mergedItems : (vs : List Json) →
    mergedItems (mergedItems vs) = mergedItems vs
  | [] => rfl
  | v :: rest => by
    rw [mergedItems, mergedItems, merged_merged v, mergedItems_mergedItems rest]

theorem merged_of_mem_mergedMembers : (ms : Members) →
    ∀ m ∈ mergedMembers ms, m.2.merged = m.2
  | [], _, h => by cases h
  | (k, v) :: rest, m, h => by
    rcases List.mem_cons.mp h with rfl | later
    · exact merged_merged v
    · exact merged_of_mem_mergedMembers rest m later

end

end Json

end ReadPlan
