import Mathlib

/-! # Cutting a list into consecutive slices

`groupSlices xs sizes` cuts `xs` into slices of the given sizes, from its front. Where the sizes add up
to the length of `xs` nothing is left over and every slice has its size. Two lists that are cut alike can
be cut as one list of pairs (`zip_groupSlices`). A first part of a concatenation reaches every slice if
it is longer than all slices but the last (`exists_mem_take_flatten`). -/

namespace Chronoq.Foundations

set_option autoImplicit false

variable {α β : Type}

/-- The consecutive slices of the given sizes. -/
def groupSlices (xs : List α) : List ℕ → List (List α)
  | [] => []
  | size :: sizes => xs.take size :: groupSlices (xs.drop size) sizes

theorem groupSlices_map (f : α → β) (xs : List α) (sizes : List ℕ) :
    groupSlices (xs.map f) sizes = (groupSlices xs sizes).map (List.map f) := by
  induction sizes generalizing xs with
  | nil => rfl
  | cons size sizes ih =>
    rw [groupSlices, groupSlices, List.map_cons, List.map_take, ← List.map_drop, ih]

theorem groupSlices_zip (xs : List α) (ys : List β) (sizes : List ℕ) :
    groupSlices (xs.zip ys) sizes =
      List.zipWith List.zip (groupSlices xs sizes) (groupSlices ys sizes) := by
  induction sizes generalizing xs ys with
  | nil => rfl
  | cons size sizes ih =>
    rw [groupSlices, groupSlices, groupSlices, List.zipWith_cons_cons, ← ih]
    simp only [List.zip, List.take_zipWith, List.drop_zipWith]

theorem map_length_groupSlices {xs : List α} {sizes : List ℕ} (h : sizes.sum ≤ xs.length) :
    (groupSlices xs sizes).map List.length = sizes := by
  induction sizes generalizing xs with
  | nil => rfl
  | cons size sizes ih =>
    rw [List.sum_cons] at h
    have hrest : sizes.sum ≤ (xs.drop size).length := by
      rw [List.length_drop]
      omega
    rw [groupSlices, List.map_cons, ih hrest, List.length_take, Nat.min_eq_left (by omega)]

/-- The slices of two lists side by side, with their sizes, are those of the zipped list. -/
theorem zip_groupSlices {xs : List α} {ys : List β} {sizes : List ℕ} (hx : sizes.sum ≤ xs.length)
    (hy : sizes.sum ≤ ys.length) :
    sizes.zip ((groupSlices xs sizes).zip (groupSlices ys sizes)) =
      (groupSlices (xs.zip ys) sizes).map fun rows =>
        (rows.length, rows.map Prod.fst, rows.map Prod.snd) := by
  induction sizes generalizing xs ys with
  | nil => rfl
  | cons size sizes ih =>
    rw [List.sum_cons] at hx hy
    have hx' : sizes.sum ≤ (xs.drop size).length := by
      rw [List.length_drop]
      omega
    have hy' : sizes.sum ≤ (ys.drop size).length := by
      rw [List.length_drop]
      omega
    have htake : (xs.take size).length = (ys.take size).length := by
      rw [List.length_take, List.length_take]
      omega
    have hslice : (xs.zip ys).take size = (xs.take size).zip (ys.take size) := List.take_zipWith
    have hrest : (xs.zip ys).drop size = (xs.drop size).zip (ys.drop size) := List.drop_zipWith
    rw [groupSlices, groupSlices, groupSlices, List.map_cons, List.zip_cons_cons, List.zip_cons_cons,
      ih hx' hy', hrest, hslice, List.map_fst_zip htake.le, List.map_snd_zip htake.ge,
      List.length_zip, List.length_take, List.length_take]
    congr 2
    omega

theorem groupSlices_flatten (groups : List (List α)) :
    groupSlices groups.flatten (groups.map List.length) = groups := by
  induction groups with
  | nil => rfl
  | cons group groups ih =>
    rw [List.map_cons, groupSlices, List.flatten_cons, List.take_left, List.drop_left, ih]

theorem exists_mem_take_flatten {parts : List (List α)} (hne : ∀ part ∈ parts, part ≠ []) {n : ℕ}
    (h : parts.dropLast.flatten.length < n) :
    ∀ part ∈ parts, ∃ x ∈ part, x ∈ parts.flatten.take n := by
  induction parts generalizing n with
  | nil =>
    intro part hpart
    cases hpart
  | cons part parts ih =>
    rw [List.forall_mem_cons] at hne ⊢
    obtain ⟨x, hx⟩ := List.exists_mem_of_ne_nil part hne.1
    rw [List.flatten_cons, List.take_append]
    rcases eq_or_ne parts [] with rfl | hparts
    · refine ⟨?_, by simp⟩
      obtain ⟨x, rest, rfl⟩ := List.exists_cons_of_ne_nil hne.1
      have hpos : 0 < n := by simpa using h
      obtain ⟨m, rfl⟩ := Nat.exists_eq_succ_of_ne_zero hpos.ne'
      exact ⟨x, List.mem_cons_self, by simp⟩
    · rw [List.dropLast_cons_of_ne_nil hparts, List.flatten_cons, List.length_append] at h
      have hwhole : part.take n = part := List.take_of_length_le (by omega)
      refine ⟨⟨x, hx, List.mem_append_left _ (by rwa [hwhole])⟩, fun part' hpart' => ?_⟩
      obtain ⟨y, hy, hmem⟩ := ih hne.2 (n := n - part.length) (by omega) part' hpart'
      exact ⟨y, hy, List.mem_append_right _ hmem⟩

theorem exists_part_of_mem_take {parts : List (List α)} {part : List α} {n : ℕ}
    (h : n ≤ parts.flatten.length) {x : α} (hx : x ∈ (parts ++ [part]).flatten.take n) :
    ∃ part' ∈ parts, x ∈ part' := by
  rw [List.flatten_append, List.take_append_of_le_length h] at hx
  exact List.mem_flatten.mp (List.mem_of_mem_take hx)

end Chronoq.Foundations
