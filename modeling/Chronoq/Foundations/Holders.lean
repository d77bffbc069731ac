import Mathlib

/-! # Tokens in the hands of a list of holders

Every element of a list holds at most one token, `f x`. Setting one element exchanges its token for
another (`count_filterMap_set`), and a token that occurs once is held at exactly one index
(`existsUnique_holder`). -/

namespace Chronoq.Foundations

set_option autoImplicit false

variable {α β : Type} {f : α → Option β} {l : List α} {i : ℕ} {x : α} {b : β}

theorem exists_holder_iff : b ∈ l.filterMap f ↔ ∃ (i : ℕ) (x : α), l[i]? = some x ∧ f x = some b := by
  rw [List.mem_filterMap]
  constructor
  · rintro ⟨x, hx, hb⟩
    obtain ⟨i, hi⟩ := List.mem_iff_getElem?.mp hx
    exact ⟨i, x, hi, hb⟩
  · rintro ⟨i, x, hi, hb⟩
    exact ⟨x, List.mem_of_getElem? hi, hb⟩

variable [DecidableEq β]

theorem count_toList (o : Option β) (b : β) : o.toList.count b = if o = some b then 1 else 0 := by
  cases o with
  | none => rfl
  | some c => simp [List.count_singleton]

theorem count_filterMap_cons (f : α → Option β) (x : α) (l : List α) (b : β) :
    ((x :: l).filterMap f).count b = (f x).toList.count b + (l.filterMap f).count b := by
  rw [List.filterMap_cons]
  cases f x with
  | none => simp
  | some c => rw [Option.toList_some, ← List.count_append, List.singleton_append]

/-- Setting an element gives up its token and takes another. -/
theorem count_filterMap_set (h : l[i]? = some x) (y : α) (b : β) :
    ((l.set i y).filterMap f).count b + (f x).toList.count b =
      (l.filterMap f).count b + (f y).toList.count b := by
  induction l generalizing i with
  | nil => cases h
  | cons z l ih =>
    cases i with
    | zero =>
      obtain rfl := Option.some.inj h
      rw [List.set_cons_zero, count_filterMap_cons, count_filterMap_cons]
      omega
    | succ i =>
      have hrest := ih h
      rw [List.set_cons_succ, count_filterMap_cons, count_filterMap_cons]
      omega

/-- Two indices that hold a token are two occurrences of it. -/
theorem holder_unique (h : (l.filterMap f).count b ≤ 1) {j : ℕ} {y : α} (hi : l[i]? = some x)
    (hj : l[j]? = some y) (hx : f x = some b) (hy : f y = some b) : i = j := by
  induction l generalizing i j with
  | nil => cases hi
  | cons z l ih =>
    rw [count_filterMap_cons] at h
    have hnone : ∀ {k : ℕ} {w : α}, l[k]? = some w → f w = some b → f z ≠ some b := by
      intro k w hk hw hz
      have hmem : b ∈ l.filterMap f := exists_holder_iff.mpr ⟨k, w, hk, hw⟩
      have hpos := List.count_pos_iff.mpr hmem
      rw [count_toList, if_pos hz] at h
      omega
    cases i with
    | zero =>
      obtain rfl := Option.some.inj hi
      cases j with
      | zero => rfl
      | succ j => exact absurd hx (hnone hj hy)
    | succ i =>
      cases j with
      | zero =>
        obtain rfl := Option.some.inj hj
        exact absurd hy (hnone hi hx)
      | succ j => rw [ih (by omega) hi hj]

theorem existsUnique_holder (h : (l.filterMap f).count b = 1) :
    ∃! i : ℕ, ∃ x, l[i]? = some x ∧ f x = some b := by
  have hmem : b ∈ l.filterMap f := List.count_pos_iff.mp (by omega)
  obtain ⟨i, x, hi, hx⟩ := exists_holder_iff.mp hmem
  refine ⟨i, ⟨x, hi, hx⟩, ?_⟩
  rintro j ⟨y, hj, hy⟩
  exact holder_unique (by omega) hj hi hy hx

end Chronoq.Foundations
