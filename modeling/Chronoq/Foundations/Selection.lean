import Mathlib

/-! # Taking the least element out of a list

A priority queue seen through its two guarantees: `pushed` adds an element, `extractLeast key` takes
out an element of least `key` and leaves the others. A list stands for the queue's contents; its
order carries no meaning, so every statement is about permutations or multisets.
-/

namespace Chronoq.Foundations

set_option autoImplicit false

variable {α κ : Type*} [LinearOrder κ] (key : α → κ)

/-- An element of least key (the earliest such) and the remaining elements. -/
def extractLeast : List α → Option (α × List α)
  | [] => none
  | a :: as =>
    match extractLeast as with
    | none => some (a, [])
    | some (b, bs) => if key a ≤ key b then some (a, as) else some (b, a :: bs)

@[simp] theorem extractLeast_nil : extractLeast key [] = none := rfl

theorem extractLeast_eq_none_iff {l : List α} : extractLeast key l = none ↔ l = [] := by
  cases l with
  | nil => simp
  | cons a as =>
    cases h : extractLeast key as with
    | none => simp [extractLeast, h]
    | some p => by_cases hle : key a ≤ key p.1 <;> simp [extractLeast, h, hle]

/-- Either the head is taken, which is least, or what is taken from the tail, which is less. -/
theorem extractLeast_cons_cases {b a : α} {bs rest : List α}
    (h : extractLeast key (b :: bs) = some (a, rest)) :
    (a = b ∧ rest = bs ∧ ∀ c cs, extractLeast key bs = some (c, cs) → key b ≤ key c) ∨
      ∃ cs, extractLeast key bs = some (a, cs) ∧ rest = b :: cs ∧ key a < key b := by
  rw [extractLeast] at h
  cases hb : extractLeast key bs with
  | none =>
    simp only [hb, Option.some.injEq, Prod.mk.injEq] at h
    obtain ⟨rfl, rfl⟩ := h
    refine .inl ⟨rfl, ((extractLeast_eq_none_iff key).mp hb).symm, fun c cs hcs => ?_⟩
    cases hcs
  | some p =>
    obtain ⟨c, cs⟩ := p
    by_cases hle : key b ≤ key c
    · simp only [hb, hle, if_true, Option.some.injEq, Prod.mk.injEq] at h
      obtain ⟨rfl, rfl⟩ := h
      refine .inl ⟨rfl, rfl, fun c' cs' hcs => ?_⟩
      cases hcs
      exact hle
    · simp only [hb, hle, if_false, Option.some.injEq, Prod.mk.injEq] at h
      obtain ⟨rfl, rfl⟩ := h
      exact .inr ⟨cs, rfl, rfl, not_le.mp hle⟩

/-- What is taken out and what is left are together what was there. -/
theorem extractLeast_perm {l : List α} {a : α} {rest : List α}
    (h : extractLeast key l = some (a, rest)) : l.Perm (a :: rest) := by
  induction l generalizing a rest with
  | nil => simp at h
  | cons b bs ih =>
    obtain ⟨rfl, rfl, -⟩ | ⟨cs, hcs, rfl, -⟩ := extractLeast_cons_cases key h
    · exact List.Perm.refl _
    · exact ((ih hcs).cons b).trans (List.Perm.swap a b cs)

/-- What is taken out has the least key of all. -/
theorem extractLeast_le {l : List α} {a : α} {rest : List α}
    (h : extractLeast key l = some (a, rest)) : ∀ b ∈ l, key a ≤ key b := by
  induction l generalizing a rest with
  | nil => simp at h
  | cons b bs ih =>
    intro d hd
    obtain ⟨rfl, rfl, hhead⟩ | ⟨cs, hcs, -, hlt⟩ := extractLeast_cons_cases key h
    · rcases List.mem_cons.mp hd with rfl | hd
      · exact le_refl _
      · cases hb : extractLeast key rest with
        | none =>
          rw [(extractLeast_eq_none_iff key).mp hb] at hd
          cases hd
        | some p => exact (hhead p.1 p.2 hb).trans (ih hb d hd)
    · rcases List.mem_cons.mp hd with rfl | hd
      · exact hlt.le
      · exact ih hcs d hd

/-- Of several least elements the first is taken. -/
theorem extractLeast_cons_of_forall_le {a : α} {l : List α} (h : ∀ b ∈ l, key a ≤ key b) :
    extractLeast key (a :: l) = some (a, l) := by
  rw [extractLeast]
  cases hl : extractLeast key l with
  | none => rw [(extractLeast_eq_none_iff key).mp hl]
  | some least =>
    have hmem : least.1 ∈ l := (extractLeast_perm key hl).symm.subset List.mem_cons_self
    exact if_pos (h _ hmem)

theorem extractLeast_mem {l : List α} {a : α} {rest : List α}
    (h : extractLeast key l = some (a, rest)) : a ∈ l :=
  (extractLeast_perm key h).mem_iff.mpr (List.mem_cons_self ..)

/-- With pairwise distinct keys the element taken out is strictly below every one left. -/
theorem extractLeast_lt {l : List α} {a : α} {rest : List α}
    (h : extractLeast key l = some (a, rest)) (hnd : (l.map key).Nodup) :
    ∀ b ∈ rest, key a < key b := by
  intro b hb
  have hperm := extractLeast_perm key h
  have hnd' : ((a :: rest).map key).Nodup := (hperm.map key).nodup_iff.mp hnd
  have hne : key a ≠ key b := by
    intro heq
    rw [List.map_cons, List.nodup_cons] at hnd'
    exact hnd'.1 (heq ▸ List.mem_map_of_mem hb)
  have hle : key a ≤ key b := extractLeast_le key h b (hperm.mem_iff.mpr (List.mem_cons_of_mem _ hb))
  exact lt_of_le_of_ne hle hne

end Chronoq.Foundations
