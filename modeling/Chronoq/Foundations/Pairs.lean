import Mathlib

/-! # The pairs of a list

`pairsOf l` lists the pairs of entries of `l` at positions `i < j`, by `i` and then by `j`: what two
nested loops over a list visit. How many of them have a symmetric property does not depend on the order
of the list (`countP_pairsOf_perm`). -/

namespace Chronoq.Foundations

set_option autoImplicit false

variable {α : Type*}

def pairsOf : List α → List (α × α)
  | [] => []
  | x :: xs => xs.map (fun y => (x, y)) ++ pairsOf xs

/-- A list of at most one entry has no pair. -/
theorem pairwise_of_length_lt_two {R : α → α → Prop} {l : List α} (h : ¬ 2 ≤ l.length) :
    l.Pairwise R := by
  match l, h with
  | [], _ => exact List.Pairwise.nil
  | [x], _ => exact List.pairwise_singleton _ x
  | _ :: _ :: _, h => simp at h

theorem countP_pairsOf_cons (p : α × α → Bool) (x : α) (l : List α) :
    (pairsOf (x :: l)).countP p = l.countP (fun y => p (x, y)) + (pairsOf l).countP p := by
  rw [pairsOf, List.countP_append, List.countP_map]
  rfl

theorem countP_pairsOf_perm {p : α × α → Bool} (hsymm : ∀ x y, p (x, y) = p (y, x)) {l l' : List α}
    (h : l.Perm l') : (pairsOf l).countP p = (pairsOf l').countP p := by
  induction h with
  | nil => rfl
  | cons x h ih => rw [countP_pairsOf_cons, countP_pairsOf_cons, ih, h.countP_eq]
  | swap x y l =>
    -- only the pair of the two entries themselves is turned around
    simp only [countP_pairsOf_cons, List.countP_cons, hsymm x y]
    omega
  | trans _ _ ih ih' => rw [ih, ih']

theorem two_mul_length_pairsOf (l : List α) : 2 * (pairsOf l).length = l.length * (l.length - 1) := by
  induction l with
  | nil => rfl
  | cons x l ih =>
    rw [pairsOf, List.length_append, List.length_map, Nat.mul_add, ih, List.length_cons,
      Nat.add_sub_cancel]
    cases l.length with
    | zero => rfl
    | succ n =>
      rw [Nat.add_sub_cancel]
      ring

theorem forall_mem_pairsOf_iff {r : α → α → Prop} {l : List α} :
    (∀ p ∈ pairsOf l, r p.1 p.2) ↔ l.Pairwise r := by
  induction l with
  | nil => simp [pairsOf]
  | cons x l ih =>
    rw [pairsOf, List.forall_mem_append, List.forall_mem_map, List.pairwise_cons, ih]

theorem pairsOf_map {β : Type*} (f : α → β) (l : List α) :
    pairsOf (l.map f) = (pairsOf l).map fun p => (f p.1, f p.2) := by
  induction l with
  | nil => rfl
  | cons x l ih =>
    rw [List.map_cons, pairsOf, pairsOf, List.map_append, ih, List.map_map, List.map_map]
    rfl

end Chronoq.Foundations
