import Mathlib

/-! # Lists laid out by groups

* `flatten_filter_perm`: the sublists of the elements with a given key, for distinct keys, are
  together the sublist of the elements with one of the keys.
* `mem_drop_iff_countP_lt`: an element of a strictly sorted list lies past a cut exactly when fewer
  elements follow it than are past the cut. -/

namespace Chronoq.Foundations

set_option autoImplicit false

variable {α κ : Type}

theorem filter_append_filter_perm {p q : α → Bool} (hdisj : ∀ a, p a = true → q a = false)
    (l : List α) : (l.filter p ++ l.filter q).Perm (l.filter fun a => p a || q a) := by
  have hsplit := List.filter_append_perm p (l.filter fun a => p a || q a)
  rw [List.filter_filter, List.filter_filter] at hsplit
  have hp : l.filter (fun a => p a && (p a || q a)) = l.filter p := by
    refine List.filter_congr fun a _ => ?_
    cases p a <;> simp
  have hq : l.filter (fun a => !p a && (p a || q a)) = l.filter q := by
    refine List.filter_congr fun a _ => ?_
    cases hpa : p a with
    | false => simp
    | true => simp [hdisj a hpa]
  rw [hp, hq] at hsplit
  exact hsplit

theorem flatten_filter_perm [DecidableEq κ] (key : α → κ) {keys : List κ} (hnd : keys.Nodup)
    (l : List α) :
    ((keys.map fun k => l.filter fun a => key a = k).flatten).Perm
      (l.filter fun a => key a ∈ keys) := by
  induction keys with
  | nil => simp
  | cons k keys ih =>
    obtain ⟨hnew, hnd⟩ := List.nodup_cons.mp hnd
    rw [List.map_cons, List.flatten_cons]
    have hdisj : ∀ a, decide (key a = k) = true → decide (key a ∈ keys) = false := by
      intro a ha
      rw [decide_eq_true_eq] at ha
      rw [decide_eq_false_iff_not, ha]
      exact hnew
    refine ((ih hnd).append_left _).trans ((filter_append_filter_perm hdisj l).trans ?_)
    have hsame : (l.filter fun a => decide (key a = k) || decide (key a ∈ keys)) =
        l.filter fun a => key a ∈ k :: keys := by
      refine List.filter_congr fun a _ => ?_
      simp
    rw [hsame]

theorem mem_drop_iff_countP_lt [LinearOrder κ] {l : List κ} (hl : l.Pairwise (· < ·)) {a : κ}
    (ha : a ∈ l) (m : ℕ) : a ∈ l.drop m ↔ l.countP (fun b => a < b) + m < l.length := by
  induction l generalizing m with
  | nil => cases ha
  | cons b l ih =>
    obtain ⟨hb, hl⟩ := List.pairwise_cons.mp hl
    rcases List.mem_cons.mp ha with rfl | hmem
    · -- everything else follows the head
      have hcount : (a :: l).countP (fun c => a < c) = l.length := by
        rw [List.countP_cons, List.countP_eq_length.mpr fun c hc => by simpa using hb c hc]
        simp
      have hnot : a ∉ l := fun h => lt_irrefl a (hb a h)
      rw [hcount, List.length_cons]
      cases m with
      | zero => simp
      | succ m =>
        rw [List.drop_succ_cons]
        constructor
        · exact fun h => absurd (List.mem_of_mem_drop h) hnot
        · intro h
          omega
    · have hcount : (b :: l).countP (fun c => a < c) = l.countP (fun c => a < c) := by
        rw [List.countP_cons]
        simp [(hb a hmem).le]
      rw [hcount, List.length_cons]
      cases m with
      | zero =>
        have hlt := (ih hl hmem 0).mp (by simpa using hmem)
        rw [List.drop_zero]
        constructor
        · intro _
          omega
        · exact fun _ => ha
      | succ m =>
        rw [List.drop_succ_cons, ih hl hmem m]
        omega

end Chronoq.Foundations
