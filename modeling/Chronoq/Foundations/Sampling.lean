import Mathlib

/-! # Stratified samples

A class of `count` among `total` items gets `share target total count` of the target: the proportion
rounded down, but one at least. What the shares fall short of the target is spread one by one over the
first classes, and no class gives more items than it has.

* `share_le`, `share_lt`: below the total a share is at most the count, and less than it if that is not one.
* `lt_sum_share`: the shares fall short of the target by less than one for each class.
* `sum_clamped_spread`: of what is spread, the classes of one item lose theirs.
* `draw`: the items of a list at some positions; at distinct ones they are a part of the list. -/

namespace Chronoq.Foundations

set_option autoImplicit false

def share (target total count : ℕ) : ℕ := max 1 (target * count / total)

/-- One more for each of the first `r` entries. -/
def spread : ℕ → List ℕ → List ℕ
  | r + 1, n :: ns => (n + 1) :: spread r ns
  | _, ns => ns

section Share
variable {target total count : ℕ}

theorem one_le_share (target total count : ℕ) : 1 ≤ share target total count := le_max_left _ _

theorem proportion_lt (h : target < total) (hcount : 0 < count) : target * count / total < count := by
  rw [Nat.div_lt_iff_lt_mul (by omega), Nat.mul_comm count total]
  exact Nat.mul_lt_mul_of_pos_right h hcount

theorem share_le (h : target < total) (hcount : 0 < count) : share target total count ≤ count :=
  max_le hcount (proportion_lt h hcount).le

theorem share_lt (h : target < total) (hcount : 2 ≤ count) : share target total count < count :=
  max_lt hcount (proportion_lt h (by omega))

end Share

theorem lt_sum_share (target : ℕ) {total : ℕ} {counts : List ℕ} (hsum : counts.sum = total)
    (htotal : 0 < total) :
    target < (counts.map (share target total)).sum + counts.length := by
  -- class by class, `target * count` is less than `total` times one more than the share
  have hbound : ∀ l : List ℕ, l ≠ [] →
      target * l.sum < total * ((l.map (share target total)).sum + l.length) := by
    intro l hl
    have hlt := List.sum_lt_sum_of_ne_nil hl (fun count => target * count)
      (fun count => total * (share target total count + 1)) fun count _ => by
        calc target * count < total * (target * count / total + 1) :=
              Nat.lt_mul_div_succ _ htotal
          _ ≤ total * (share target total count + 1) :=
              Nat.mul_le_mul_left _ (Nat.add_le_add_right (le_max_right _ _) 1)
    rw [List.sum_map_mul_left, List.sum_map_mul_left, List.map_id', List.sum_map_add,
      List.map_const', List.sum_replicate, smul_eq_mul, mul_one] at hlt
    exact hlt
  have hne : counts ≠ [] := by
    rintro rfl
    rw [List.sum_nil] at hsum
    omega
  have hmul := hbound counts hne
  rw [hsum, Nat.mul_comm] at hmul
  exact Nat.lt_of_mul_lt_mul_left hmul

theorem sum_clamped_spread {target total : ℕ} (h : target < total) {counts : List ℕ}
    (hcounts : ∀ count ∈ counts, 0 < count) (r : ℕ) :
    (List.zipWith min (spread r (counts.map (share target total))) counts).sum =
      (counts.map (share target total)).sum + (counts.take r).countP fun count => 2 ≤ count := by
  induction counts generalizing r with
  | nil => cases r <;> simp [spread]
  | cons count counts ih =>
    rw [List.forall_mem_cons] at hcounts
    cases r with
    | zero =>
      have hrest := ih hcounts.2 0
      have hspread : ∀ ns, spread 0 ns = ns := fun ns => by cases ns <;> rfl
      rw [hspread] at hrest ⊢
      rw [List.map_cons, List.zipWith_cons_cons, List.sum_cons, List.sum_cons, hrest,
        min_eq_left (share_le h hcounts.1), Nat.add_assoc]
      simp
    | succ r =>
      rw [List.map_cons, spread, List.zipWith_cons_cons, List.sum_cons, List.sum_cons, ih hcounts.2 r,
        List.take_succ_cons, List.countP_cons]
      by_cases hone : 2 ≤ count
      · have hlt := share_lt h hone
        rw [min_eq_left (by omega), if_pos (by simpa using hone)]
        omega
      · have hpos := one_le_share target total count
        have hle := share_le h hcounts.1
        rw [min_eq_right (by omega), if_neg (by simpa using hone)]
        omega

theorem length_spread (r : ℕ) (ns : List ℕ) : (spread r ns).length = ns.length := by
  induction ns generalizing r with
  | nil => cases r <;> rfl
  | cons n ns ih =>
    cases r with
    | zero => rfl
    | succ r => rw [spread, List.length_cons, List.length_cons, ih]

theorem le_spread {m : ℕ} {ns : List ℕ} (h : ∀ n ∈ ns, m ≤ n) (r : ℕ) : ∀ n ∈ spread r ns, m ≤ n := by
  induction ns generalizing r with
  | nil => cases r <;> exact h
  | cons n ns ih =>
    cases r with
    | zero => exact h
    | succ r =>
      rw [List.forall_mem_cons] at h
      rw [spread, List.forall_mem_cons]
      exact ⟨Nat.le_succ_of_le h.1, ih h.2 r⟩

/-! ## Drawing without replacement -/

section Draw
variable {α : Type*} {items : List α} {positions : List ℕ}

/-- The items at the given positions. -/
def draw (items : List α) (positions : List ℕ) : List α := positions.filterMap fun i => items[i]?

theorem draw_range (items : List α) : draw items (List.range items.length) = items := by
  induction items using List.reverseRecOn with
  | nil => rfl
  | append_singleton items x ih =>
    have hfront : (List.range items.length).filterMap (fun i => (items ++ [x])[i]?) = items := by
      refine (List.filterMap_congr fun i hi => ?_).trans ih
      exact List.getElem?_append_left (List.mem_range.mp hi)
    rw [draw, List.length_append, List.length_singleton, List.range_succ, List.filterMap_append, hfront]
    simp

theorem length_draw (h : ∀ i ∈ positions, i < items.length) :
    (draw items positions).length = positions.length := by
  induction positions with
  | nil => rfl
  | cons i positions ih =>
    rw [List.forall_mem_cons] at h
    rw [draw, List.filterMap_cons_some (List.getElem?_eq_getElem h.1), List.length_cons,
      List.length_cons]
    exact congrArg (· + 1) (ih h.2)

theorem draw_subperm (hnodup : positions.Nodup) (h : ∀ i ∈ positions, i < items.length) :
    (draw items positions).Subperm items := by
  have hrange : positions ⊆ List.range items.length := fun i hi => List.mem_range.mpr (h i hi)
  obtain ⟨positions', hperm, hsub⟩ := List.subperm_of_subset hnodup hrange
  refine ⟨draw items positions', hperm.filterMap _, ?_⟩
  have hsublist := hsub.filterMap fun i => items[i]?
  have hall : (List.range items.length).filterMap (fun i => items[i]?) = items := draw_range items
  rw [hall] at hsublist
  exact hsublist

end Draw

end Chronoq.Foundations
