import Mathlib.Algebra.BigOperators.Group.List.Basic
import Mathlib.Algebra.Order.BigOperators.Group.List
import Mathlib.Algebra.Order.Group.Unbundled.Basic
import Mathlib.Algebra.Order.Monoid.Unbundled.Pow
import Mathlib.Algebra.Order.Group.Nat
import Mathlib.Data.Finset.Sort

/-! # Intervals and how often they cover a point

An interval `I` is half open, from `I.1` to `I.2`. What a list of intervals adds up to, for any function `F`
of the points with `F I.2 - F I.1` for `I`, depends only on how many of them cover each point: the points
between two neighbouring ends are covered alike.

* `sum_rise_eq`: the sum over the intervals as one over the cells between the ends.
* `sum_rise_congr`: equal counts give equal sums, for every `F`.
* `sum_rise_mono`: larger counts give larger sums, for monotone `F`. -/

namespace Chronoq.Foundations

set_option autoImplicit false

variable {K G : Type*} [LinearOrder K]

/-- The interval covers the point `t`. -/
def Covers (t : K) (I : K × K) : Prop := I.1 ≤ t ∧ t < I.2

instance (t : K) : DecidablePred (Covers t) := fun _ => inferInstanceAs (Decidable (_ ∧ _))

theorem countP_replicate_covers (n : ℕ) (I : K × K) (t : K) :
    (List.replicate n I).countP (Covers t) = if Covers t I then n else 0 := by
  rw [List.countP_replicate]
  simp

/-! ## Cells -/

section Cells
variable [AddCommGroup G] (F : K → G)

/-- `F` from one end of the interval to the other. -/
def rise (I : K × K) : G := F I.2 - F I.1

/-- The cells between neighbouring cuts: where each begins, and its rise. -/
def cells : List K → List (K × G)
  | x :: y :: cuts => (x, F y - F x) :: cells (y :: cuts)
  | _ => []

omit [LinearOrder K] in
theorem fst_mem_of_mem_cells {cuts : List K} {c : K × G} (h : c ∈ cells F cuts) : c.1 ∈ cuts := by
  induction cuts with
  | nil => simp [cells] at h
  | cons x cuts ih =>
    cases cuts with
    | nil => simp [cells] at h
    | cons y cuts =>
      rw [cells, List.mem_cons] at h
      rcases h with rfl | h
      · exact List.mem_cons_self
      · exact List.mem_cons_of_mem _ (ih h)

/-- An interval between two cuts is made of the cells that it covers. -/
theorem sum_covered_cells {cuts : List K} (hcuts : cuts.Pairwise (· < ·)) {a b : K} (hab : a ≤ b)
    (ha : a ∈ cuts) (hb : b ∈ cuts) :
    ((cells F cuts).map fun c => if Covers c.1 (a, b) then c.2 else 0).sum = F b - F a := by
  induction cuts generalizing a with
  | nil => cases ha
  | cons x cuts ih =>
    cases cuts with
    | nil =>
      rw [List.mem_singleton] at ha hb
      rw [ha, hb, sub_self]
      rfl
    | cons y cuts =>
      obtain ⟨hx, hcuts'⟩ := List.pairwise_cons.mp hcuts
      rw [cells, List.map_cons, List.sum_cons]
      rcases List.mem_cons.mp ha with rfl | ha'
      · rcases List.mem_cons.mp hb with rfl | hb'
        · -- the interval is empty
          have hnone : ∀ t, ¬ Covers t (b, b) := fun t ht => absurd ht.2 (not_lt.mpr ht.1)
          simp [hnone]
        · have hrest : ((cells F (y :: cuts)).map fun c => if Covers c.1 (a, b) then c.2 else 0) =
              (cells F (y :: cuts)).map fun c => if Covers c.1 (y, b) then c.2 else 0 := by
            refine List.map_congr_left fun c hc => ?_
            have hmem := fst_mem_of_mem_cells F hc
            have hy : y ≤ c.1 := by
              rcases List.mem_cons.mp hmem with hmem | hmem
              · rw [hmem]
              · exact ((List.pairwise_cons.mp hcuts').1 _ hmem).le
            simp [Covers, hy, ((hx y List.mem_cons_self).trans_le hy).le]
          have hyb : y ≤ b := by
            rcases List.mem_cons.mp hb' with rfl | hb'
            · exact le_rfl
            · exact ((List.pairwise_cons.mp hcuts').1 _ hb').le
          rw [hrest, ih hcuts' hyb List.mem_cons_self hb', if_pos ⟨le_rfl, hx b hb'⟩]
          exact sub_add_sub_cancel' _ _ _
      · have hb' : b ∈ y :: cuts := by
          rcases List.mem_cons.mp hb with rfl | hb'
          · exact absurd (hx a ha') (not_lt.mpr hab)
          · exact hb'
        rw [if_neg fun h => absurd (hx a ha') (not_lt.mpr h.1), zero_add, ih hcuts' hab ha' hb']

/-- The sum over the intervals, cell by cell. -/
theorem sum_rise_eq {cuts : List K} (hcuts : cuts.Pairwise (· < ·)) {l : List (K × K)}
    (hle : ∀ I ∈ l, I.1 ≤ I.2) (hmem : ∀ I ∈ l, I.1 ∈ cuts ∧ I.2 ∈ cuts) :
    (l.map (rise F)).sum = ((cells F cuts).map fun c => l.countP (Covers c.1) • c.2).sum := by
  induction l with
  | nil => simp
  | cons I l ih =>
    have hI := hmem I List.mem_cons_self
    have hsum := sum_covered_cells F hcuts (hle I List.mem_cons_self) hI.1 hI.2
    rw [List.map_cons, List.sum_cons, ih (fun J hJ => hle J (List.mem_cons_of_mem _ hJ))
      fun J hJ => hmem J (List.mem_cons_of_mem _ hJ), rise, ← hsum, ← List.sum_map_add]
    refine congrArg List.sum (List.map_congr_left fun c _ => ?_)
    by_cases h : Covers c.1 I
    · simp [h, succ_nsmul']
    · simp [h]

end Cells

/-! ## The ends of intervals as cuts -/

/-- The ends of the intervals, in ascending order. -/
def cutsOf (l : List (K × K)) : List K :=
  (l.flatMap fun I => [I.1, I.2]).toFinset.sort (· ≤ ·)

theorem pairwise_cutsOf (l : List (K × K)) : (cutsOf l).Pairwise (· < ·) :=
  Finset.sortedLT_sort _ |>.pairwise

theorem mem_cutsOf {l : List (K × K)} {I : K × K} (h : I ∈ l) : I.1 ∈ cutsOf l ∧ I.2 ∈ cutsOf l := by
  rw [cutsOf, Finset.mem_sort, Finset.mem_sort, List.mem_toFinset, List.mem_toFinset,
    List.mem_flatMap, List.mem_flatMap]
  exact ⟨⟨I, h, List.mem_cons_self⟩, ⟨I, h, List.mem_cons_of_mem _ (List.mem_singleton_self _)⟩⟩

variable {l l' : List (K × K)}

/-! ## Comparing two lists of intervals -/

theorem sum_rise_congr [AddCommGroup G] (F : K → G) (hle : ∀ I ∈ l, I.1 ≤ I.2)
    (hle' : ∀ I ∈ l', I.1 ≤ I.2) (hcount : ∀ t : K, l.countP (Covers t) = l'.countP (Covers t)) :
    (l.map (rise F)).sum = (l'.map (rise F)).sum := by
  rw [sum_rise_eq F (pairwise_cutsOf (l ++ l')) hle fun I hI => mem_cutsOf (List.mem_append_left _ hI),
    sum_rise_eq F (pairwise_cutsOf (l ++ l')) hle' fun I hI => mem_cutsOf (List.mem_append_right _ hI)]
  exact congrArg List.sum (List.map_congr_left fun c _ => by rw [hcount])

theorem cells_nonneg [AddCommGroup G] [PartialOrder G] [IsOrderedAddMonoid G] {F : K → G}
    (hF : Monotone F) {cuts : List K} (hcuts : cuts.Pairwise (· < ·)) : ∀ c ∈ cells F cuts, 0 ≤ c.2 := by
  induction cuts with
  | nil => simp [cells]
  | cons x cuts ih =>
    cases cuts with
    | nil => simp [cells]
    | cons y cuts =>
      obtain ⟨hx, hcuts⟩ := List.pairwise_cons.mp hcuts
      intro c hc
      rw [cells, List.mem_cons] at hc
      rcases hc with rfl | hc
      · exact sub_nonneg.mpr (hF (hx y List.mem_cons_self).le)
      · exact ih hcuts c hc

theorem sum_rise_mono [AddCommGroup G] [PartialOrder G] [IsOrderedAddMonoid G] {F : K → G}
    (hF : Monotone F) (hle : ∀ I ∈ l, I.1 ≤ I.2) (hle' : ∀ I ∈ l', I.1 ≤ I.2)
    (hcount : ∀ t : K, l.countP (Covers t) ≤ l'.countP (Covers t)) :
    (l.map (rise F)).sum ≤ (l'.map (rise F)).sum := by
  have hcuts := pairwise_cutsOf (l ++ l')
  rw [sum_rise_eq F hcuts hle fun I hI => mem_cutsOf (List.mem_append_left _ hI),
    sum_rise_eq F hcuts hle' fun I hI => mem_cutsOf (List.mem_append_right _ hI)]
  exact List.sum_le_sum fun c hc => nsmul_le_nsmul_left (cells_nonneg hF hcuts c hc) (hcount c.1)

end Chronoq.Foundations
