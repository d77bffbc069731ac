import Mathlib

/-! # Bins between sorted edges

`binsOf edges` are the half-open intervals between neighbouring edges, the last one closed, as tests on
values.

* `countP_binsOf`: a value falls in exactly one bin if it lies between two edges and in none otherwise.
* `sum_countP`: the counts of a list in the bins add up to the counts of its values, one value at a time,
  so they add up to the number of values that lie between the edges (`sum_binCounts`).
* `exists_sum_le_length_mul`: some count is at least the average one. -/

namespace Chronoq.Foundations

set_option autoImplicit false

variable {α : Type*}

theorem sum_map_indicator {p : α → Prop} [DecidablePred p] {f : α → ℕ} {values : List α}
    (h : ∀ v, f v = if p v then 1 else 0) : (values.map f).sum = values.countP fun v => p v := by
  induction values with
  | nil => rfl
  | cons v values ih =>
    rw [List.map_cons, List.sum_cons, ih, h v, List.countP_cons, Nat.add_comm]
    simp only [decide_eq_true_eq]

/-- Counting by tests and counting by values is the same. -/
theorem sum_countP (tests : List (α → Bool)) (values : List α) :
    (tests.map fun t => values.countP t).sum = (values.map fun v => tests.countP fun t => t v).sum := by
  induction values with
  | nil => simp
  | cons v values ih =>
    have hone : ∀ t : α → Bool, (v :: values).countP t = (if t v then 1 else 0) + values.countP t := by
      intro t
      rw [List.countP_cons, Nat.add_comm]
    have hhead : (tests.map fun t => if t v then 1 else 0).sum = tests.countP fun t => t v :=
      (sum_map_indicator fun _ => rfl).trans (List.countP_congr fun t _ => by simp)
    simp only [hone, List.sum_map_add, List.map_cons, List.sum_cons]
    rw [ih, hhead]

variable [LinearOrder α]

def binsOf : List α → List (α → Bool)
  | a :: b :: c :: edges => (fun v => decide (a ≤ v ∧ v < b)) :: binsOf (b :: c :: edges)
  | [a, b] => [fun v => decide (a ≤ v ∧ v ≤ b)]
  | _ => []

theorem length_binsOf (edges : List α) : (binsOf edges).length = edges.length - 1 := by
  induction edges using binsOf.induct with
  | case1 a b c edges ih =>
    rw [binsOf, List.length_cons, ih]
    rfl
  | case2 a b => rfl
  | case3 edges h h' =>
    rcases edges with _ | ⟨a, _ | ⟨b, _ | ⟨c, edges⟩⟩⟩
    · rfl
    · rfl
    · exact (h' a b rfl).elim
    · exact (h a b c edges rfl).elim

/-- The value lies between two of the edges. -/
def Between (edges : List α) (v : α) : Prop := (∃ e ∈ edges, e ≤ v) ∧ ∃ e ∈ edges, v ≤ e

instance (edges : List α) (v : α) : Decidable (Between edges v) :=
  inferInstanceAs (Decidable ((∃ e ∈ edges, e ≤ v) ∧ ∃ e ∈ edges, v ≤ e))

/-- Below a sorted list is below its first entry. -/
theorem exists_le_iff_head_le {a : α} {edges : List α} (h : (a :: edges).Pairwise (· ≤ ·)) (v : α) :
    (∃ e ∈ a :: edges, e ≤ v) ↔ a ≤ v := by
  constructor
  · rintro ⟨e, he, hev⟩
    rcases List.mem_cons.mp he with rfl | he
    · exact hev
    · exact (List.rel_of_pairwise_cons h he).trans hev
  · intro hav
    exact ⟨a, List.mem_cons_self, hav⟩

theorem countP_binsOf {edges : List α} (h : edges.Pairwise (· ≤ ·)) (hlength : 2 ≤ edges.length)
    (v : α) : (binsOf edges).countP (fun bin => bin v) = if Between edges v then 1 else 0 := by
  induction edges using binsOf.induct with
  | case1 a b c edges ih =>
    have htail := (List.pairwise_cons.mp h).2
    have hab : a ≤ b := List.rel_of_pairwise_cons h List.mem_cons_self
    have hbelow := exists_le_iff_head_le h v
    have hbelow' := exists_le_iff_head_le htail v
    -- dropping the first edge loses nothing above
    have habove : (∃ e ∈ a :: b :: c :: edges, v ≤ e) ↔ ∃ e ∈ b :: c :: edges, v ≤ e := by
      rw [List.exists_mem_cons_iff]
      exact or_iff_right_of_imp fun hva => ⟨b, List.mem_cons_self, hva.trans hab⟩
    have hbetween : Between (a :: b :: c :: edges) v ↔ a ≤ v ∧ ∃ e ∈ b :: c :: edges, v ≤ e :=
      and_congr hbelow habove
    have hbetween' : Between (b :: c :: edges) v ↔ b ≤ v ∧ ∃ e ∈ b :: c :: edges, v ≤ e :=
      and_congr_left' hbelow'
    rw [binsOf, List.countP_cons, ih htail (by simp)]
    simp only [hbetween, hbetween', decide_eq_true_eq]
    by_cases hbv : b ≤ v
    · simp [hbv, hab.trans hbv, not_lt.mpr hbv]
    · have hvb : v < b := not_le.mp hbv
      simp [hbv, hvb, hvb.le]
  | case2 a b =>
    have hab : a ≤ b := List.rel_of_pairwise_cons h List.mem_cons_self
    have hbelow := exists_le_iff_head_le h v
    have habove : (∃ e ∈ [a, b], v ≤ e) ↔ v ≤ b := by
      simp only [List.mem_cons, List.not_mem_nil, or_false, exists_eq_or_imp, exists_eq_left]
      exact or_iff_right_of_imp fun hva => hva.trans hab
    have hbetween : Between [a, b] v ↔ a ≤ v ∧ v ≤ b := and_congr hbelow habove
    rw [binsOf, List.countP_cons, List.countP_nil]
    simp only [hbetween, decide_eq_true_eq, zero_add]
  | case3 edges hthree htwo =>
    rcases edges with _ | ⟨a, _ | ⟨b, _ | ⟨c, edges⟩⟩⟩
    · simp at hlength
    · simp at hlength
    · exact (htwo a b rfl).elim
    · exact (hthree a b c edges rfl).elim

def binCounts (values edges : List α) : List ℕ := (binsOf edges).map fun bin => values.countP bin

theorem sum_binCounts {edges : List α} (h : edges.Pairwise (· ≤ ·)) (hlength : 2 ≤ edges.length)
    (values : List α) : (binCounts values edges).sum = values.countP fun v => Between edges v := by
  rw [binCounts, sum_countP]
  exact sum_map_indicator (countP_binsOf h hlength)

theorem binCounts_perm {values values' : List α} (h : values.Perm values') (edges : List α) :
    binCounts values edges = binCounts values' edges :=
  List.map_congr_left fun bin _ => h.countP_eq bin

theorem exists_sum_le_length_mul {counts : List ℕ} (hne : counts ≠ []) :
    ∃ count ∈ counts, counts.sum ≤ counts.length * count := by
  by_contra hall
  push Not at hall
  have hlt := List.sum_lt_sum_of_ne_nil hne (fun count => counts.length * count) (fun _ => counts.sum)
    hall
  rw [List.sum_map_mul_left, List.map_id', List.map_const', List.sum_replicate, smul_eq_mul] at hlt
  exact lt_irrefl _ hlt

end Chronoq.Foundations
