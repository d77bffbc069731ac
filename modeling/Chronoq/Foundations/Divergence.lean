import Mathlib

/-! # The symmetric divergence of two lists of positive numbers

`divergence as bs` adds up `(a - b) * log (a / b)` over the pairs of two lists. The lists need not sum to
one: a term is nonnegative because `log (a / b)` has the sign of `a - b`, and it vanishes exactly when
`a = b`. So the divergence is nonnegative, vanishes exactly for equal lists, and is at least each of its
terms. -/

namespace Chronoq.Foundations

set_option autoImplicit false

noncomputable section

def divergenceTerm (a b : ℝ) : ℝ := (a - b) * Real.log (a / b)

def divergence (as bs : List ℝ) : ℝ := (List.zipWith divergenceTerm as bs).sum

/-! ## One term -/

section Term
variable {a b : ℝ}

@[simp] theorem divergenceTerm_self (a : ℝ) : divergenceTerm a a = 0 := by
  rw [divergenceTerm, sub_self, zero_mul]

theorem divergenceTerm_pos (ha : 0 < a) (hb : 0 < b) (hne : a ≠ b) : 0 < divergenceTerm a b := by
  rcases lt_or_gt_of_ne hne with hlt | hgt
  · exact mul_pos_of_neg_of_neg (sub_neg.mpr hlt)
      (Real.log_neg (div_pos ha hb) ((div_lt_one hb).mpr hlt))
  · exact mul_pos (sub_pos.mpr hgt) (Real.log_pos ((one_lt_div hb).mpr hgt))

theorem divergenceTerm_nonneg (ha : 0 < a) (hb : 0 < b) : 0 ≤ divergenceTerm a b := by
  rcases eq_or_ne a b with rfl | hne
  · rw [divergenceTerm_self]
  · exact (divergenceTerm_pos ha hb hne).le

theorem divergenceTerm_eq_zero_iff (ha : 0 < a) (hb : 0 < b) : divergenceTerm a b = 0 ↔ a = b := by
  constructor
  · intro hzero
    by_contra hne
    exact (divergenceTerm_pos ha hb hne).ne' hzero
  · rintro rfl
    exact divergenceTerm_self a

/-- Where `b` is at least `2 ^ k` times `a`, the term is at least `k * log 2` times their distance. -/
theorem le_divergenceTerm {k : ℕ} (ha : 0 < a) (hab : 2 ^ k * a ≤ b) :
    (b - a) * (k * Real.log 2) ≤ divergenceTerm a b := by
  have hle : a ≤ b := (le_mul_of_one_le_left ha.le (one_le_pow₀ one_le_two)).trans hab
  have hlog : k * Real.log 2 ≤ Real.log (b / a) := by
    rw [← Real.log_pow]
    exact Real.log_le_log (by positivity) ((le_div_iff₀ ha).mpr hab)
  have hflip : divergenceTerm a b = (b - a) * Real.log (b / a) := by
    rw [divergenceTerm, ← inv_div, Real.log_inv]
    ring
  rw [hflip]
  exact mul_le_mul_of_nonneg_left hlog (sub_nonneg.mpr hle)

end Term

/-! ## Lists -/

section Lists
variable {as bs : List ℝ}

theorem divergence_cons (a b : ℝ) (as bs : List ℝ) :
    divergence (a :: as) (b :: bs) = divergenceTerm a b + divergence as bs := by
  rw [divergence, List.zipWith_cons_cons, List.sum_cons, divergence]

theorem divergence_nonneg (has : ∀ a ∈ as, 0 < a) (hbs : ∀ b ∈ bs, 0 < b) : 0 ≤ divergence as bs := by
  induction as generalizing bs with
  | nil => exact le_rfl
  | cons a as ih =>
    cases bs with
    | nil => exact le_rfl
    | cons b bs =>
      rw [divergence_cons]
      rw [List.forall_mem_cons] at has hbs
      exact add_nonneg (divergenceTerm_nonneg has.1 hbs.1) (ih has.2 hbs.2)

theorem divergence_eq_zero_iff (has : ∀ a ∈ as, 0 < a) (hbs : ∀ b ∈ bs, 0 < b)
    (hlength : as.length = bs.length) : divergence as bs = 0 ↔ as = bs := by
  induction as generalizing bs with
  | nil =>
    obtain rfl := List.length_eq_zero_iff.mp hlength.symm
    exact iff_of_true rfl rfl
  | cons a as ih =>
    cases bs with
    | nil => cases hlength
    | cons b bs =>
      rw [List.forall_mem_cons] at has hbs
      rw [divergence_cons, add_eq_zero_iff_of_nonneg (divergenceTerm_nonneg has.1 hbs.1)
        (divergence_nonneg has.2 hbs.2), divergenceTerm_eq_zero_iff has.1 hbs.1,
        ih has.2 hbs.2 (Nat.succ.inj hlength), List.cons.injEq]

theorem divergenceTerm_le_divergence (has : ∀ a ∈ as, 0 < a) (hbs : ∀ b ∈ bs, 0 < b) {a b : ℝ}
    (h : (a, b) ∈ as.zip bs) : divergenceTerm a b ≤ divergence as bs := by
  induction as generalizing bs with
  | nil => cases h
  | cons a' as ih =>
    cases bs with
    | nil => cases h
    | cons b' bs =>
      rw [List.forall_mem_cons] at has hbs
      have hterm := divergenceTerm_nonneg has.1 hbs.1
      have hrest := divergence_nonneg has.2 hbs.2
      rw [divergence_cons]
      rw [List.zip_cons_cons, List.mem_cons, Prod.mk.injEq] at h
      rcases h with ⟨rfl, rfl⟩ | h
      · exact le_add_of_nonneg_right hrest
      · exact (ih has.2 hbs.2 h).trans (le_add_of_nonneg_left hterm)

/-- Against a list with one number throughout, every number of the other list counts. -/
theorem divergenceTerm_le_divergence_of_const {a b : ℝ} (has : as = List.replicate bs.length a)
    (ha : 0 < a) (hbs : ∀ b ∈ bs, 0 < b) (hb : b ∈ bs) : divergenceTerm a b ≤ divergence as bs := by
  have hpos : ∀ a' ∈ as, 0 < a' := by
    intro a' ha'
    rw [has] at ha'
    rw [List.eq_of_mem_replicate ha']
    exact ha
  refine divergenceTerm_le_divergence hpos hbs ?_
  rw [has]
  clear has hpos hbs
  induction bs with
  | nil => cases hb
  | cons b' bs ih =>
    rw [List.length_cons, List.replicate_succ, List.zip_cons_cons, List.mem_cons]
    rcases List.mem_cons.mp hb with rfl | hb
    · exact .inl rfl
    · exact .inr (ih hb)

end Lists

end

end Chronoq.Foundations
