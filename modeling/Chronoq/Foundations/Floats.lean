import Chronoq.Foundations.Statistics

/-! # Binary floating-point numbers

A format rounds a rational to the nearest multiple of its unit in the last place, ties to even, and to
an infinity where the rounded magnitude leaves its range.

* `round_finite_iff`: what rounds to a number. Half a unit below the end of the range is too much.
* `round_intCast`: integers with no more bits than the significand are exact. -/

namespace Chronoq.Foundations

set_option autoImplicit false

/-- A floating-point value, without the sign of a zero. -/
inductive ExtFloat
  | finite (x : ℚ)
  | posInf
  | negInf
  | nan
  deriving DecidableEq, Repr

instance : Coe ℚ ExtFloat := ⟨.finite⟩

def ExtFloat.isFinite : ExtFloat → Bool
  | .finite _ => true
  | _ => false

theorem ExtFloat.isFinite_iff {x : ExtFloat} : x.isFinite = true ↔ ∃ y, x = .finite y := by
  cases x <;> simp [isFinite]

/-- The number, where there is one. -/
def ExtFloat.toRat : ExtFloat → ℚ
  | .finite x => x
  | _ => 0

/-- Units in the last place are powers of two from `2 ^ minExponent` on, and magnitudes stay below
`2 ^ maxExponent`. -/
structure BinaryFormat where
  precision : ℕ
  minExponent : ℤ
  maxExponent : ℤ
  precision_pos : 0 < precision
  minExponent_nonpos : minExponent ≤ 0
  precision_le : precision ≤ maxExponent

namespace BinaryFormat
variable (f : BinaryFormat)

/-- The exponent of the unit in the last place of a positive magnitude. -/
def unitExponent (x : ℚ) : ℤ := max (Int.log 2 x + 1 - f.precision) f.minExponent

/-- A magnitude rounded to the precision of the format. -/
def magnitude (x : ℚ) : ℚ :=
  roundHalfEven (x / 2 ^ f.unitExponent x) * 2 ^ f.unitExponent x

def round (x : ℚ) : ExtFloat :=
  if 2 ^ f.maxExponent ≤ f.magnitude |x| then if x < 0 then .negInf else .posInf
  else .finite (if x < 0 then -f.magnitude |x| else f.magnitude |x|)

/-- The least magnitude that is rounded to an infinity. -/
def bound : ℚ := 2 ^ f.maxExponent - 2 ^ (f.maxExponent - f.precision - 1)

variable {f}

/-! ## The range -/

theorem magnitude_le (x : ℚ) : f.magnitude x ≤ x + 2 ^ f.unitExponent x / 2 := by
  have hunit : (0 : ℚ) < 2 ^ f.unitExponent x := by positivity
  calc f.magnitude x ≤ (x / 2 ^ f.unitExponent x + 1 / 2) * 2 ^ f.unitExponent x :=
        mul_le_mul_of_nonneg_right (roundHalfEven_le _) hunit.le
    _ = x + 2 ^ f.unitExponent x / 2 := by field_simp

/-- In the top binade and above it the precision decides on the unit. -/
theorem unitExponent_of_top {x : ℚ} (h : f.maxExponent - 1 ≤ Int.log 2 x) :
    f.unitExponent x = Int.log 2 x + 1 - f.precision := by
  have hmin := f.minExponent_nonpos
  have hprecision := f.precision_le
  exact max_eq_left (by omega)

theorem two_zpow_maxExponent (f : BinaryFormat) :
    (2 : ℚ) ^ f.maxExponent = 2 * 2 ^ (f.maxExponent - 1) := by
  rw [← zpow_one_add₀ (by norm_num)]
  congr 1
  ring

theorem le_of_bound_le {x : ℚ} (h : f.bound ≤ x) : 2 ^ (f.maxExponent - 1) ≤ x := by
  have hhalf : (2 : ℚ) ^ (f.maxExponent - f.precision - 1) ≤ 2 ^ (f.maxExponent - 1) :=
    zpow_le_zpow_right₀ (by norm_num) (by omega)
  rw [bound, two_zpow_maxExponent] at h
  linarith

/-- The end of the range in units of the top binade. -/
theorem two_zpow_maxExponent_eq (f : BinaryFormat) :
    (2 : ℚ) ^ f.maxExponent = ((2 ^ f.precision : ℤ) : ℚ) * 2 ^ (f.maxExponent - f.precision) := by
  push_cast
  rw [← zpow_natCast, ← zpow_add₀ (by norm_num)]
  congr 1
  ring

theorem overflows_of_bound_le {x : ℚ} (h : f.bound ≤ x) : 2 ^ f.maxExponent ≤ f.magnitude x := by
  have hlow := le_of_bound_le h
  have hpos : 0 < x := lt_of_lt_of_le (by positivity) hlow
  have htop : f.maxExponent - 1 ≤ Int.log 2 x :=
    (Int.zpow_le_iff_le_log (by norm_num) hpos).mp (by exact_mod_cast hlow)
  have hexponent := unitExponent_of_top htop
  have hunit : (0 : ℚ) < 2 ^ f.unitExponent x := by positivity
  by_cases hover : f.maxExponent ≤ Int.log 2 x
  · -- `2 ^ log x` is a whole number of units
    have hlog : (2 : ℚ) ^ Int.log 2 x = ((2 ^ (f.precision - 1) : ℤ) : ℚ) * 2 ^ f.unitExponent x := by
      have hprecision := f.precision_pos
      push_cast
      rw [hexponent, ← zpow_natCast, ← zpow_add₀ (by norm_num)]
      congr 1
      omega
    have hself : (2 : ℚ) ^ Int.log 2 x ≤ x := Int.zpow_log_le_self (b := 2) (by norm_num) hpos
    have hround : 2 ^ (f.precision - 1) ≤ roundHalfEven (x / 2 ^ f.unitExponent x) := by
      rw [← roundHalfEven_intCast (K := ℚ) (2 ^ (f.precision - 1))]
      refine roundHalfEven_mono ((le_div_iff₀ hunit).mpr ?_)
      rw [← hlog]
      exact hself
    calc (2 : ℚ) ^ f.maxExponent ≤ 2 ^ Int.log 2 x := zpow_le_zpow_right₀ (by norm_num) hover
      _ = ((2 ^ (f.precision - 1) : ℤ) : ℚ) * 2 ^ f.unitExponent x := hlog
      _ ≤ f.magnitude x := mul_le_mul_of_nonneg_right (by exact_mod_cast hround) hunit.le
  · -- half a unit below the end of the range is a tie, and the end is even
    have hlog : Int.log 2 x = f.maxExponent - 1 := by omega
    have hexponent' : f.unitExponent x = f.maxExponent - f.precision := by omega
    have htie : ((2 ^ f.precision : ℤ) : ℚ) - 1 / 2 ≤ x / 2 ^ f.unitExponent x := by
      have hhalf : (2 : ℚ) ^ (f.maxExponent - f.precision) =
          2 * 2 ^ (f.maxExponent - f.precision - 1) := by
        rw [← zpow_one_add₀ (by norm_num)]
        congr 1
        ring
      rw [bound, two_zpow_maxExponent_eq] at h
      rw [le_div_iff₀ hunit, hexponent', sub_mul]
      linarith
    have hround : 2 ^ f.precision ≤ roundHalfEven (x / 2 ^ f.unitExponent x) := by
      have heven : Even (2 ^ f.precision : ℤ) := even_two.pow_of_ne_zero f.precision_pos.ne'
      rw [← roundHalfEven_sub_half (K := ℚ) heven]
      exact roundHalfEven_mono htie
    rw [two_zpow_maxExponent_eq, ← hexponent']
    exact mul_le_mul_of_nonneg_right (by exact_mod_cast hround) hunit.le

theorem magnitude_lt_of_lt_bound {x : ℚ} (hx : 0 ≤ x) (h : x < f.bound) :
    f.magnitude x < 2 ^ f.maxExponent := by
  obtain rfl | hpos := hx.eq_or_lt
  · rw [magnitude]
    simp only [zero_div]
    rw [show roundHalfEven (0 : ℚ) = 0 by exact_mod_cast roundHalfEven_intCast (K := ℚ) 0]
    simp only [Int.cast_zero, zero_mul]
    positivity
  have hmagnitude := magnitude_le (f := f) x
  by_cases htop : f.maxExponent - 1 ≤ Int.log 2 x
  · -- in the top binade, strictly below the tie
    have hlog : Int.log 2 x = f.maxExponent - 1 := by
      have hlt : x < 2 ^ f.maxExponent := h.trans (sub_lt_self _ (by positivity))
      have hlog' := (Int.lt_zpow_iff_log_lt (b := 2) (by norm_num) hpos).mp (by exact_mod_cast hlt)
      omega
    have hunit : (2 : ℚ) ^ f.unitExponent x = 2 * 2 ^ (f.maxExponent - f.precision - 1) := by
      rw [unitExponent_of_top htop, hlog, ← zpow_one_add₀ (by norm_num)]
      congr 1
      ring
    rw [bound] at h
    rw [hunit] at hmagnitude
    linarith
  · -- below it, the unit is at most the end of the range
    have hlt : x < 2 ^ (f.maxExponent - 1) := by
      have hself := Int.lt_zpow_succ_log_self (b := 2) (by norm_num) x
      refine lt_of_lt_of_le (by exact_mod_cast hself) (zpow_le_zpow_right₀ (by norm_num) ?_)
      omega
    have hunit : (2 : ℚ) ^ f.unitExponent x ≤ 2 ^ f.maxExponent := by
      refine zpow_le_zpow_right₀ (by norm_num) ?_
      have hmin := f.minExponent_nonpos
      have hprecision := f.precision_le
      exact max_le (by omega) (by omega)
    have hend := f.two_zpow_maxExponent
    linarith

theorem round_finite_iff {x : ℚ} : (∃ y, f.round x = .finite y) ↔ |x| < f.bound := by
  unfold round
  by_cases h : |x| < f.bound
  · rw [if_neg (not_le.mpr (magnitude_lt_of_lt_bound (abs_nonneg x) h))]
    exact iff_of_true ⟨_, rfl⟩ h
  · rw [if_pos (overflows_of_bound_le (not_lt.mp h))]
    refine iff_of_false ?_ h
    rintro ⟨y, hy⟩
    split at hy <;> cases hy

/-! ## Exact values -/

theorem magnitude_natCast {n : ℕ} (h : n < 2 ^ f.precision) : f.magnitude n = n := by
  -- the unit is `2 ^ -k`, of which `n` is a whole number
  obtain ⟨k, hk⟩ : ∃ k : ℕ, f.unitExponent n = -(k : ℤ) := by
    have hlog : Int.log 2 (n : ℚ) < f.precision := by
      rcases n.eq_zero_or_pos with rfl | hpos
      · have hprecision := f.precision_pos
        simpa using hprecision
      · rw [Int.log_natCast]
        exact_mod_cast Nat.log_lt_of_lt_pow hpos.ne' h
    have hmin := f.minExponent_nonpos
    have hnonpos : f.unitExponent n ≤ 0 := max_le (by omega) hmin
    exact ⟨(-f.unitExponent n).toNat, by omega⟩
  have hpow : (2 : ℚ) ^ k ≠ 0 := by positivity
  have hunits : (n : ℚ) / (2 ^ k)⁻¹ = ((n * 2 ^ k : ℤ) : ℚ) := by
    push_cast
    rw [div_inv_eq_mul]
  rw [magnitude, hk]
  simp only [zpow_neg, zpow_natCast]
  rw [hunits, roundHalfEven_intCast]
  push_cast
  rw [mul_assoc, mul_inv_cancel₀ hpow, mul_one]

theorem round_intCast {n : ℤ} (h : n.natAbs < 2 ^ f.precision) : f.round n = .finite n := by
  have habs : |(n : ℚ)| = (n.natAbs : ℚ) := by
    rw [Nat.cast_natAbs]
    push_cast
    rfl
  have hmagnitude : f.magnitude |(n : ℚ)| = |(n : ℚ)| := by
    rw [habs]
    exact magnitude_natCast h
  have hrange : (n.natAbs : ℚ) < 2 ^ f.maxExponent := by
    calc (n.natAbs : ℚ) < 2 ^ f.precision := by exact_mod_cast h
      _ = 2 ^ (f.precision : ℤ) := (zpow_natCast _ _).symm
      _ ≤ 2 ^ f.maxExponent := zpow_le_zpow_right₀ (by norm_num) f.precision_le
  rw [round, hmagnitude, if_neg (not_le.mpr (by rw [habs]; exact hrange))]
  congr 1
  split
  · next hneg => rw [abs_of_neg hneg, neg_neg]
  · next hnonneg => exact abs_of_nonneg (not_lt.mp hnonneg)

end BinaryFormat

/-! ## Double and single precision -/

def binary64 : BinaryFormat := ⟨53, -1074, 1024, by decide, by decide, by decide⟩

def binary32 : BinaryFormat := ⟨24, -149, 128, by decide, by decide, by decide⟩

/-- A double cast to single precision. -/
def toFloat32 : ExtFloat → ExtFloat
  | .finite x => binary32.round x
  | x => x

/-- Single precision has a number for the value. -/
def ExtFloat.isSingle (x : ExtFloat) : Bool := (toFloat32 x).isFinite

theorem ExtFloat.isSingle_finite_iff {x : ℚ} :
    (ExtFloat.finite x).isSingle = true ↔ |x| < binary32.bound := by
  rw [isSingle, isFinite_iff]
  exact BinaryFormat.round_finite_iff

theorem isSingle_intCast {n : ℤ} (h : n.natAbs < 2 ^ 53) : (ExtFloat.finite n).isSingle = true := by
  have habs : |(n : ℚ)| = (n.natAbs : ℚ) := by
    rw [Nat.cast_natAbs]
    push_cast
    rfl
  have hbound : ((2 ^ 53 : ℕ) : ℚ) ≤ binary32.bound := by
    rw [BinaryFormat.bound]
    norm_num [binary32]
  rw [ExtFloat.isSingle_finite_iff, habs]
  exact lt_of_lt_of_le (by exact_mod_cast h) hbound

theorem toFloat32_natCast {n : ℕ} (h : n < 2 ^ 24) : toFloat32 (.finite n) = .finite n :=
  BinaryFormat.round_intCast (f := binary32) (n := (n : ℤ)) h

end Chronoq.Foundations
