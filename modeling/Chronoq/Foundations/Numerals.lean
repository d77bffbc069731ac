import Mathlib

/-! # Lexicographic order of texts with numbers of a fixed width

`decimal w n` is `n` in `w` decimal digits. Where such numbers stand at the same places of two texts,
the texts are ordered as the first numbers that differ.

* `LexLt a a' P`: `a` comes before `a'`, or is the same and `P` decides.
* `decimal_append_lt_iff`, `cons_lt_cons_iff`: comparing two texts by what they begin with.
* `lexLt_mul_add`: the same for a number in a mixed radix, `a * k + b` with `b < k`.
* `readDecimal_decimal`: reading `w` digits gives back what was written. -/

namespace Chronoq.Foundations

set_option autoImplicit false

/-! ## First differences -/

/-- `a` is before `a'`, or they are equal and `P` holds. -/
def LexLt {α : Type*} [LT α] (a a' : α) (P : Prop) : Prop := a < a' ∨ a = a' ∧ P

section LexLt
variable {α : Type*} {P : Prop}

theorem lexLt_of_not [LT α] {a a' : α} (h : ¬ P) : LexLt a a' P ↔ a < a' := by
  unfold LexLt
  simp [h]

theorem lexLt_natCast {m n : ℕ} : LexLt (m : ℤ) n P ↔ LexLt m n P := by
  unfold LexLt
  rw [Nat.cast_lt, Nat.cast_inj]

theorem lexLt_sub_right {a a' : ℤ} (c : ℤ) : LexLt (a - c) (a' - c) P ↔ LexLt a a' P := by
  unfold LexLt
  rw [sub_lt_sub_iff_right, sub_left_inj]

theorem lexLt_self [Preorder α] (a : α) : LexLt a a P ↔ P := by
  unfold LexLt
  simp

theorem lexLt_of_lt [LT α] {a a' : α} (h : a < a') : LexLt a a' P := .inl h

theorem not_lexLt_of_lt [Preorder α] {a a' : α} (h : a' < a) : ¬ LexLt a a' P := by
  rintro (h' | ⟨rfl, -⟩)
  · exact lt_asymm h h'
  · exact lt_irrefl a h

/-- A number in a mixed radix is compared by its leading part first. -/
theorem lexLt_mul_add {a a' b b' k : ℤ} (hb : 0 ≤ b) (hbk : b < k) (hb' : 0 ≤ b') (hbk' : b' < k) :
    LexLt (a * k + b) (a' * k + b') P ↔ LexLt a a' (LexLt b b' P) := by
  obtain h | rfl | h := lt_trichotomy a a'
  · have hle : (a + 1) * k ≤ a' * k := by gcongr <;> omega
    exact iff_of_true (.inl (by linarith)) (.inl h)
  · rw [lexLt_self]
    unfold LexLt
    simp
  · have hle : (a' + 1) * k ≤ a * k := by gcongr <;> omega
    exact iff_of_false (not_lexLt_of_lt (by linarith)) (not_lexLt_of_lt h)

end LexLt

/-! ## Texts -/

section Lists
variable {α : Type*} [LinearOrder α]

theorem cons_lt_cons_iff {a a' : α} {as bs : List α} :
    a :: as < a' :: bs ↔ LexLt a a' (as < bs) :=
  List.cons_lt_cons_iff

theorem cons_lt_cons_self_iff (a : α) {as bs : List α} : a :: as < a :: bs ↔ as < bs := by
  rw [cons_lt_cons_iff, lexLt_self]

/-- Two texts that begin with equally long parts. -/
theorem append_lt_append_iff {as bs as' bs' : List α} (h : as.length = bs.length) :
    as ++ as' < bs ++ bs' ↔ LexLt as bs (as' < bs') := by
  induction as generalizing bs with
  | nil =>
    obtain rfl := List.length_eq_zero_iff.mp h.symm
    rw [List.nil_append, List.nil_append, lexLt_self]
  | cons a as ih =>
    obtain ⟨b, bs, rfl⟩ := List.exists_cons_of_length_eq_add_one h.symm
    have hlength : as.length = bs.length := by simpa using h
    simp only [List.cons_append, cons_lt_cons_iff, ih hlength, LexLt, List.cons.injEq]
    tauto

end Lists

/-! ## Decimal digits -/

/-- `n` in `w` decimal digits, with leading zeros. -/
def decimal : ℕ → ℕ → List Char
  | 0, _ => []
  | w + 1, n => Nat.digitChar (n / 10 ^ w) :: decimal w (n % 10 ^ w)

/-- Read `w` decimal digits. -/
def readDecimal : ℕ → List Char → Option (ℕ × List Char)
  | 0, cs => some (0, cs)
  | _ + 1, [] => none
  | w + 1, c :: cs =>
    if c.isDigit then
      (readDecimal w cs).map fun read => ((c.toNat - 48) * 10 ^ w + read.1, read.2)
    else none

@[simp] theorem decimal_length (w n : ℕ) : (decimal w n).length = w := by
  induction w generalizing n with
  | zero => rfl
  | succ w ih => rw [decimal, List.length_cons, ih]

theorem digitChar_lt_iff {m n : ℕ} (hm : m < 10) (hn : n < 10) :
    Nat.digitChar m < Nat.digitChar n ↔ m < n := by
  interval_cases m <;> interval_cases n <;> decide

theorem digitChar_injective {m n : ℕ} (hm : m < 10) (hn : n < 10)
    (h : Nat.digitChar m = Nat.digitChar n) : m = n := by
  obtain hlt | heq | hlt := lt_trichotomy m n
  · exact absurd ((digitChar_lt_iff hm hn).mpr hlt) (by rw [h]; exact lt_irrefl _)
  · exact heq
  · exact absurd ((digitChar_lt_iff hn hm).mpr hlt) (by rw [h]; exact lt_irrefl _)

theorem div_lt_ten {w n : ℕ} (h : n < 10 ^ (w + 1)) : n / 10 ^ w < 10 := by
  rw [pow_succ, mul_comm] at h
  exact Nat.div_lt_of_lt_mul (by rwa [mul_comm] at h)

/-- Numbers of the same width are ordered as their digits are. -/
theorem decimal_lt_iff {w m n : ℕ} (hm : m < 10 ^ w) (hn : n < 10 ^ w) :
    decimal w m < decimal w n ↔ m < n := by
  induction w generalizing m n with
  | zero =>
    rw [pow_zero] at hm hn
    exact iff_of_false (List.not_lt_nil _) (by omega)
  | succ w ih =>
    have hpos : 0 < 10 ^ w := by positivity
    have hm' := Nat.mod_lt m hpos
    have hn' := Nat.mod_lt n hpos
    have hm₀ := div_lt_ten hm
    have hn₀ := div_lt_ten hn
    rw [decimal, decimal, cons_lt_cons_iff, LexLt, digitChar_lt_iff hm₀ hn₀, ih hm' hn']
    obtain hlt | heq | hlt := lt_trichotomy (m / 10 ^ w) (n / 10 ^ w)
    · exact iff_of_true (.inl hlt) (Nat.lt_of_div_lt_div hlt)
    · have hm₁ := Nat.div_add_mod m (10 ^ w)
      have hn₁ := Nat.div_add_mod n (10 ^ w)
      rw [heq] at hm₁ ⊢
      simp only [lt_irrefl, false_or, true_and]
      omega
    · have hne : Nat.digitChar (m / 10 ^ w) ≠ Nat.digitChar (n / 10 ^ w) :=
        fun h => hlt.ne' (digitChar_injective hm₀ hn₀ h)
      refine iff_of_false ?_ (Nat.lt_of_div_lt_div hlt).not_gt
      rintro (hlt' | ⟨heq, -⟩)
      · exact lt_asymm hlt hlt'
      · exact hne heq

theorem decimal_injective {w m n : ℕ} (hm : m < 10 ^ w) (hn : n < 10 ^ w)
    (h : decimal w m = decimal w n) : m = n := by
  obtain hlt | heq | hlt := lt_trichotomy m n
  · exact absurd ((decimal_lt_iff hm hn).mpr hlt) (by rw [h]; exact lt_irrefl _)
  · exact heq
  · exact absurd ((decimal_lt_iff hn hm).mpr hlt) (by rw [h]; exact lt_irrefl _)

theorem decimal_append_lt_iff {w m n : ℕ} {as bs : List Char} (hm : m < 10 ^ w) (hn : n < 10 ^ w) :
    decimal w m ++ as < decimal w n ++ bs ↔ LexLt m n (as < bs) := by
  rw [append_lt_append_iff (by simp)]
  unfold LexLt
  rw [decimal_lt_iff hm hn]
  exact or_congr_right (and_congr_left fun _ => ⟨decimal_injective hm hn, fun h => by rw [h]⟩)

theorem readDecimal_decimal {w n : ℕ} (h : n < 10 ^ w) (cs : List Char) :
    readDecimal w (decimal w n ++ cs) = some (n, cs) := by
  induction w generalizing n with
  | zero =>
    rw [pow_zero, Nat.lt_one_iff] at h
    rw [h]
    rfl
  | succ w ih =>
    have hpos : 0 < 10 ^ w := by positivity
    have hdigit : ∀ d < 10, (Nat.digitChar d).isDigit ∧ (Nat.digitChar d).toNat - 48 = d := by
      decide
    obtain ⟨hisDigit, hvalue⟩ := hdigit _ (div_lt_ten h)
    rw [decimal, List.cons_append, readDecimal, if_pos hisDigit, ih (Nat.mod_lt n hpos), hvalue]
    simp only [Option.map_some, Nat.div_add_mod']

end Chronoq.Foundations
