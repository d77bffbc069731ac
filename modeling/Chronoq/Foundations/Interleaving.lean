import Mathlib

/-! # Two programs that take their steps in turn

A program is what its step number `n` does to the shared state, and an interleaving is the list of
the sides in the order in which they take their steps.

* `execFrom l r m n w s`: the interleaving `w` from `s`, when the left program has already taken `m`
  steps and the right one `n`.
* `takenBefore a w n`: the number of steps side `a` has taken when the other side takes its step `n`.
* `lt_takenBefore_iff`: the two sides agree on which of two steps comes first.
* `execFrom_invariant`: an invariant indexed by the steps taken is checked at each step at the point
  where the interleaving takes it.
* `runAlone`: a program that nobody interrupts. -/

namespace Chronoq.Foundations

set_option autoImplicit false

inductive Side
  | left
  | right
  deriving DecidableEq, Repr

/-! ## Positions -/

/-- The steps of side `a` before step `n` of the other side, or all of them if there is none. -/
def takenBefore (a : Side) : List Side → ℕ → ℕ
  | [], _ => 0
  | b :: w, 0 => if b = a then takenBefore a w 0 + 1 else 0
  | b :: w, n + 1 => if b = a then takenBefore a w (n + 1) + 1 else takenBefore a w n

variable {w : List Side}

@[simp] theorem takenBefore_cons_self (a : Side) (w : List Side) (n : ℕ) :
    takenBefore a (a :: w) n = takenBefore a w n + 1 := by
  cases n with
  | zero => rw [takenBefore, if_pos rfl]
  | succ n => rw [takenBefore, if_pos rfl]

theorem takenBefore_cons_zero {a b : Side} (h : b ≠ a) (w : List Side) :
    takenBefore a (b :: w) 0 = 0 := by
  rw [takenBefore, if_neg h]

theorem takenBefore_cons_succ {a b : Side} (h : b ≠ a) (w : List Side) (n : ℕ) :
    takenBefore a (b :: w) (n + 1) = takenBefore a w n := by
  rw [takenBefore, if_neg h]

theorem takenBefore_le_succ (a : Side) (w : List Side) (n : ℕ) :
    takenBefore a w n ≤ takenBefore a w (n + 1) := by
  induction w generalizing n with
  | nil => exact le_refl _
  | cons b w ih =>
    by_cases h : b = a
    · subst h
      rw [takenBefore_cons_self, takenBefore_cons_self]
      exact Nat.succ_le_succ (ih n)
    · rw [takenBefore_cons_succ h]
      cases n with
      | zero =>
        rw [takenBefore_cons_zero h]
        exact Nat.zero_le _
      | succ n =>
        rw [takenBefore_cons_succ h]
        exact ih n

theorem takenBefore_mono (a : Side) (w : List Side) : Monotone (takenBefore a w) :=
  monotone_nat_of_le_succ (takenBefore_le_succ a w)

/-- Step `n` of the right side comes before step `m` of the left side exactly when at most `m` steps
of the left side come before it. -/
theorem lt_takenBefore_iff {m n : ℕ} (hm : m < w.count .left) (hn : n < w.count .right) :
    n < takenBefore .right w m ↔ takenBefore .left w n ≤ m := by
  induction w generalizing m n with
  | nil => exact absurd hm (Nat.not_lt_zero m)
  | cons a w ih =>
    cases a with
    | left =>
      rw [List.count_cons_self] at hm
      rw [List.count_cons_of_ne (by decide)] at hn
      rw [takenBefore_cons_self]
      cases m with
      | zero =>
        rw [takenBefore_cons_zero (by decide)]
        omega
      | succ m =>
        have h := ih (m := m) (by omega) hn
        rw [takenBefore_cons_succ (by decide)]
        omega
    | right =>
      rw [List.count_cons_of_ne (by decide)] at hm
      rw [List.count_cons_self] at hn
      rw [takenBefore_cons_self]
      cases n with
      | zero =>
        rw [takenBefore_cons_zero (by decide)]
        omega
      | succ n =>
        have h := ih (n := n) hm (by omega)
        rw [takenBefore_cons_succ (by decide)]
        omega

/-! ## Execution -/

variable {σ : Type} {l r : ℕ → σ → σ}

def execFrom (l r : ℕ → σ → σ) : ℕ → ℕ → List Side → σ → σ
  | _, _, [], s => s
  | m, n, .left :: w, s => execFrom l r (m + 1) n w (l m s)
  | m, n, .right :: w, s => execFrom l r m (n + 1) w (r n s)

theorem execFrom_invariant {P : ℕ → ℕ → σ → Prop} {m n : ℕ} {s : σ} (h : P m n s)
    (hleft : ∀ j < w.count .left, ∀ s, P (m + j) (n + takenBefore .right w j) s →
      P (m + j + 1) (n + takenBefore .right w j) (l (m + j) s))
    (hright : ∀ j < w.count .right, ∀ s, P (m + takenBefore .left w j) (n + j) s →
      P (m + takenBefore .left w j) (n + j + 1) (r (n + j) s)) :
    P (m + w.count .left) (n + w.count .right) (execFrom l r m n w s) := by
  induction w generalizing m n s with
  | nil => exact h
  | cons a w ih =>
    cases a with
    | left =>
      rw [List.count_cons_self, List.count_cons_of_ne (by decide)] at *
      have hstep := hleft 0 (Nat.succ_pos _) s
      rw [takenBefore_cons_zero (by decide)] at hstep
      have e : m + (w.count .left + 1) = m + 1 + w.count .left := by omega
      rw [execFrom, e]
      refine ih (hstep h) (fun j hj s => ?_) (fun j hj s => ?_)
      · have hnext := hleft (j + 1) (by omega) s
        rw [takenBefore_cons_succ (by decide)] at hnext
        have e : m + (j + 1) = m + 1 + j := by omega
        rwa [e] at hnext
      · have hnext := hright j hj s
        rw [takenBefore_cons_self] at hnext
        have e : m + (takenBefore .left w j + 1) = m + 1 + takenBefore .left w j := by omega
        rwa [e] at hnext
    | right =>
      rw [List.count_cons_self, List.count_cons_of_ne (by decide)] at *
      have hstep := hright 0 (Nat.succ_pos _) s
      rw [takenBefore_cons_zero (by decide)] at hstep
      have e : n + (w.count .right + 1) = n + 1 + w.count .right := by omega
      rw [execFrom, e]
      refine ih (hstep h) (fun j hj s => ?_) (fun j hj s => ?_)
      · have hnext := hleft j hj s
        rw [takenBefore_cons_self] at hnext
        have e : n + (takenBefore .right w j + 1) = n + 1 + takenBefore .right w j := by omega
        rwa [e] at hnext
      · have hnext := hright (j + 1) (by omega) s
        rw [takenBefore_cons_succ (by decide)] at hnext
        have e : n + (j + 1) = n + 1 + j := by omega
        rwa [e] at hnext

/-- The whole of an interleaving, from its first steps on. -/
theorem exec_invariant {P : ℕ → ℕ → σ → Prop} {s : σ} (h : P 0 0 s)
    (hleft : ∀ m < w.count .left, ∀ s, P m (takenBefore .right w m) s →
      P (m + 1) (takenBefore .right w m) (l m s))
    (hright : ∀ n < w.count .right, ∀ s, P (takenBefore .left w n) n s →
      P (takenBefore .left w n) (n + 1) (r n s)) :
    P (w.count .left) (w.count .right) (execFrom l r 0 0 w s) := by
  have := execFrom_invariant (l := l) (r := r) (w := w) (P := P) h
    (by simpa only [Nat.zero_add] using hleft) (by simpa only [Nat.zero_add] using hright)
  rwa [Nat.zero_add, Nat.zero_add] at this

/-! ## A program alone -/

def runAlone (l : ℕ → σ → σ) : ℕ → σ → σ
  | 0, s => s
  | n + 1, s => l n (runAlone l n s)

@[simp] theorem runAlone_zero (l : ℕ → σ → σ) (s : σ) : runAlone l 0 s = s := rfl

@[simp] theorem runAlone_succ (l : ℕ → σ → σ) (n : ℕ) (s : σ) :
    runAlone l (n + 1) s = l n (runAlone l n s) := rfl

end Chronoq.Foundations
