import Chronoq.Foundations.Drain
import Chronoq.Foundations.Pairs

/-! # What an order costs

Tasks that run one after another end at the prefix sums of their lengths. The sum of these times is a sum
over the pairs of tasks, of the length of the one that comes first (`sum_completionTimes`). So two orders
differ by the pairs which they turn around only: `sum_completionTimes_sub` for a stable order of some key
against the order given, `sum_completionTimes_sortBy` for such an order against the least possible. -/

namespace Chronoq.Foundations

set_option autoImplicit false

variable {α κ K : Type*}

/-- The times at which the tasks end that are run in turn from `t` on. -/
def completionTimes [Add K] (length : α → K) (t : K) : List α → List K
  | [] => []
  | a :: l => (t + length a) :: completionTimes length (t + length a) l

theorem completionTimes_map {β : Type*} [Add K] (length : α → K) (f : β → α) (t : K) (l : List β) :
    completionTimes length t (l.map f) = completionTimes (fun b => length (f b)) t l := by
  induction l generalizing t with
  | nil => rfl
  | cons b l ih => rw [List.map_cons, completionTimes, completionTimes, ih]

/-! ## Sums over pairs -/

section Pairs
variable [AddCommMonoid K]

theorem sum_pairsOf_cons (g : α × α → K) (a : α) (l : List α) :
    ((pairsOf (a :: l)).map g).sum = (l.map fun b => g (a, b)).sum + ((pairsOf l).map g).sum := by
  rw [pairsOf, List.map_append, List.sum_append, List.map_map]
  rfl

theorem sum_pairsOf_perm {g : α × α → K} (hsymm : ∀ a b, g (a, b) = g (b, a)) {l l' : List α}
    (h : l.Perm l') : ((pairsOf l).map g).sum = ((pairsOf l').map g).sum := by
  induction h with
  | nil => rfl
  | cons a h ih => rw [sum_pairsOf_cons, sum_pairsOf_cons, ih, (h.map _).sum_eq]
  | swap a b l =>
    -- only the pair of the two tasks themselves is turned around
    simp only [sum_pairsOf_cons, List.map_cons, List.sum_cons, hsymm a b]
    abel
  | trans _ _ ih ih' => rw [ih, ih']

variable [LinearOrder κ] (key : α → κ)

theorem sum_pairsOf_orderedInsert (g : α × α → K) (a : α) {l : List α}
    (hl : l.Pairwise fun b c => key b ≤ key c) :
    ((pairsOf (l.orderedInsert (fun b c => key b ≤ key c) a)).map g).sum =
      (l.map fun b => if key a ≤ key b then g (a, b) else g (b, a)).sum + ((pairsOf l).map g).sum := by
  induction l with
  | nil => rw [List.orderedInsert_nil, sum_pairsOf_cons]; rfl
  | cons b l ih =>
    obtain ⟨hb, hl⟩ := List.pairwise_cons.mp hl
    rw [List.orderedInsert_cons]
    by_cases hab : key a ≤ key b
    · rw [if_pos hab, sum_pairsOf_cons]
      congr 2
      refine List.map_congr_left fun c hc => ?_
      rcases List.mem_cons.mp hc with rfl | hc
      · rw [if_pos hab]
      · rw [if_pos (hab.trans (hb c hc))]
    · have hins : ((l.orderedInsert (fun b c => key b ≤ key c) a).map fun c => g (b, c)).sum =
          g (b, a) + (l.map fun c => g (b, c)).sum := by
        rw [((List.perm_orderedInsert _ a l).map _).sum_eq, List.map_cons, List.sum_cons]
      rw [if_neg hab, sum_pairsOf_cons, hins, ih hl, sum_pairsOf_cons, List.map_cons, List.sum_cons,
        if_neg hab]
      abel

/-- Every pair is seen in the order of the keys, and where these are equal as it was. -/
theorem sum_pairsOf_sortBy (g : α × α → K) (l : List α) :
    ((pairsOf (sortBy key l)).map g).sum =
      ((pairsOf l).map fun p => if key p.1 ≤ key p.2 then g p else g (p.2, p.1)).sum := by
  induction l with
  | nil => rfl
  | cons a l ih =>
    rw [sortBy_cons, sum_pairsOf_orderedInsert key g a (pairwise_sortBy key l), ih, sum_pairsOf_cons,
      ((sortBy_perm key l).map _).sum_eq]

end Pairs

/-! ## Completion times -/

section Field
variable [Field K] (length : α → K)

theorem sum_completionTimes (t : K) (l : List α) :
    (completionTimes length t l).sum =
      l.length * t + (l.map length).sum + ((pairsOf l).map fun p => length p.1).sum := by
  induction l generalizing t with
  | nil => simp [completionTimes, pairsOf]
  | cons a l ih =>
    have hconst : (l.map fun _ => length a).sum = l.length * length a := by
      rw [List.map_const', List.sum_replicate, nsmul_eq_mul]
    rw [completionTimes, List.sum_cons, ih, sum_pairsOf_cons, hconst, List.map_cons, List.sum_cons,
      List.length_cons, Nat.cast_add, Nat.cast_one]
    ring

variable [LinearOrder κ] (key : α → κ)

/-- A stable order of the keys gains the difference in length of every pair that it turns around. -/
theorem sum_completionTimes_sub (t : K) (l : List α) :
    (completionTimes length t l).sum - (completionTimes length t (sortBy key l)).sum =
      ((pairsOf l).map fun p => if key p.1 ≤ key p.2 then 0 else length p.1 - length p.2).sum := by
  have hpairs : ((pairsOf l).map fun p => length p.1).sum =
      ((pairsOf l).map fun p => if key p.1 ≤ key p.2 then 0 else length p.1 - length p.2).sum +
        ((pairsOf l).map fun p => if key p.1 ≤ key p.2 then length p.1 else length p.2).sum := by
    rw [← List.sum_map_add]
    refine congrArg List.sum (List.map_congr_left fun p _ => ?_)
    split
    · rw [zero_add]
    · rw [sub_add_cancel]
  have hsorted := sum_pairsOf_sortBy key (fun p => length p.1) l
  rw [sum_completionTimes, sum_completionTimes, (sortBy_perm key l).length_eq,
    ((sortBy_perm key l).map length).sum_eq, hsorted, hpairs]
  ring

variable [LinearOrder K] [IsStrictOrderedRing K]

/-- The pairs that an order has the wrong way round, with what each of them costs. -/
theorem sum_completionTimes_eq_least_add {l l' : List α} (h : l.Perm l')
    (hl' : l'.Pairwise fun a b => length a ≤ length b) (t : K) :
    (completionTimes length t l).sum = (completionTimes length t l').sum +
      ((pairsOf l).map fun p => max 0 (length p.1 - length p.2)).sum := by
  have hsplit : ∀ l : List α, ((pairsOf l).map fun p => length p.1).sum =
      ((pairsOf l).map fun p => min (length p.1) (length p.2)).sum +
        ((pairsOf l).map fun p => max 0 (length p.1 - length p.2)).sum := by
    intro l
    rw [← List.sum_map_add]
    refine congrArg List.sum (List.map_congr_left fun p _ => ?_)
    rcases le_total (length p.1) (length p.2) with hle | hle
    · rw [min_eq_left hle, max_eq_left (by linarith), add_zero]
    · rw [min_eq_right hle, max_eq_right (by linarith), add_sub_cancel]
  have hzero : ((pairsOf l').map fun p => max 0 (length p.1 - length p.2)).sum = 0 := by
    apply List.sum_eq_zero
    intro x hx
    obtain ⟨p, hp, rfl⟩ := List.mem_map.mp hx
    have hle : length p.1 ≤ length p.2 :=
      forall_mem_pairsOf_iff (r := fun a b => length a ≤ length b).mpr hl' p hp
    exact max_eq_left (by linarith)
  have hmin := sum_pairsOf_perm (g := fun p => min (length p.1) (length p.2))
    (fun a b => min_comm _ _) h
  rw [sum_completionTimes, sum_completionTimes, h.length_eq, (h.map length).sum_eq, hsplit l, hsplit l',
    hzero, hmin]
  ring

/-- A stable order of the keys costs, over the least, the difference in length of every pair that the keys
have the wrong way round. -/
theorem sum_completionTimes_sortBy (t : K) (l : List α) :
    (completionTimes length t (sortBy key l)).sum = (completionTimes length t (sortBy length l)).sum +
      ((pairsOf l).map fun p => if key p.1 ≤ key p.2 then max 0 (length p.1 - length p.2)
        else max 0 (length p.2 - length p.1)).sum := by
  have hperm : (sortBy key l).Perm (sortBy length l) :=
    (sortBy_perm key l).trans (sortBy_perm length l).symm
  rw [sum_completionTimes_eq_least_add length hperm (pairwise_sortBy length l) t,
    sum_pairsOf_sortBy key]

theorem sum_completionTimes_least {l l' : List α} (h : l.Perm l')
    (hl' : l'.Pairwise fun a b => length a ≤ length b) (t : K) :
    (completionTimes length t l').sum ≤ (completionTimes length t l).sum := by
  rw [sum_completionTimes_eq_least_add length h hl' t]
  apply le_add_of_nonneg_right
  apply List.sum_nonneg
  intro x hx
  obtain ⟨p, -, rfl⟩ := List.mem_map.mp hx
  exact le_max_left _ _

end Field

end Chronoq.Foundations
