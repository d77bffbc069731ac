import Chronoq.Foundations.Ranking
import Chronoq.Foundations.Schedule

/-! # Nearly the shortest first

Taking, of the tasks of some prefix of the arrivals, not the shortest one but one that is at most `ε` longer
than any of them. Whatever the first `k` choices do not share with the first `k` arrivals can be paired
off (`exists_exchange`), and there are at most `min k (n - k)` such tasks. So the finish times add up to at
most `ε * n ^ 2 / 4` more than those of the arrival order (`Schedule.sum_finish_le_add`). -/

namespace Chronoq.Foundations

set_option autoImplicit false

variable {α : Type*}

/-- `c` is related to all of the first elements of `order` that are not in `before`. -/
def FirstOfPrefix (r : α → α → Prop) (order before : List α) (c : α) : Prop :=
  ∃ (waiting : List α) (m : ℕ), (waiting ++ before).Perm (order.take m) ∧ c ∈ waiting ∧
    ∀ w ∈ waiting, r c w

theorem FirstOfPrefix.rel {r : α → α → Prop} [DecidableEq α] {order before : List α} {x y : α} {k : ℕ}
    (h : FirstOfPrefix r order before x) (hx : (order.take k).count x ≤ before.count x)
    (hy : before.count y < (order.take k).count y) : r x y := by
  classical
  obtain ⟨waiting, m, hperm, hmem, hall⟩ := h
  -- what `x` is related to, as a key of which `x` is least
  have hleast : LeastOfPrefix (fun a => if r x a then 1 else 0) order before x := by
    refine ⟨waiting, m, hperm, hmem, fun w hw => ?_⟩
    simp only [if_pos (hall x hmem), if_pos (hall w hw), le_refl]
  have hle := hleast.le hx hy
  by_contra hnot
  simp [hall x hmem, hnot] at hle

/-- The first `k` choices and the first `k` of the order share all but some tasks that are related. -/
theorem exists_exchange {r : α → α → Prop} {order chosen : List α} (hperm : chosen.Perm order)
    (hfirst : EachWithPast (FirstOfPrefix r order) chosen) (k : ℕ) :
    ∃ shared gone came : Multiset α, (chosen.take k : Multiset α) = gone + shared ∧
      (order.take k : Multiset α) = came + shared ∧ Multiset.card gone = Multiset.card came ∧
      Multiset.card gone ≤ min k (order.length - k) ∧ ∀ x ∈ gone, ∀ y ∈ came, r x y := by
  classical
  obtain ⟨A, hA⟩ : ∃ A : Multiset α, A = chosen.take k := ⟨_, rfl⟩
  obtain ⟨F, hF⟩ : ∃ F : Multiset α, F = order.take k := ⟨_, rfl⟩
  have hA' : A - F + A ∩ F = A := Multiset.sub_add_inter A F
  have hF' : F - A + A ∩ F = F := by
    rw [Multiset.inter_comm]
    exact Multiset.sub_add_inter F A
  have hlength := hperm.length_eq
  have hcardA : Multiset.card A = min k order.length := by
    rw [hA, Multiset.coe_card, List.length_take, hlength]
  have hcardF : Multiset.card F = min k order.length := by
    rw [hF, Multiset.coe_card, List.length_take]
  have hcard := congrArg Multiset.card hA'
  have hcard' := congrArg Multiset.card hF'
  rw [Multiset.card_add] at hcard hcard'
  have hrest : F - A ≤ (chosen.drop k : Multiset α) := by
    rw [Multiset.sub_le_iff_le_add, hA, hF, add_comm, Multiset.coe_add, List.take_append_drop]
    exact (List.take_sublist k order).subperm.trans hperm.symm.subperm
  have hcardrest := Multiset.card_le_card hrest
  rw [Multiset.coe_card, List.length_drop, hlength] at hcardrest
  refine ⟨A ∩ F, A - F, F - A, by rw [← hA, hA'], by rw [← hF, hF'], by omega, by omega, ?_⟩
  intro x hx y hy
  rw [Multiset.mem_sub, hA, hF, Multiset.coe_count, Multiset.coe_count] at hx hy
  -- the last of the first `k` choices that is `x`
  have hmem : x ∈ (chosen.take k).reverse :=
    List.mem_reverse.mpr (List.count_pos_iff.mp (Nat.zero_lt_of_lt hx))
  obtain ⟨post, pre, hsplit, hpost⟩ := List.eq_append_cons_of_mem hmem
  have htake : chosen.take k = pre.reverse ++ x :: post.reverse := by
    rw [← List.reverse_reverse (chosen.take k), hsplit]
    simp
  have hchosen : chosen = pre.reverse ++ x :: (post.reverse ++ chosen.drop k) := by
    conv_lhs => rw [← List.take_append_drop k chosen, htake]
    simp
  have hcount := fun a => congrArg (List.count a) htake
  simp only [List.count_append, List.count_cons] at hcount
  have hcountx := hcount x
  have hcounty := hcount y
  have hnone : post.reverse.count x = 0 := List.count_eq_zero.mpr (by simpa using hpost)
  rw [hnone, if_pos (beq_self_eq_true x)] at hcountx
  exact (hfirst _ _ _ hchosen).rel (k := k) (by omega) (by omega)

/-! ## Sums -/

section Sums
variable {K : Type*} [Field K] [LinearOrder K] [IsStrictOrderedRing K] {key : α → K} {ε : K}

theorem sum_map_le_add {A B : Multiset α} (hcard : Multiset.card A = Multiset.card B)
    (h : ∀ x ∈ A, ∀ y ∈ B, key x ≤ key y + ε) :
    (A.map key).sum ≤ (B.map key).sum + Multiset.card A * ε := by
  -- both sides as one key, on two copies of the tasks
  have hle : ∀ x ∈ A.map Sum.inl, ∀ y ∈ B.map Sum.inr,
      Sum.elim key (fun y => key y + ε) x ≤ Sum.elim key (fun y => key y + ε) y := by
    intro x hx y hy
    obtain ⟨x', hx', rfl⟩ := Multiset.mem_map.mp hx
    obtain ⟨y', hy', rfl⟩ := Multiset.mem_map.mp hy
    exact h x' hx' y' hy'
  have hsum := sum_map_le_of_forall_le (by rw [Multiset.card_map, Multiset.card_map, hcard]) hle
  rw [Multiset.map_map, Multiset.map_map] at hsum
  simp only [Function.comp_def, Sum.elim_inl, Sum.elim_inr, Multiset.sum_map_add, Multiset.map_const',
    Multiset.sum_replicate, nsmul_eq_mul, ← hcard] at hsum
  exact hsum

theorem take_sum_le_add {order chosen : List α} (hε : 0 ≤ ε) (hperm : chosen.Perm order)
    (hfirst : EachWithPast (FirstOfPrefix (fun x y => key x ≤ key y + ε) order) chosen) (k : ℕ) :
    ((chosen.take k).map key).sum ≤
      ((order.take k).map key).sum + (min k (order.length - k) : ℕ) * ε := by
  obtain ⟨shared, gone, came, hchosen, horder, hcard, hle, hrel⟩ := exists_exchange hperm hfirst k
  have hsum := sum_map_le_add hcard hrel
  have hchosen' := congrArg (fun A => (A.map key).sum) hchosen
  have horder' := congrArg (fun A => (A.map key).sum) horder
  simp only [Multiset.map_coe, Multiset.sum_coe, Multiset.map_add, Multiset.sum_add] at hchosen' horder'
  have hcast : (Multiset.card gone : K) * ε ≤ (min k (order.length - k) : ℕ) * ε :=
    mul_le_mul_of_nonneg_right (Nat.cast_le.mpr hle) hε
  rw [hchosen', horder']
  linarith

end Sums

/-! ## The numbers of tasks exchanged -/

theorem sum_min_add_two (n : ℕ) :
    ((List.range (n + 2)).map fun i => min (i + 1) (n + 2 - (i + 1))).sum =
      ((List.range n).map fun i => min (i + 1) (n - (i + 1))).sum + (n + 1) := by
  have hinner : ((List.range n).map fun i => min (i + 1 + 1) (n + 2 - (i + 1 + 1))).sum =
      ((List.range n).map fun i => min (i + 1) (n - (i + 1)) + 1).sum := by
    refine congrArg List.sum (List.map_congr_left fun i hi => ?_)
    have hlt := List.mem_range.mp hi
    omega
  rw [List.sum_map_add, List.map_const', List.sum_replicate, List.length_range, smul_eq_mul,
    Nat.mul_one] at hinner
  rw [List.range_succ, List.map_append, List.sum_append, List.range_succ_eq_map, List.map_cons,
    List.sum_cons, List.map_map]
  simp only [Function.comp_def, Nat.succ_eq_add_one, List.map_cons, List.map_nil, List.sum_singleton]
  rw [hinner]
  omega

/-- At most a quarter of all pairs of positions. -/
theorem four_mul_sum_min_le (n : ℕ) :
    4 * ((List.range n).map fun i => min (i + 1) (n - (i + 1))).sum ≤ n * n := by
  induction n using Nat.twoStepInduction with
  | zero => decide
  | one => decide
  | more n ih _ =>
    rw [sum_min_add_two]
    nlinarith

/-! ## Schedules -/

section Schedules
variable {K : Type*} [Field K] [LinearOrder K] [IsStrictOrderedRing K] {arrival length : α → K}
  {l l' : List (α × K)} {ε : K}

/-- On one server, taking tasks that are at most `ε` longer than the shortest of some prefix of the
arrivals: a quarter of `ε * n ^ 2` is the most that it can cost. -/
theorem Schedule.sum_finish_le_add (hε : 0 ≤ ε) (h : Schedule arrival length 1 l)
    (h' : Schedule arrival length 1 l') (hperm : (l.map Prod.fst).Perm (l'.map Prod.fst))
    (harr : (l'.map Prod.fst).Pairwise fun a b => arrival a ≤ arrival b)
    (hfirst : EachWithPast (FirstOfPrefix (fun x y => length x ≤ length y + ε) (l'.map Prod.fst))
      (l.map Prod.fst)) :
    (l.map fun s => s.2 + length s.1).sum ≤
      (l'.map fun s => s.2 + length s.1).sum + ε * l.length ^ 2 / 4 := by
  have hlen : l.length = l'.length := by simpa using hperm.length_eq
  have hsplit : ∀ (l : List (α × K)) {i : ℕ} (hi : i < l.length),
      l = l.take i ++ l[i] :: l.drop (i + 1) := fun l i hi => by
    rw [← List.drop_eq_getElem_cons hi, List.take_append_drop]
  have hone : ∀ i ∈ List.range l.length, (l.map fun s => s.2 + length s.1).getD i 0 ≤
      (l'.map fun s => s.2 + length s.1).getD i 0 +
        (min (i + 1) (l.length - (i + 1)) : ℕ) * ε := by
    intro i hi
    have hi := List.mem_range.mp hi
    have hi' : i < l'.length := hlen ▸ hi
    have hstart := h.start_sub_le h' hperm harr (by rw [List.length_take, List.length_take, hlen])
      (hsplit l hi) (hsplit l' hi')
    have hsum := take_sum_le_add hε hperm hfirst (i + 1)
    rw [← List.map_take, ← List.map_take, List.map_map, List.map_map,
      List.take_succ_eq_append_getElem hi, List.take_succ_eq_append_getElem hi', List.map_append,
      List.map_append, List.sum_append, List.sum_append, List.length_map, ← hlen] at hsum
    simp only [Function.comp_def, List.map_cons, List.map_nil, List.sum_singleton] at hsum
    rw [List.getD_eq_getElem _ _ (by rw [List.length_map]; exact hi),
      List.getD_eq_getElem _ _ (by rw [List.length_map]; exact hi'), List.getElem_map, List.getElem_map]
    linarith
  have hquarter : ((List.range l.length).map fun i =>
      ((min (i + 1) (l.length - (i + 1)) : ℕ) : K) * ε).sum ≤ ε * l.length ^ 2 / 4 := by
    have hcast : (4 : K) * (((List.range l.length).map fun i =>
        min (i + 1) (l.length - (i + 1))).sum : ℕ) ≤ l.length * l.length := by
      exact_mod_cast four_mul_sum_min_le l.length
    rw [Nat.cast_list_sum, List.map_map] at hcast
    rw [List.sum_map_mul_right]
    have hmul := mul_le_mul_of_nonneg_left hcast hε
    simp only [Function.comp_def] at hmul
    linarith
  have hsum := List.sum_le_sum hone
  rw [List.sum_map_add] at hsum
  have hl := map_getD_range (l.map fun s => s.2 + length s.1) 0
  have hl' := map_getD_range (l'.map fun s => s.2 + length s.1) 0
  rw [List.length_map] at hl hl'
  rw [← hlen] at hl'
  rw [hl, hl'] at hsum
  linarith

end Schedules

end Chronoq.Foundations
