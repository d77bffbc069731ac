import Chronoq.Foundations.Occupancy
import Chronoq.Foundations.Schedule
import Mathlib.Tactic.Ring

/-! # What no order of service changes

Two schedules of the same tasks, compared through the times at which their servers are busy.

* `Schedule.sum_length_mul_start`: on one server the start times, weighted with the lengths, add up to the
  same. What one task gains by another order the others lose.
* `Schedule.finish_add_le`, `Schedule.mul_finish_le`: how much longer a schedule on `n` servers can take
  than one on `m` servers.
* `Schedule.exists_waits_longer`: on one server, whoever waits in the order of arrival, somebody waits as
  long in any other order. -/

namespace Chronoq.Foundations

set_option autoImplicit false

variable {α K : Type*} [Field K] [LinearOrder K] [IsStrictOrderedRing K] {arrival length : α → K}
  {n m : ℕ} {l l' before after : List (α × K)} {s : α × K}

/-- The intervals in which the tasks run. -/
def spans (length : α → K) (l : List (α × K)) : List (K × K) := l.map fun s => (s.2, s.2 + length s.1)

omit [IsStrictOrderedRing K] in
theorem countP_spans (l : List (α × K)) (t : K) :
    (spans length l).countP (Covers t) = l.countP (RunsAt length t) := by
  rw [spans, List.countP_map]
  rfl

theorem spans_le (hpos : ∀ s ∈ l, 0 < length s.1) : ∀ I ∈ spans length l, I.1 ≤ I.2 := by
  refine List.forall_mem_map.mpr fun s hs => ?_
  exact le_add_of_nonneg_right (hpos s hs).le

omit [LinearOrder K] [IsStrictOrderedRing K] in
theorem sum_spans_id (l : List (α × K)) :
    ((spans length l).map (rise id)).sum = (l.map fun s => length s.1).sum := by
  rw [spans, List.map_map]
  refine congrArg List.sum (List.map_congr_left fun s _ => ?_)
  exact add_sub_cancel_left s.2 (length s.1)

namespace Schedule

/-! ## The conservation law of one server -/

theorem countP_eq_of_perm (h : Schedule arrival length 1 l) (h' : Schedule arrival length 1 l')
    (hperm : (l.map Prod.fst).Perm (l'.map Prod.fst)) (t : K) :
    l.countP (RunsAt length t) = l'.countP (RunsAt length t) := by
  have hbusy : 0 < l.countP (RunsAt length t) ↔ 0 < l'.countP (RunsAt length t) := by
    rw [List.countP_pos_iff, List.countP_pos_iff]
    simpa [Busy] using h.busy_congr h' hperm t
  have hone := h.parallel t
  have hone' := h'.parallel t
  omega

/-- The start times, weighted with the lengths, do not depend on the order of service. -/
theorem sum_length_mul_start (h : Schedule arrival length 1 l) (h' : Schedule arrival length 1 l')
    (hperm : (l.map Prod.fst).Perm (l'.map Prod.fst)) :
    (l.map fun s => length s.1 * s.2).sum = (l'.map fun s => length s.1 * s.2).sum := by
  have hsquares : ∀ tasks : List (α × K), ((spans length tasks).map (rise fun t => t * t)).sum =
      2 * (tasks.map fun s => length s.1 * s.2).sum + (tasks.map fun s => length s.1 * length s.1).sum := by
    intro tasks
    rw [spans, List.map_map, ← List.sum_map_mul_left, ← List.sum_map_add]
    refine congrArg List.sum (List.map_congr_left fun s _ => ?_)
    simp only [Function.comp_apply, rise]
    ring
  have hsum : ((spans length l).map (rise fun t => t * t)).sum =
      ((spans length l').map (rise fun t => t * t)).sum := by
    refine sum_rise_congr _ (spans_le h.positive) (spans_le h'.positive) fun t => ?_
    rw [countP_spans, countP_spans]
    exact h.countP_eq_of_perm h' hperm t
  have hlengths : (l.map fun s => length s.1 * length s.1).sum =
      (l'.map fun s => length s.1 * length s.1).sum := by
    have hmap := (hperm.map fun a => length a * length a).sum_eq
    rw [List.map_map, List.map_map] at hmap
    exact hmap
  rw [hsquares, hsquares, hlengths] at hsum
  exact mul_left_cancel₀ two_ne_zero (add_right_cancel hsum)

/-! ## List scheduling -/

/-- While a task waits all `n` servers are busy with those started before it. -/
theorem mul_wait_le (h : Schedule arrival length n l) (hsplit : l = before ++ s :: after) :
    n * (s.2 - arrival s.1) ≤ (before.map fun b => length b.1).sum := by
  have hmem : s ∈ l := by rw [hsplit]; simp
  have hpos : ∀ b ∈ before, 0 < length b.1 := fun b hb =>
    h.positive b (by rw [hsplit]; exact List.mem_append_left _ hb)
  have hle : ((List.replicate n (arrival s.1, s.2)).map (rise id)).sum ≤
      ((spans length before).map (rise id)).sum := by
    refine sum_rise_mono monotone_id ?_ (spans_le hpos) fun t => ?_
    · intro I hI
      rw [List.eq_of_mem_replicate hI]
      exact h.arrived s hmem
    · rw [countP_replicate_covers, countP_spans]
      split
      · next hcovers =>
        rw [← h.countP_runsAt hsplit hcovers.2]
        exact h.conserving s hmem t hcovers.1 hcovers.2
      · exact Nat.zero_le _
  rw [sum_spans_id, List.map_replicate, List.sum_replicate, nsmul_eq_mul] at hle
  exact hle

/-- `n` servers do no more than `n` times the time they have. -/
theorem sum_length_le_mul (h : Schedule arrival length n l) {z C : K} (hz : ∀ s ∈ l, z ≤ s.2)
    (hC : ∀ s ∈ l, s.2 + length s.1 ≤ C) (hzC : z ≤ C) :
    (l.map fun s => length s.1).sum ≤ n * (C - z) := by
  have hle : ((spans length l).map (rise id)).sum ≤
      ((List.replicate n (z, C)).map (rise id)).sum := by
    refine sum_rise_mono monotone_id (spans_le h.positive) ?_ fun t => ?_
    · intro I hI
      rw [List.eq_of_mem_replicate hI]
      exact hzC
    · rw [countP_replicate_covers, countP_spans]
      split
      · exact h.parallel t
      · next hout =>
        refine (List.countP_eq_zero.mpr fun s hs => ?_).le
        simpa using fun hruns : RunsAt length t s =>
          hout ⟨(hz s hs).trans hruns.1, hruns.2.trans_le (hC s hs)⟩
  rw [sum_spans_id, List.map_replicate, List.sum_replicate, nsmul_eq_mul] at hle
  exact hle

/-- If a schedule on `m` servers has finished the same tasks by `C`, this is when a task is finished at
last. -/
theorem finish_add_le (h : Schedule arrival length n l) (h' : Schedule arrival length m l')
    (hperm : (l.map Prod.fst).Perm (l'.map Prod.fst)) {C : K}
    (harr : ∀ s ∈ l', 0 ≤ arrival s.1) (hC : ∀ s ∈ l', s.2 + length s.1 ≤ C) (hs : s ∈ l) :
    n * (s.2 + length s.1) + length s.1 ≤ m * C + n * (arrival s.1 + length s.1) ∧
      arrival s.1 + length s.1 ≤ C := by
  obtain ⟨s', hs', heq⟩ := List.mem_map.mp (hperm.subset (List.mem_map_of_mem hs))
  have hfinish := hC s' hs'
  have hstart := h'.arrived s' hs'
  have hzero := harr s' hs'
  rw [heq] at hfinish hstart hzero
  have hpos := h.positive s hs
  have htotal : (l.map fun s => length s.1).sum ≤ m * (C - 0) := by
    have hlengths := (hperm.map length).sum_eq
    rw [List.map_map, List.map_map] at hlengths
    refine hlengths.trans_le (h'.sum_length_le_mul (fun t ht => ?_) hC ?_)
    · exact (harr t ht).trans (h'.arrived t ht)
    · linarith
  obtain ⟨before, after, hsplit⟩ := List.append_of_mem hs
  have hwait := h.mul_wait_le hsplit
  have hafter : 0 ≤ (after.map fun a => length a.1).sum := by
    refine List.sum_nonneg fun x hx => ?_
    obtain ⟨a, ha, rfl⟩ := List.mem_map.mp hx
    exact (h.positive a (by rw [hsplit]; simp [ha])).le
  have hsum : (l.map fun s => length s.1).sum =
      (before.map fun b => length b.1).sum + (length s.1 + (after.map fun a => length a.1).sum) := by
    rw [hsplit, List.map_append, List.sum_append, List.map_cons, List.sum_cons]
  constructor
  · linarith
  · linarith

/-- Against `m` servers `n` servers lose no more than what the last task takes alone. -/
theorem mul_finish_le (h : Schedule arrival length n l) (h' : Schedule arrival length m l')
    (hn : 1 ≤ n) (hperm : (l.map Prod.fst).Perm (l'.map Prod.fst)) {C : K}
    (harr : ∀ s ∈ l', 0 ≤ arrival s.1) (hC : ∀ s ∈ l', s.2 + length s.1 ≤ C) (hs : s ∈ l) :
    n * (s.2 + length s.1) ≤ (n + m) * C ∧
      (arrival s.1 = 0 → n * (s.2 + length s.1) ≤ (n + m - 1) * C) := by
  obtain ⟨hbound, hlong⟩ := h.finish_add_le h' hperm harr hC hs
  have hpos := h.positive s hs
  have hn' : (1 : K) ≤ n := by exact_mod_cast hn
  constructor
  · have hle := mul_le_mul_of_nonneg_left hlong (zero_le_one.trans hn')
    linarith
  · intro hzero
    rw [hzero, zero_add] at hbound hlong
    have hle := mul_le_mul_of_nonneg_left hlong (sub_nonneg.mpr hn')
    linarith

/-! ## The longest wait -/

/-- The tasks that arrive from `u` on are not done before `u` and the time they take. -/
theorem exists_finish_ge (h : Schedule arrival length 1 l) {u t : K}
    (hsome : ∃ s ∈ l, u ≤ arrival s.1 ∧ arrival s.1 ≤ t) :
    ∃ s ∈ l, arrival s.1 ≤ t ∧ u + work arrival length (l.map Prod.fst) u t ≤ s.2 + length s.1 := by
  rw [work_map_fst]
  have hseq := h.sequential.sublist
    (List.filter_sublist (l := l) (p := fun s => u ≤ arrival s.1 ∧ arrival s.1 ≤ t))
  rcases List.eq_nil_or_concat' (l.filter fun s => u ≤ arrival s.1 ∧ arrival s.1 ≤ t) with
    hnil | ⟨front, last, hfront⟩
  · obtain ⟨s, hs, harr⟩ := hsome
    have hmem : s ∈ l.filter fun s => u ≤ arrival s.1 ∧ arrival s.1 ≤ t :=
      List.mem_filter.mpr ⟨hs, decide_eq_true harr⟩
    rw [hnil] at hmem
    cases hmem
  · have hlast : last ∈ l.filter fun s => u ≤ arrival s.1 ∧ arrival s.1 ≤ t := by
      rw [hfront]
      simp
    obtain ⟨hmem, harr⟩ := List.mem_filter.mp hlast
    have hpos := h.positive last hmem
    have hin := of_decide_eq_true harr
    refine ⟨last, hmem, hin.2, ?_⟩
    have hsum : ((l.filter fun s => u ≤ arrival s.1 ∧ arrival s.1 ≤ t).map fun s => length s.1).sum ≤
        last.2 + length last.1 - u := by
      refine sum_length_le hseq ?_ fun s hs => ⟨?_, ?_⟩
      · have hstart := h.arrived last hmem
        linarith [hin.1]
      · obtain ⟨hs', harr'⟩ := List.mem_filter.mp hs
        exact (of_decide_eq_true harr').1.trans (h.arrived s hs')
      · rw [hfront] at hs hseq
        rcases List.mem_append.mp hs with hs | hs
        · have hle := (List.pairwise_append.mp hseq).2.2 s hs last (List.mem_singleton_self _)
          linarith
        · rw [List.mem_singleton.mp hs]
    linarith

/-- Whoever waits in the order of arrival, somebody waits as long in any other order. -/
theorem exists_waits_longer (h : Schedule arrival length 1 l) (h' : Schedule arrival length 1 l')
    (hperm : (l.map Prod.fst).Perm (l'.map Prod.fst))
    (harr : (l'.map Prod.fst).Pairwise fun a b => arrival a ≤ arrival b) {s' : α × K} (hs' : s' ∈ l') :
    ∃ s ∈ l, s'.2 + length s'.1 - arrival s'.1 ≤ s.2 + length s.1 - arrival s.1 := by
  obtain ⟨before, after, hsplit⟩ := List.append_of_mem hs'
  obtain ⟨u, hu, hlater, hsum⟩ := h'.exists_busy_since hsplit
  have hu' := hlater s' List.mem_cons_self
  -- whatever has kept the server busy since `u` arrived between `u` and the arrival of `s'`
  have hwork : s'.2 + length s'.1 - u ≤ work arrival length (l'.map Prod.fst) u (arrival s'.1) := by
    have hbefore : (before.filter fun b => u ≤ arrival b.1 ∧ arrival b.1 ≤ arrival s'.1) =
        before.filter fun b => u ≤ arrival b.1 := by
      refine List.filter_congr fun b hb => ?_
      rw [hsplit, List.map_append, List.pairwise_append] at harr
      have hle := harr.2.2 b.1 (List.mem_map_of_mem hb) s'.1 (List.mem_map_of_mem List.mem_cons_self)
      simp [hle]
    have hafter : 0 ≤ ((after.filter fun b => u ≤ arrival b.1 ∧ arrival b.1 ≤ arrival s'.1).map
        fun b => length b.1).sum := by
      refine List.sum_nonneg fun x hx => ?_
      obtain ⟨a, ha, rfl⟩ := List.mem_map.mp hx
      exact (h'.positive a (by rw [hsplit]; simp [(List.mem_filter.mp ha).1])).le
    have hself : decide (u ≤ arrival s'.1 ∧ arrival s'.1 ≤ arrival s'.1) = true :=
      decide_eq_true ⟨hu', le_rfl⟩
    rw [work_map_fst, hsplit, List.filter_append, List.map_append, List.sum_append, hbefore,
      List.filter_cons, hself, if_pos rfl, List.map_cons, List.sum_cons]
    linarith
  obtain ⟨r, hr, heq⟩ := List.mem_map.mp (hperm.symm.subset (List.mem_map_of_mem hs'))
  obtain ⟨s, hs, hby, hfinish⟩ := h.exists_finish_ge (u := u) (t := arrival s'.1)
    ⟨r, hr, by rw [heq]; exact ⟨hu', le_rfl⟩⟩
  have hsame : work arrival length (l.map Prod.fst) u (arrival s'.1) =
      work arrival length (l'.map Prod.fst) u (arrival s'.1) := by
    rw [work, work, ((hperm.filter _).map length).sum_eq]
  refine ⟨s, hs, ?_⟩
  rw [hsame] at hfinish
  linarith

end Schedule

end Chronoq.Foundations
