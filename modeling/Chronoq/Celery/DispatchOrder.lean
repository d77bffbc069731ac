import Chronoq.Celery.Conservation

/-! # The order in which held tasks are dispatched

What the invariant says about whole runs: entries are told apart by their arrival numbers, each
`dispatch_next` takes the least entry held, and while nothing is submitted the pops come in
increasing `(score, arrival number)` order.

The order of the *calls* is the order of the pops for each thread, and so for a scheduler drained by
one thread. It is not the order of the pops for two threads that drain the heap together: the call
is made after the lock is released (`concurrent_drain_out_of_order`). -/

namespace Chronoq.Celery
open Foundations Ranker

set_option autoImplicit false

variable {Score ApplyFn Ranker : Type}

/-! ## Arrival numbers -/

theorem Invariant.perm_accepted {s : System Score ApplyFn Ranker} (hinv : Invariant s) :
    (entriesOf .accepted s.trace).Perm (s.sched.heap ++ entriesOf .popped s.trace) :=
  Multiset.coe_eq_coe.mp hinv.conserved

/-- No arrival number occurs twice among the entries held and popped. -/
theorem Invariant.seq_nodup {s : System Score ApplyFn Ranker} (hinv : Invariant s) :
    ((s.sched.heap ++ entriesOf .popped s.trace).map HeapEntry.seq).Nodup :=
  (hinv.perm_accepted.map HeapEntry.seq).nodup_iff.mp hinv.distinct

theorem Invariant.heap_seq_nodup {s : System Score ApplyFn Ranker} (hinv : Invariant s) :
    (s.sched.heap.map HeapEntry.seq).Nodup := by
  have h := hinv.seq_nodup
  rw [List.map_append] at h
  exact h.of_append_left

theorem Invariant.heap_seq_lt {s : System Score ApplyFn Ranker} (hinv : Invariant s) :
    ∀ e ∈ s.sched.heap, e.seq < s.sched.arrivalCounter := by
  intro e he
  exact hinv.counter e (hinv.perm_accepted.mem_iff.mpr (List.mem_append_left _ he))

/-- An `apply_fn` is called for popped entries only, and once for each. -/
theorem Invariant.applied_le_popped {s : System Score ApplyFn Ranker} (hinv : Invariant s) :
    (entriesOf .applied s.trace : Multiset (HeapEntry Score ApplyFn)) ≤ entriesOf .popped s.trace := by
  rw [hinv.called]
  exact Multiset.le_add_left _ _

theorem Invariant.applied_seq_nodup {s : System Score ApplyFn Ranker} (hinv : Invariant s) :
    ((entriesOf .applied s.trace).map HeapEntry.seq).Nodup := by
  have hpopped : ((entriesOf .popped s.trace).map HeapEntry.seq).Nodup := by
    have h := hinv.seq_nodup
    rw [List.map_append] at h
    exact h.of_append_right
  have hle := Multiset.map_le_map (f := HeapEntry.seq) hinv.applied_le_popped
  rw [Multiset.map_coe, Multiset.map_coe] at hle
  exact Multiset.coe_nodup.mp (Multiset.nodup_of_le hle (Multiset.coe_nodup.mpr hpopped))

theorem Invariant.heap_key_nodup {s : System Score ApplyFn Ranker} (hinv : Invariant s) :
    (s.sched.heap.map HeapEntry.key).Nodup := by
  refine List.Nodup.of_map (fun k => (ofLex k).2) ?_
  rw [List.map_map]
  exact hinv.heap_seq_nodup

variable [LinearOrder Score]

theorem HeapEntry.tupleLt_ne_none {a b : HeapEntry Score ApplyFn} (h : a.seq ≠ b.seq) :
    a.tupleLt b ≠ none := by
  unfold tupleLt
  rw [if_neg h]
  split <;> exact Option.some_ne_none _

/-- Between two entries held at one time the comparison of tuples never reaches the callables. -/
theorem Invariant.heap_comparable {s : System Score ApplyFn Ranker} (hinv : Invariant s) :
    s.sched.heap.Pairwise fun a b => a.tupleLt b ≠ none ∧ b.tupleLt a ≠ none := by
  have hnd := hinv.heap_seq_nodup
  rw [List.nodup_iff_pairwise_ne, List.pairwise_map] at hnd
  exact hnd.imp fun h => ⟨HeapEntry.tupleLt_ne_none h, HeapEntry.tupleLt_ne_none h.symm⟩

/-! ## One `dispatch_next` -/

/-- `dispatch_next` finds the heap empty and changes nothing, or pops the least entry held. -/
theorem dispatchNext_pops_least {s s' : System Score ApplyFn Ranker} {t : ℕ}
    (h : s.step t .dispatchNext = some s') :
    (s.sched.heap = [] ∧ s' = s) ∨
      ∃ e, s.sched.heap.Perm (e :: s'.sched.heap) ∧ (∀ e' ∈ s.sched.heap, e.key ≤ e'.key) ∧
        s'.sched.arrivalCounter = s.sched.arrivalCounter ∧
        s'.sched.registry = s.sched.registry ∧ s'.trace = s.trace ++ [⟨t, .popped, e⟩] := by
  simp only [System.step] at h
  split at h
  · split at h
    · next hpop =>
      cases h
      rw [LearnedScheduler.pop, Option.map_eq_none_iff, extractLeast_eq_none_iff] at hpop
      exact .inl ⟨hpop, rfl⟩
    · next hpop =>
      cases h
      simp only [LearnedScheduler.pop, Option.map_eq_some_iff, Prod.mk.injEq] at hpop
      obtain ⟨⟨e, rest⟩, hleast, rfl, rfl⟩ := hpop
      exact .inr ⟨e, extractLeast_perm _ hleast, extractLeast_le _ hleast, rfl, rfl, rfl⟩
  · cases h

/-! ## A drain -/

/-- The pops recorded in `seg` come in increasing `(score, arrival number)` order and take entries
out of `heap`, unless `seg` accepts a submission. -/
def Drains (heap : List (HeapEntry Score ApplyFn)) (seg : List (Event Score ApplyFn)) : Prop :=
  entriesOf .accepted seg = [] →
    (entriesOf .popped seg).Pairwise (fun a b => a.key < b.key) ∧
      ∀ e ∈ entriesOf .popped seg, e ∈ heap

/-- One step: the history grows by at most one event; without an acceptance the heap only shrinks,
and an entry popped is below all that remain. -/
theorem step_drains {s s' : System Score ApplyFn Ranker} {t : ℕ} (hinv : Invariant s)
    (h : Effect s t s') : ∃ seg, s'.trace = s.trace ++ seg ∧ (entriesOf .accepted seg = [] →
      (∀ e ∈ s'.sched.heap, e ∈ s.sched.heap) ∧ (entriesOf .popped seg = [] ∨
        ∃ e ∈ s.sched.heap, entriesOf .popped seg = [e] ∧ ∀ e' ∈ s'.sched.heap, e.key < e'.key)) := by
  cases h with
  | @accept _ _ e htop hpush => exact ⟨[⟨t, .accepted, e⟩], rfl, by simp⟩
  | @pop e _ hfree hpop =>
    refine ⟨[⟨t, .popped, e⟩], rfl, fun _ => ⟨?_, .inr ⟨e, extractLeast_mem _ hpop, by simp, ?_⟩⟩⟩
    · intro e' he'
      exact (extractLeast_perm _ hpop).mem_iff.mpr (List.mem_cons_of_mem _ he')
    · exact extractLeast_lt _ hpop hinv.heap_key_nodup
  | @apply e htop => exact ⟨[⟨t, .applied, e⟩], rfl, fun _ => ⟨fun _ he => he, .inl (by simp)⟩⟩
  | @finish e k hk htop =>
    refine ⟨[⟨t, k, e⟩], rfl, fun _ => ⟨fun _ he => he, .inl ?_⟩⟩
    rcases hk with rfl | rfl <;> simp
  | silent hheap _ _ =>
    refine ⟨[], by simp, fun _ => ⟨?_, .inl rfl⟩⟩
    simp [hheap]

/-- The pops of a run that accepts no submission are in order. -/
theorem run_drains {s s' : System Score ApplyFn Ranker} {as : List (ℕ × Action Score ApplyFn Ranker)}
    (h : Run Steps s as s') (hinv : Invariant s) :
    ∃ seg, s'.trace = s.trace ++ seg ∧ Drains s.sched.heap seg := by
  induction h with
  | nil s => exact ⟨[], by simp, fun _ => by simp⟩
  | @cons s m s' a as hone hrest ih =>
    obtain ⟨seg₂, htrace₂, hdrain₂⟩ := ih (hinv.step (step_effect hone))
    obtain ⟨seg₁, htrace₁, hdrain₁⟩ := step_drains hinv (step_effect hone)
    refine ⟨seg₁ ++ seg₂, by rw [htrace₂, htrace₁, List.append_assoc], ?_⟩
    intro hquiet
    rw [entriesOf_append, List.append_eq_nil_iff] at hquiet
    obtain ⟨hsub, hpopped⟩ := hdrain₁ hquiet.1
    obtain ⟨hsorted, hmem⟩ := hdrain₂ hquiet.2
    rw [entriesOf_append]
    rcases hpopped with hnone | ⟨e, he, hone, hlt⟩
    · rw [hnone, List.nil_append]
      exact ⟨hsorted, fun e he => hsub e (hmem e he)⟩
    · -- the entry popped first is below the rest of the heap, where later pops take theirs
      rw [hone, List.singleton_append]
      refine ⟨List.pairwise_cons.mpr ⟨fun e' he' => hlt e' (hmem e' he'), hsorted⟩, ?_⟩
      intro e' he'
      rcases List.mem_cons.mp he' with rfl | he'
      · exact he
      · exact hsub e' (hmem e' he')

omit [LinearOrder Score] in
/-- A thread that is not between a pop and its call makes, from there on, exactly the calls of its
pops in their order, the last of which may still be pending. -/
theorem calls_follow_pops {s s' : System Score ApplyFn Ranker} {seg : List (Event Score ApplyFn)}
    (hinv : Invariant s) (hinv' : Invariant s') (htrace : s'.trace = s.trace ++ seg) {t : ℕ}
    (hidle : pendingOf t s.frames = []) :
    entriesBy t .popped seg = entriesBy t .applied seg ++ pendingOf t s'.frames := by
  have h := hinv'.order t
  rw [htrace, entriesBy_append, entriesBy_append, hinv.order t, hidle, List.append_nil,
    List.append_assoc] at h
  exact List.append_cancel_left h

/-! ## The whole contract -/

/-- In every run of an active-mode scheduler by any number of threads: accepted entries are held or
popped, with no arrival number occurring twice; each is called at most once; held arrival numbers
are below the counter, so no comparison reaches a callable; `dispatch_next` pops the least entry
held; and while nothing is accepted the pops are in order, as are the calls that one thread makes,
which are all the calls when no other thread makes one. -/
theorem active_mode_conserves_tasks (ranker : Ranker) (stats : TypeStatsTracker)
    {as : List (ℕ × Action Score ApplyFn Ranker)} {s : System Score ApplyFn Ranker}
    (h : Run Steps (System.initial ranker stats) as s) :
    (entriesOf .accepted s.trace : Multiset (HeapEntry Score ApplyFn)) =
        s.sched.heap + entriesOf .popped s.trace ∧
      ((s.sched.heap ++ entriesOf .popped s.trace).map HeapEntry.seq).Nodup ∧
      ((entriesOf .applied s.trace).map HeapEntry.seq).Nodup ∧
      (∀ e ∈ entriesOf .applied s.trace, e ∈ entriesOf .popped s.trace) ∧
      (∀ e ∈ s.sched.heap, e.seq < s.sched.arrivalCounter) ∧
      (s.sched.heap.Pairwise fun a b => a.tupleLt b ≠ none ∧ b.tupleLt a ≠ none) ∧
      (∀ t s', s.step t .dispatchNext = some s' → (s.sched.heap = [] ∧ s' = s) ∨
        ∃ e, s.sched.heap.Perm (e :: s'.sched.heap) ∧ (∀ e' ∈ s.sched.heap, e.key ≤ e'.key) ∧
          s'.sched.arrivalCounter = s.sched.arrivalCounter ∧
          s'.sched.registry = s.sched.registry ∧ s'.trace = s.trace ++ [⟨t, .popped, e⟩]) ∧
      ∀ bs s', Run Steps s bs s' → ∃ seg, s'.trace = s.trace ++ seg ∧
        (entriesOf .accepted seg = [] →
          (entriesOf .popped seg).Pairwise (fun a b => a.key < b.key) ∧
          ∀ t, pendingOf t s.frames = [] →
            entriesBy t .popped seg = entriesBy t .applied seg ++ pendingOf t s'.frames ∧
            (entriesBy t .applied seg).Pairwise (fun a b => a.key < b.key) ∧
            ((∀ ev ∈ seg, ev.kind = .applied → ev.thread = t) →
              (entriesOf .applied seg).Pairwise fun a b => a.key < b.key)) := by
  have hinv : Invariant s := (Invariant.initial ranker stats).run h
  refine ⟨hinv.conserved, hinv.seq_nodup, hinv.applied_seq_nodup, ?_, hinv.heap_seq_lt,
    hinv.heap_comparable, fun t s' => dispatchNext_pops_least, ?_⟩
  · intro e he
    exact Multiset.mem_coe.mp (Multiset.mem_of_le hinv.applied_le_popped (Multiset.mem_coe.mpr he))
  · intro bs s' hrun
    obtain ⟨seg, htrace, hdrain⟩ := run_drains hrun hinv
    refine ⟨seg, htrace, fun hquiet => ?_⟩
    have hsorted := (hdrain hquiet).1
    refine ⟨hsorted, fun t hidle => ?_⟩
    have hcalls := calls_follow_pops hinv (hinv.run hrun) htrace hidle
    have hbelow : (entriesBy t .applied seg).Sublist (entriesOf .popped seg) := by
      refine List.Sublist.trans ?_ (entriesBy_sublist t .popped seg)
      rw [hcalls]
      exact List.sublist_append_left _ _
    refine ⟨hcalls, hsorted.sublist hbelow, fun halone => ?_⟩
    rw [← entriesBy_eq_entriesOf halone]
    exact hsorted.sublist hbelow

/-! ## Two threads draining together -/

/-- Two submissions by thread `0`, with scores `1` and `2`. -/
def twoSubmissions : List (ℕ × Action ℕ ℕ Unit) :=
  [(0, .submit ⟨"a", "resize", 512, 0, 1⟩), (0, .push),
    (0, .submit ⟨"b", "transcode", 1024, 1, 2⟩), (0, .push)]

/-- Thread `0` pops, then thread `1` pops and calls, then thread `0` calls. -/
def twoThreadDrain : List (ℕ × Action ℕ ℕ Unit) :=
  [(0, .dispatchNext), (1, .dispatchNext), (1, .callApply), (1, .applyReturns), (0, .callApply),
    (0, .applyReturns)]

/-- The state that the actions `as` lead to from a fresh scheduler, if they can be taken. -/
def stateAfter (as : List (ℕ × Action ℕ ℕ Unit)) : System ℕ ℕ Unit :=
  (exec (fun s a => s.step a.1 a.2) (System.initial () (.new 100)) as).getD
    (System.initial () (.new 100))

theorem active_mode_conserves_two_submissions :
    (entriesOf .accepted (stateAfter (twoSubmissions ++ twoThreadDrain)).trace :
        Multiset (HeapEntry ℕ ℕ)) =
      (stateAfter (twoSubmissions ++ twoThreadDrain)).sched.heap +
        entriesOf .popped (stateAfter (twoSubmissions ++ twoThreadDrain)).trace :=
  (active_mode_conserves_tasks () (.new 100)
    (run_of_exec (rfl : exec (fun (s : System ℕ ℕ Unit) a => s.step a.1 a.2)
      (System.initial () (.new 100)) (twoSubmissions ++ twoThreadDrain) =
        some (stateAfter (twoSubmissions ++ twoThreadDrain))))).1

/-- It is not so that every drain calls the `apply_fn`s in nondecreasing score order: two threads
that drain the heap together, neither of them inside the scheduler before, do not. -/
theorem concurrent_drain_out_of_order :
    ¬ ∀ (as bs : List (ℕ × Action ℕ ℕ Unit)) (s s' : System ℕ ℕ Unit) (seg : List (Event ℕ ℕ)),
      Run Steps (System.initial () (.new 100)) as s → Run Steps s bs s' →
      s'.trace = s.trace ++ seg → entriesOf .accepted seg = [] → s.frames = [] →
      (entriesOf .applied seg).Pairwise (fun a b => a.score ≤ b.score) := by
  intro hall
  have hbefore : Run Steps (System.initial () (.new 100)) twoSubmissions
      (stateAfter twoSubmissions) := run_of_exec rfl
  have hdrain : Run Steps (stateAfter twoSubmissions) twoThreadDrain
      (stateAfter (twoSubmissions ++ twoThreadDrain)) := run_of_exec rfl
  have hsorted := hall _ _ _ _
    ((stateAfter (twoSubmissions ++ twoThreadDrain)).trace.drop
      (stateAfter twoSubmissions).trace.length)
    hbefore hdrain (by decide) (by decide) rfl
  exact absurd hsorted (by decide)

end Chronoq.Celery
