import Chronoq.Celery.DispatchOrder

/-! # What a raising `apply_fn` leaves behind

`dispatch_next` pops under the lock and calls the `apply_fn` after releasing it. Nothing catches an
exception of that call, so the entry popped is not pushed back: the heap stays without it, the
registry keeps whatever it had for the task, and the entry ends up in the fourth of four places,

  held in the heap, being dispatched, returned, raised,

of which every accepted entry is in exactly one, in every interleaving. -/

namespace Chronoq.Celery
open Foundations Ranker

set_option autoImplicit false

variable {Score ApplyFn Ranker : Type}

/-! ## The four places of an accepted entry -/

/-- The entries popped whose `apply_fn` has not ended: about to be called, or being called. -/
def beingDispatched (frames : List (ℕ × Frame Score ApplyFn)) : Multiset (HeapEntry Score ApplyFn) :=
  entriesIn Frame.popped? frames + entriesIn Frame.applying? frames

theorem Invariant.four_places {s : System Score ApplyFn Ranker} (hinv : Invariant s) :
    (entriesOf .accepted s.trace : Multiset (HeapEntry Score ApplyFn)) =
      s.sched.heap + beingDispatched s.frames + entriesOf .returned s.trace +
        entriesOf .raised s.trace := by
  rw [hinv.conserved, hinv.called, hinv.ended, beingDispatched]
  abel

theorem Invariant.raised_popped {s : System Score ApplyFn Ranker} (hinv : Invariant s)
    {e : HeapEntry Score ApplyFn} (he : e ∈ entriesOf .raised s.trace) :
    e ∈ entriesOf .popped s.trace := by
  have happ : e ∈ (entriesOf .applied s.trace : Multiset (HeapEntry Score ApplyFn)) := by
    rw [hinv.ended]
    exact Multiset.mem_add.mpr (.inr (Multiset.mem_add.mpr (.inr he)))
  exact Multiset.mem_coe.mp (Multiset.mem_of_le hinv.applied_le_popped happ)

theorem Invariant.popped_not_held {s : System Score ApplyFn Ranker} (hinv : Invariant s)
    {e : HeapEntry Score ApplyFn} (he : e ∈ entriesOf .popped s.trace) : e ∉ s.sched.heap := by
  intro hheld
  have hnd := hinv.seq_nodup
  rw [List.map_append] at hnd
  exact List.disjoint_of_nodup_append hnd (List.mem_map_of_mem hheld) (List.mem_map_of_mem he)

variable [LinearOrder Score]

/-! ## The exception -/

/-- When the exception propagates, `dispatch_next` leaves without touching heap or registry. -/
theorem applyRaises_spec {s s' : System Score ApplyFn Ranker} {t : ℕ}
    (h : s.step t .applyRaises = some s') :
    ∃ e, topOf t s.frames = some (.applying e) ∧ s'.sched = s.sched ∧
      s'.trace = s.trace ++ [⟨t, .raised, e⟩] := by
  simp only [System.step] at h
  split at h
  · next e htop =>
    cases h
    exact ⟨e, htop, rfl, rfl⟩
  · cases h

theorem callApply_spec {s s' : System Score ApplyFn Ranker} {t : ℕ}
    (h : s.step t .callApply = some s') :
    ∃ e, topOf t s.frames = some (.popped e) ∧ s'.sched = s.sched ∧
      s'.frames = (t, .applying e) :: dropTop t s.frames ∧
      s'.trace = s.trace ++ [⟨t, .applied, e⟩] := by
  simp only [System.step] at h
  split at h
  · next e htop =>
    cases h
    exact ⟨e, htop, rfl, rfl, rfl⟩
  · cases h

/-- An entry whose `apply_fn` has raised is never held again. -/
theorem raised_never_held {s s' : System Score ApplyFn Ranker}
    {as : List (ℕ × Action Score ApplyFn Ranker)} (hinv : Invariant s) (h : Run Steps s as s')
    {e : HeapEntry Score ApplyFn} (he : e ∈ entriesOf .raised s.trace) :
    e ∈ entriesOf .raised s'.trace ∧ e ∉ s'.sched.heap := by
  obtain ⟨seg, htrace, -⟩ := run_drains h hinv
  have he' : e ∈ entriesOf .raised s'.trace := by
    rw [htrace, entriesOf_append]
    exact List.mem_append_left _ he
  have hinv' := hinv.run h
  exact ⟨he', hinv'.popped_not_held (hinv'.raised_popped he')⟩

/-- What a caller of `dispatch_next` gets: an exception of the `apply_fn` as it is. -/
theorem dispatchNext_raises {s popped s' : LearnedScheduler Score ApplyFn Ranker}
    {e : HeapEntry Score ApplyFn} (hpop : s.pop = some (e, popped))
    {apply : ApplyFn → LearnedScheduler Score ApplyFn Ranker →
      LearnedScheduler Score ApplyFn Ranker × Except PyException Unit} {exc : PyException}
    (hraises : apply e.applyFn popped = (s', .error exc)) :
    s.dispatchNext apply = (s', .error exc) := by
  rw [LearnedScheduler.dispatchNext, hpop]
  dsimp only
  rw [hraises]
  rfl

/-- The first block of `dispatch_next` on a heap that holds something. -/
theorem pop_of_dispatchNext {s s' : System Score ApplyFn Ranker} {t : ℕ} (hheap : s.sched.heap ≠ [])
    (h : s.step t .dispatchNext = some s') :
    ∃ e, s.sched.pop = some (e, s'.sched) ∧ s'.trace = s.trace ++ [⟨t, .popped, e⟩] := by
  simp only [System.step] at h
  split at h
  · split at h
    · next hpop =>
      rw [LearnedScheduler.pop, Option.map_eq_none_iff, extractLeast_eq_none_iff] at hpop
      exact absurd hpop hheap
    · next e sched hpop =>
      cases h
      exact ⟨e, hpop, rfl⟩
  · cases h

/-- A failing `dispatch_next` that nothing interrupts: the least entry held is gone from the heap,
the registry and the arrival counter are as before, and the caller gets the exception. -/
theorem failing_dispatch_spec {s s' : System Score ApplyFn Ranker} {t : ℕ}
    (hheap : s.sched.heap ≠ [])
    (h : Run Steps s [(t, .dispatchNext), (t, .callApply), (t, .applyRaises)] s') :
    ∃ e, s.sched.heap.Perm (e :: s'.sched.heap) ∧ (∀ e' ∈ s.sched.heap, e.key ≤ e'.key) ∧
      s'.sched.registry = s.sched.registry ∧
      s'.sched.arrivalCounter = s.sched.arrivalCounter ∧
      ∀ apply s'' exc, apply e.applyFn s'.sched = (s'', Except.error exc) →
        s.sched.dispatchNext apply = (s'', .error exc) := by
  cases h with
  | cons hpop h =>
    cases h with
    | cons hcall h =>
      cases h with
      | cons hraise h =>
        cases h
        obtain ⟨e', hpopped, htrace'⟩ := pop_of_dispatchNext hheap hpop
        obtain ⟨hempty, -⟩ | ⟨e, hperm, hleast, hcounter, hregistry, htrace⟩ :=
          dispatchNext_pops_least hpop
        · exact absurd hempty hheap
        obtain rfl : e' = e := by
          have hevents := List.append_cancel_left (htrace'.symm.trans htrace)
          simpa using hevents
        obtain ⟨_, -, hcalled, -⟩ := callApply_spec hcall
        obtain ⟨_, -, hraised, -⟩ := applyRaises_spec hraise
        rw [hraised, hcalled]
        exact ⟨e', hperm, hleast, hregistry, hcounter, fun apply s'' exc hraises =>
          dispatchNext_raises hpopped hraises⟩

/-! ## The contract of a failing dispatch -/

/-- In every run by any number of threads: each accepted entry is in exactly one of the four places;
an exception out of an `apply_fn` changes neither heap nor registry, and its entry is never held
again; and a failing `dispatch_next` that nothing interrupts takes the least entry held out of the
heap, leaves registry and arrival counter as they were, and raises to its caller what the `apply_fn`
has raised. -/
theorem failed_dispatch_drops_task (ranker : Ranker) (stats : TypeStatsTracker)
    {as : List (ℕ × Action Score ApplyFn Ranker)} {s : System Score ApplyFn Ranker}
    (h : Run Steps (System.initial ranker stats) as s) :
    (entriesOf .accepted s.trace : Multiset (HeapEntry Score ApplyFn)) =
        s.sched.heap + beingDispatched s.frames + entriesOf .returned s.trace +
          entriesOf .raised s.trace ∧
      ((entriesOf .accepted s.trace).map HeapEntry.seq).Nodup ∧
      (∀ t s', s.step t .applyRaises = some s' → s'.sched = s.sched ∧
        ∃ e, topOf t s.frames = some (.applying e) ∧ e ∈ entriesOf .raised s'.trace ∧
          ∀ bs s'', Run Steps s' bs s'' →
            e ∈ entriesOf .raised s''.trace ∧ e ∉ s''.sched.heap) ∧
      ∀ t s', s.sched.heap ≠ [] →
        Run Steps s [(t, .dispatchNext), (t, .callApply), (t, .applyRaises)] s' →
        ∃ e, s.sched.heap.Perm (e :: s'.sched.heap) ∧ (∀ e' ∈ s.sched.heap, e.key ≤ e'.key) ∧
          s'.sched.registry = s.sched.registry ∧
          s'.sched.arrivalCounter = s.sched.arrivalCounter ∧
          ∀ apply s'' exc, apply e.applyFn s'.sched = (s'', Except.error exc) →
            s.sched.dispatchNext apply = (s'', .error exc) := by
  have hinv : Invariant s := (Invariant.initial ranker stats).run h
  refine ⟨hinv.four_places, hinv.distinct, fun t s' hraise => ?_, fun t s' => failing_dispatch_spec⟩
  obtain ⟨e, htop, hsched, htrace⟩ := applyRaises_spec hraise
  have hmem : e ∈ entriesOf .raised s'.trace := by
    rw [htrace, entriesOf_append]
    simp
  refine ⟨hsched, e, htop, hmem, fun bs s'' hrun => ?_⟩
  exact raised_never_held (hinv.step (step_effect hraise)) hrun hmem

/-- One submission, then a dispatch whose `apply_fn` raises. -/
def failingDispatch : List (ℕ × Action ℕ ℕ Unit) :=
  [(0, .submit ⟨"a", "resize", 512, 0, 1⟩), (0, .push), (0, .dispatchNext), (0, .callApply),
    (0, .applyRaises)]

theorem failed_dispatch_drops_first_task :
    (entriesOf .accepted (stateAfter failingDispatch).trace : Multiset (HeapEntry ℕ ℕ)) =
      (stateAfter failingDispatch).sched.heap + beingDispatched (stateAfter failingDispatch).frames +
        entriesOf .returned (stateAfter failingDispatch).trace +
        entriesOf .raised (stateAfter failingDispatch).trace :=
  (failed_dispatch_drops_task () (.new 100)
    (run_of_exec (rfl : exec (fun (s : System ℕ ℕ Unit) a => s.step a.1 a.2)
      (System.initial () (.new 100)) failingDispatch = some (stateAfter failingDispatch)))).1

/-- After a failing dispatch the heap does not hold the task as before, and the accepted entry is
neither held nor has its `apply_fn` returned. -/
theorem failed_dispatch_loses_task :
    (¬ ∀ (as : List (ℕ × Action ℕ ℕ Unit)) (s s' : System ℕ ℕ Unit) (t : ℕ),
      Run Steps (System.initial () (.new 100)) as s → s.sched.heap ≠ [] →
      Run Steps s [(t, .dispatchNext), (t, .callApply), (t, .applyRaises)] s' →
      s'.sched.heap.Perm s.sched.heap ∧ s'.sched.registry = s.sched.registry) ∧
    ¬ ∀ (as : List (ℕ × Action ℕ ℕ Unit)) (s : System ℕ ℕ Unit),
      Run Steps (System.initial () (.new 100)) as s → s.frames = [] →
      ∀ e ∈ entriesOf .accepted s.trace, e ∈ s.sched.heap ∨ e ∈ entriesOf .returned s.trace := by
  have hbefore : Run Steps (System.initial () (.new 100)) (failingDispatch.take 2)
      (stateAfter (failingDispatch.take 2)) := run_of_exec rfl
  have hfails : Run Steps (stateAfter (failingDispatch.take 2))
      [(0, .dispatchNext), (0, .callApply), (0, .applyRaises)] (stateAfter failingDispatch) :=
    run_of_exec rfl
  constructor
  · intro hall
    have hperm := (hall _ _ _ 0 hbefore (by decide) hfails).1
    exact absurd hperm.length_eq (by decide)
  · intro hall
    have hplace := hall _ _ (hbefore.append hfails) rfl ⟨1, 0, 0, "a"⟩ (by decide)
    exact absurd hplace (by decide)

end Chronoq.Celery
