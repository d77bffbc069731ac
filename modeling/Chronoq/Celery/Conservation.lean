import Chronoq.Celery.Threads

/-! # No accepted task is lost, duplicated or misordered

The invariant of the threaded scheduler and what follows from it, for every interleaving of any
number of threads.

* Every accepted entry is in the heap or has been popped, never both: `Invariant.conserved` counts
  them, `Invariant.distinct` tells them apart by their arrival numbers.
* Every popped entry waits for its `apply_fn` to be called or has had it called once
  (`Invariant.called`), and a call is running, has returned or has raised (`Invariant.ended`).
* A thread calls the `apply_fn`s it popped in the order in which it popped them
  (`Invariant.order`); this rests on `Invariant.stacked`, that only calls of `apply_fn` are ever
  suspended by a re-entrant call.
-/

namespace Chronoq.Celery
open Foundations Ranker

set_option autoImplicit false

variable {Score ApplyFn Ranker : Type}

/-! ## Reading the history -/

/-- The entries to which something of kind `k` happened, in order. -/
def entriesOf (k : EventKind) (trace : List (Event Score ApplyFn)) : List (HeapEntry Score ApplyFn) :=
  (trace.filter fun ev => ev.kind = k).map Event.entry

/-- The entries to which thread `t` did something of kind `k`, in order. -/
def entriesBy (t : ℕ) (k : EventKind) (trace : List (Event Score ApplyFn)) :
    List (HeapEntry Score ApplyFn) :=
  (trace.filter fun ev => ev.kind = k ∧ ev.thread = t).map Event.entry

@[simp] theorem entriesOf_nil (k : EventKind) : entriesOf k ([] : List (Event Score ApplyFn)) = [] :=
  rfl

@[simp] theorem entriesBy_nil (t : ℕ) (k : EventKind) :
    entriesBy t k ([] : List (Event Score ApplyFn)) = [] := rfl

theorem entriesOf_append (k : EventKind) (tr tr' : List (Event Score ApplyFn)) :
    entriesOf k (tr ++ tr') = entriesOf k tr ++ entriesOf k tr' := by
  simp [entriesOf]

theorem entriesBy_append (t : ℕ) (k : EventKind) (tr tr' : List (Event Score ApplyFn)) :
    entriesBy t k (tr ++ tr') = entriesBy t k tr ++ entriesBy t k tr' := by
  simp [entriesBy]

@[simp] theorem entriesOf_singleton (k : EventKind) (ev : Event Score ApplyFn) :
    entriesOf k [ev] = if ev.kind = k then [ev.entry] else [] := by
  by_cases h : ev.kind = k <;> simp [entriesOf, h]

@[simp] theorem entriesBy_singleton (t : ℕ) (k : EventKind) (ev : Event Score ApplyFn) :
    entriesBy t k [ev] = if ev.kind = k ∧ ev.thread = t then [ev.entry] else [] := by
  by_cases h : ev.kind = k ∧ ev.thread = t <;> simp [entriesBy, h]

theorem entriesBy_sublist (t : ℕ) (k : EventKind) (tr : List (Event Score ApplyFn)) :
    (entriesBy t k tr).Sublist (entriesOf k tr) := by
  have hand : tr.filter (fun ev => ev.kind = k ∧ ev.thread = t) =
      (tr.filter fun ev => ev.kind = k).filter fun ev => ev.thread = t := by
    rw [List.filter_filter]
    congr 1
    funext ev
    simp [Bool.and_comm]
  rw [entriesBy, hand]
  exact List.Sublist.map _ List.filter_sublist

theorem entriesBy_eq_entriesOf {t : ℕ} {k : EventKind} {tr : List (Event Score ApplyFn)}
    (h : ∀ ev ∈ tr, ev.kind = k → ev.thread = t) : entriesBy t k tr = entriesOf k tr := by
  unfold entriesBy entriesOf
  congr 1
  refine List.filter_congr fun ev hev => ?_
  by_cases hk : ev.kind = k
  · simp [hk, h ev hev hk]
  · simp [hk]

/-! ## Entries inside unfinished calls -/

def Frame.popped? : Frame Score ApplyFn → Option (HeapEntry Score ApplyFn)
  | .popped e => some e
  | _ => none

def Frame.applying? : Frame Score ApplyFn → Option (HeapEntry Score ApplyFn)
  | .applying e => some e
  | _ => none

/-- The entries that the selected kind of frame holds, over all threads. -/
def entriesIn (sel : Frame Score ApplyFn → Option (HeapEntry Score ApplyFn))
    (frames : List (ℕ × Frame Score ApplyFn)) : Multiset (HeapEntry Score ApplyFn) :=
  frames.filterMap fun p => sel p.2

/-- The entry that thread `t` has popped and is about to dispatch. -/
def pendingOf (t : ℕ) (frames : List (ℕ × Frame Score ApplyFn)) : List (HeapEntry Score ApplyFn) :=
  ((topOf t frames).bind Frame.popped?).toList

theorem entriesIn_cons (sel : Frame Score ApplyFn → Option (HeapEntry Score ApplyFn)) (t : ℕ)
    (f : Frame Score ApplyFn) (frames : List (ℕ × Frame Score ApplyFn)) :
    entriesIn sel ((t, f) :: frames) = ((sel f).toList : Multiset _) + entriesIn sel frames := by
  cases h : sel f <;> simp [entriesIn, h]

theorem entriesIn_dropTop (sel : Frame Score ApplyFn → Option (HeapEntry Score ApplyFn)) {t : ℕ}
    {f : Frame Score ApplyFn} {frames : List (ℕ × Frame Score ApplyFn)}
    (htop : topOf t frames = some f) :
    entriesIn sel frames = ((sel f).toList : Multiset _) + entriesIn sel (dropTop t frames) := by
  rw [← entriesIn_cons sel t]
  exact Multiset.coe_eq_coe.mpr ((perm_dropTop htop).filterMap _)

/-- Only calls of `apply_fn` are suspended: every frame below a thread's innermost one is one. -/
def Stacked (frames : List (ℕ × Frame Score ApplyFn)) : Prop :=
  ∀ t, ∀ f ∈ (stackOf t frames).tail, f.isApplying = true

theorem Frame.isApplying_of_free {t : ℕ} {frames : List (ℕ × Frame Score ApplyFn)}
    (hfree : free t frames = true) : ∀ f ∈ topOf t frames, f.isApplying = true := by
  intro f hf
  rw [Option.mem_def] at hf
  simpa [free, hf] using hfree

theorem Stacked.cons {t : ℕ} {frames : List (ℕ × Frame Score ApplyFn)} (h : Stacked frames)
    (hfree : free t frames = true) (f : Frame Score ApplyFn) : Stacked ((t, f) :: frames) := by
  intro u g hg
  by_cases htu : t = u
  · subst htu
    rw [stackOf_cons_self, List.tail_cons] at hg
    cases hstack : stackOf t frames with
    | nil => simp [hstack] at hg
    | cons top below =>
      rw [hstack] at hg
      rcases List.mem_cons.mp hg with rfl | hg
      · exact Frame.isApplying_of_free hfree g (by simp [topOf, hstack])
      · exact h t g (by simpa [hstack] using hg)
  · rw [stackOf_cons_ne htu] at hg
    exact h u g hg

theorem Stacked.dropTop {t : ℕ} {frames : List (ℕ × Frame Score ApplyFn)} (h : Stacked frames) :
    Stacked (dropTop t frames) := by
  intro u g hg
  by_cases htu : t = u
  · subst htu
    rw [stackOf_dropTop_self] at hg
    exact h t g (List.mem_of_mem_tail hg)
  · rw [stackOf_dropTop_ne htu] at hg
    exact h u g hg

/-- After the innermost call of a thread has ended, the thread is back in an `apply_fn` or out. -/
theorem Stacked.free_dropTop {t : ℕ} {frames : List (ℕ × Frame Score ApplyFn)} (h : Stacked frames) :
    free t (Celery.dropTop t frames) = true := by
  unfold free topOf
  rw [stackOf_dropTop_self]
  cases hstack : (stackOf t frames).tail with
  | nil => rfl
  | cons f below => simpa using h t f (by simp [hstack])

/-! ### The innermost frame of each thread -/

theorem pendingOf_cons_self (t : ℕ) (f : Frame Score ApplyFn)
    (frames : List (ℕ × Frame Score ApplyFn)) : pendingOf t ((t, f) :: frames) = f.popped?.toList := by
  simp [pendingOf, topOf, stackOf_cons_self]

theorem pendingOf_cons_ne {t u : ℕ} (h : t ≠ u) (f : Frame Score ApplyFn)
    (frames : List (ℕ × Frame Score ApplyFn)) :
    pendingOf u ((t, f) :: frames) = pendingOf u frames := by
  simp [pendingOf, topOf, stackOf_cons_ne h]

theorem pendingOf_dropTop_ne {t u : ℕ} (h : t ≠ u) (frames : List (ℕ × Frame Score ApplyFn)) :
    pendingOf u (dropTop t frames) = pendingOf u frames := by
  simp [pendingOf, topOf, stackOf_dropTop_ne h]

theorem pendingOf_of_free {t : ℕ} {frames : List (ℕ × Frame Score ApplyFn)}
    (hfree : free t frames = true) : pendingOf t frames = [] := by
  cases htop : topOf t frames with
  | none => simp [pendingOf, htop]
  | some f =>
    have happ : f.isApplying = true := Frame.isApplying_of_free hfree f (by simp [htop])
    cases f <;> simp_all [pendingOf, Frame.isApplying, Frame.popped?]

theorem pendingOf_of_top {t : ℕ} {f : Frame Score ApplyFn} {frames : List (ℕ × Frame Score ApplyFn)}
    (htop : topOf t frames = some f) : pendingOf t frames = f.popped?.toList := by
  simp [pendingOf, htop]

/-! ### Steps that touch no entry -/

theorem Frame.popped?_of_isBookkeeping {f : Frame Score ApplyFn} (h : f.isBookkeeping = true) :
    f.popped? = none := by
  cases f <;> simp_all [Frame.isBookkeeping, Frame.popped?]

theorem Frame.applying?_of_isBookkeeping {f : Frame Score ApplyFn} (h : f.isBookkeeping = true) :
    f.applying? = none := by
  cases f <;> simp_all [Frame.isBookkeeping, Frame.applying?]

theorem Silent.entriesIn_eq {t : ℕ} {frames frames' : List (ℕ × Frame Score ApplyFn)}
    (h : Silent t frames frames') (sel : Frame Score ApplyFn → Option (HeapEntry Score ApplyFn))
    (hsel : ∀ f : Frame Score ApplyFn, f.isBookkeeping = true → sel f = none) :
    entriesIn sel frames' = entriesIn sel frames := by
  cases h with
  | stay => rfl
  | begin hf _ => rw [entriesIn_cons, hsel _ hf]; simp
  | advance hf hg htop => rw [entriesIn_cons, entriesIn_dropTop sel htop, hsel _ hf, hsel _ hg]
  | finish hf htop => rw [entriesIn_dropTop sel htop, hsel _ hf]; simp

theorem Silent.pendingOf_eq {t : ℕ} {frames frames' : List (ℕ × Frame Score ApplyFn)}
    (h : Silent t frames frames') (hst : Stacked frames) (u : ℕ) :
    pendingOf u frames' = pendingOf u frames := by
  by_cases htu : t = u
  · subst htu
    cases h with
    | stay => rfl
    | begin hf hfree =>
      rw [pendingOf_cons_self, Frame.popped?_of_isBookkeeping hf, pendingOf_of_free hfree]
      rfl
    | advance hf hg htop =>
      rw [pendingOf_cons_self, pendingOf_of_top htop, Frame.popped?_of_isBookkeeping hf,
        Frame.popped?_of_isBookkeeping hg]
    | finish hf htop =>
      rw [pendingOf_of_free hst.free_dropTop, pendingOf_of_top htop,
        Frame.popped?_of_isBookkeeping hf]
      rfl
  · cases h with
    | stay => rfl
    | begin => exact pendingOf_cons_ne htu _ _
    | advance => rw [pendingOf_cons_ne htu, pendingOf_dropTop_ne htu]
    | finish => exact pendingOf_dropTop_ne htu _

theorem Silent.stacked {t : ℕ} {frames frames' : List (ℕ × Frame Score ApplyFn)}
    (h : Silent t frames frames') (hst : Stacked frames) : Stacked frames' := by
  cases h with
  | stay => exact hst
  | begin _ hfree => exact hst.cons hfree _
  | advance _ _ _ => exact hst.dropTop.cons hst.free_dropTop _
  | finish _ _ => exact hst.dropTop

/-! ## The invariant -/

/-- Appending one event adds its entry to the entries of its kind and to no other. -/
theorem coe_entriesOf_snoc (k : EventKind) (trace : List (Event Score ApplyFn)) (t : ℕ)
    (k' : EventKind) (e : HeapEntry Score ApplyFn) :
    (entriesOf k (trace ++ [⟨t, k', e⟩]) : Multiset (HeapEntry Score ApplyFn)) =
      entriesOf k trace + if k' = k then {e} else 0 := by
  rw [entriesOf_append, entriesOf_singleton, ← Multiset.coe_add]
  split <;> rfl

structure Invariant (s : System Score ApplyFn Ranker) : Prop where
  conserved : (entriesOf .accepted s.trace : Multiset (HeapEntry Score ApplyFn)) =
    s.sched.heap + entriesOf .popped s.trace
  counter : ∀ e ∈ entriesOf .accepted s.trace, e.seq < s.sched.arrivalCounter
  distinct : ((entriesOf .accepted s.trace).map HeapEntry.seq).Nodup
  called : (entriesOf .popped s.trace : Multiset (HeapEntry Score ApplyFn)) =
    entriesIn Frame.popped? s.frames + entriesOf .applied s.trace
  ended : (entriesOf .applied s.trace : Multiset (HeapEntry Score ApplyFn)) =
    entriesIn Frame.applying? s.frames +
      (entriesOf .returned s.trace + entriesOf .raised s.trace)
  order : ∀ t, entriesBy t .popped s.trace = entriesBy t .applied s.trace ++ pendingOf t s.frames
  stacked : Stacked s.frames

theorem Invariant.initial (ranker : Ranker) (stats : TypeStatsTracker) :
    Invariant (System.initial ranker stats : System Score ApplyFn Ranker) where
  conserved := rfl
  counter := by simp [System.initial]
  distinct := by simp [System.initial]
  called := rfl
  ended := rfl
  order := fun t => rfl
  stacked := by simp [Stacked, System.initial, stackOf]

/-- What an accepted submission pushes, and what it leaves of the scheduler. -/
theorem LearnedScheduler.push_ok {s s' : LearnedScheduler Score ApplyFn Ranker}
    {sub : Submission Score ApplyFn} {e : HeapEntry Score ApplyFn} (h : s.push sub = .ok (s', e)) :
    sub.taskId ∉ s.registry ∧ e = ⟨sub.score, s.arrivalCounter, sub.applyFn, sub.taskId⟩ ∧
      s' = { s with
        heap := e :: s.heap
        arrivalCounter := s.arrivalCounter + 1
        registry := s.registry.insert sub.taskId ⟨sub.taskType, sub.payloadSize, none⟩ } := by
  unfold push at h
  split at h
  · cases h
  · next hfresh =>
    cases h
    exact ⟨hfresh, rfl, rfl⟩

variable [LinearOrder Score] {s s' : System Score ApplyFn Ranker} {t : ℕ}

theorem Invariant.conserved_step (hinv : Invariant s) (h : Effect s t s') :
    (entriesOf .accepted s'.trace : Multiset (HeapEntry Score ApplyFn)) =
      s'.sched.heap + entriesOf .popped s'.trace := by
  have hc := hinv.conserved
  cases h with
  | @accept _ _ e htop hpush =>
    obtain ⟨-, -, rfl⟩ := LearnedScheduler.push_ok hpush
    simp only [coe_entriesOf_snoc, hc, ← Multiset.cons_coe, ← Multiset.singleton_add e, if_true,
      reduceCtorEq, if_false]
    abel
  | @pop e _ hfree hpop =>
    -- the entry moves from the heap to the popped ones
    rw [Multiset.coe_eq_coe.mpr (extractLeast_perm _ hpop), ← Multiset.cons_coe,
      ← Multiset.singleton_add e] at hc
    simp only [coe_entriesOf_snoc, hc, if_true, reduceCtorEq, if_false]
    abel
  | apply htop => simpa [coe_entriesOf_snoc] using hc
  | finish hk htop => rcases hk with rfl | rfl <;> simpa [coe_entriesOf_snoc] using hc
  | silent hheap _ _ => simpa only [hheap] using hc

theorem Invariant.counter_step (hinv : Invariant s) (h : Effect s t s') :
    ∀ e ∈ entriesOf .accepted s'.trace, e.seq < s'.sched.arrivalCounter := by
  cases h with
  | accept htop hpush =>
    obtain ⟨-, rfl, rfl⟩ := LearnedScheduler.push_ok hpush
    intro e he
    simp only [entriesOf_append, entriesOf_singleton, if_true, List.mem_append,
      List.mem_singleton] at he
    rcases he with he | rfl
    · exact (hinv.counter e he).trans (Nat.lt_succ_self _)
    · exact Nat.lt_succ_self _
  | pop hfree hpop => simpa [entriesOf_append] using hinv.counter
  | apply htop => simpa [entriesOf_append] using hinv.counter
  | finish hk htop => rcases hk with rfl | rfl <;> simpa [entriesOf_append] using hinv.counter
  | silent _ hcounter _ => simpa only [hcounter] using hinv.counter

/-- The entry accepted last has the arrival number that no earlier one reached. -/
theorem Invariant.distinct_step (hinv : Invariant s) (h : Effect s t s') :
    ((entriesOf .accepted s'.trace).map HeapEntry.seq).Nodup := by
  cases h with
  | accept htop hpush =>
    obtain ⟨-, rfl, rfl⟩ := LearnedScheduler.push_ok hpush
    simp only [entriesOf_append, entriesOf_singleton, if_true, List.map_append, List.map_cons,
      List.map_nil]
    refine List.Nodup.append hinv.distinct (List.nodup_singleton _) ?_
    rw [List.disjoint_singleton]
    intro hmem
    obtain ⟨e, he, hseq⟩ := List.mem_map.mp hmem
    exact absurd (hinv.counter e he) (by omega)
  | pop hfree hpop => simpa [entriesOf_append] using hinv.distinct
  | apply htop => simpa [entriesOf_append] using hinv.distinct
  | finish hk htop => rcases hk with rfl | rfl <;> simpa [entriesOf_append] using hinv.distinct
  | silent _ _ _ => exact hinv.distinct

theorem Invariant.called_step (hinv : Invariant s) (h : Effect s t s') :
    (entriesOf .popped s'.trace : Multiset (HeapEntry Score ApplyFn)) =
      entriesIn Frame.popped? s'.frames + entriesOf .applied s'.trace := by
  have hc := hinv.called
  cases h with
  | accept htop hpush =>
    rw [entriesIn_dropTop Frame.popped? htop] at hc
    simpa [coe_entriesOf_snoc, Frame.popped?] using hc
  | pop hfree hpop =>
    simp only [coe_entriesOf_snoc, hc, entriesIn_cons, Frame.popped?, Option.toList_some,
      Multiset.coe_singleton, if_true, reduceCtorEq, if_false]
    abel
  | apply htop =>
    -- the entry moves from the popped frame to the calls made
    rw [entriesIn_dropTop Frame.popped? htop] at hc
    simp only [coe_entriesOf_snoc, hc, entriesIn_cons, Frame.popped?, Option.toList_some,
      Option.toList_none, Multiset.coe_singleton, Multiset.coe_nil, if_true, reduceCtorEq, if_false]
    abel
  | finish hk htop =>
    rw [entriesIn_dropTop Frame.popped? htop] at hc
    rcases hk with rfl | rfl <;> simpa [coe_entriesOf_snoc, Frame.popped?] using hc
  | silent _ _ hframes =>
    rw [hframes.entriesIn_eq _ fun _ => Frame.popped?_of_isBookkeeping]
    exact hc

theorem Invariant.ended_step (hinv : Invariant s) (h : Effect s t s') :
    (entriesOf .applied s'.trace : Multiset (HeapEntry Score ApplyFn)) =
      entriesIn Frame.applying? s'.frames +
        (entriesOf .returned s'.trace + entriesOf .raised s'.trace) := by
  have he := hinv.ended
  cases h with
  | accept htop hpush =>
    rw [entriesIn_dropTop Frame.applying? htop] at he
    simpa [coe_entriesOf_snoc, Frame.applying?] using he
  | pop hfree hpop => simpa [coe_entriesOf_snoc, entriesIn_cons, Frame.applying?] using he
  | apply htop =>
    rw [entriesIn_dropTop Frame.applying? htop] at he
    simp only [coe_entriesOf_snoc, he, entriesIn_cons, Frame.applying?, Option.toList_some,
      Option.toList_none, Multiset.coe_singleton, Multiset.coe_nil, if_true, reduceCtorEq, if_false]
    abel
  | finish hk htop =>
    -- the entry moves from the call running to the calls ended
    rw [entriesIn_dropTop Frame.applying? htop] at he
    rcases hk with rfl | rfl
    all_goals
      simp only [coe_entriesOf_snoc, he, Frame.applying?, Option.toList_some,
        Multiset.coe_singleton, if_true, reduceCtorEq, if_false]
      abel
  | silent _ _ hframes =>
    rw [hframes.entriesIn_eq _ fun _ => Frame.applying?_of_isBookkeeping]
    exact he

/-- A thread's calls follow its pops: a pop leaves its entry pending and only the call of that entry
takes it off. -/
theorem Invariant.order_step (hinv : Invariant s) (h : Effect s t s') (u : ℕ) :
    entriesBy u .popped s'.trace = entriesBy u .applied s'.trace ++ pendingOf u s'.frames := by
  have ho := hinv.order u
  cases h with
  | accept htop hpush =>
    have hpend := (Silent.finish rfl htop).pendingOf_eq hinv.stacked u
    simpa [entriesBy_append, hpend] using ho
  | pop hfree hpop =>
    by_cases htu : t = u
    · subst htu
      rw [pendingOf_of_free hfree, List.append_nil] at ho
      simp [entriesBy_append, ho, pendingOf_cons_self, Frame.popped?]
    · simpa [entriesBy_append, htu, pendingOf_cons_ne htu] using ho
  | apply htop =>
    by_cases htu : t = u
    · subst htu
      rw [pendingOf_of_top htop] at ho
      simp [entriesBy_append, ho, pendingOf_cons_self, Frame.popped?]
    · simpa [entriesBy_append, htu, pendingOf_cons_ne htu, pendingOf_dropTop_ne htu] using ho
  | finish hk htop =>
    have hpend : pendingOf u (Celery.dropTop t s.frames) = pendingOf u s.frames := by
      by_cases htu : t = u
      · subst htu
        rw [pendingOf_of_free hinv.stacked.free_dropTop, pendingOf_of_top htop]
        rfl
      · exact pendingOf_dropTop_ne htu _
    rcases hk with rfl | rfl <;> simpa [entriesBy_append, hpend] using ho
  | silent _ _ hframes =>
    rw [hframes.pendingOf_eq hinv.stacked]
    exact ho

theorem Invariant.stacked_step (hinv : Invariant s) (h : Effect s t s') : Stacked s'.frames := by
  cases h with
  | accept _ _ => exact hinv.stacked.dropTop
  | pop hfree _ => exact hinv.stacked.cons hfree _
  | apply _ => exact hinv.stacked.dropTop.cons hinv.stacked.free_dropTop _
  | finish _ _ => exact hinv.stacked.dropTop
  | silent _ _ hframes => exact hframes.stacked hinv.stacked

theorem Invariant.step (hinv : Invariant s) (h : Effect s t s') : Invariant s' where
  conserved := hinv.conserved_step h
  counter := hinv.counter_step h
  distinct := hinv.distinct_step h
  called := hinv.called_step h
  ended := hinv.ended_step h
  order := hinv.order_step h
  stacked := hinv.stacked_step h

/-- The invariant holds at the end of every run that starts with it. -/
theorem Invariant.run {as : List (ℕ × Action Score ApplyFn Ranker)} (hinv : Invariant s)
    (h : Run Steps s as s') : Invariant s' :=
  h.preserves (fun _ _ _ hstep hs => hs.step (step_effect hstep)) hinv

end Chronoq.Celery
