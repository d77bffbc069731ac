import Chronoq.Foundations.Transition
import Chronoq.Celery.Scheduler

/-! # Any number of threads on one active-mode scheduler

`System` is the scheduler together with what every thread is in the middle of. A step is one atomic
block of one thread; between two blocks of a method any other thread may run, and a thread inside an
`apply_fn` may call the scheduler again. The lock is not modelled: it is what makes a block atomic.

* `Frame`: an unfinished call. `submitting` has its score and waits for the lock; `popped` holds an
  entry whose `apply_fn` has not been called yet; `applying` is inside that `apply_fn`; `observing`
  and `reporting` are `record_completion` before `self._stats.record` and before `ranker.record`.
* `frames` lists all of them with their thread, the innermost call of a thread first.
* `trace` is a history of what happened to which entry. No step reads it.
* `step_effect` says once what a step can do; every invariant of the development is derived from it.
-/

namespace Chronoq.Celery
open Foundations Ranker

set_option autoImplicit false

/-! ## The system -/

inductive Frame (Score ApplyFn : Type)
  | submitting (sub : Submission Score ApplyFn)
  | popped (e : HeapEntry Score ApplyFn)
  | applying (e : HeapEntry Score ApplyFn)
  | observing (taskType : String) (payloadSize : ℤ) (actualMs : ℚ)
  | reporting (taskType : String) (payloadSize : ℤ) (actualMs : ℚ)

/-- What can happen to an entry: pushed by `submit`, popped, its `apply_fn` called, and the end of
that call. -/
inductive EventKind
  | accepted
  | popped
  | applied
  | returned
  | raised
  deriving DecidableEq, Repr

structure Event (Score ApplyFn : Type) where
  thread : ℕ
  kind : EventKind
  entry : HeapEntry Score ApplyFn
  deriving DecidableEq

structure System (Score ApplyFn Ranker : Type) where
  sched : LearnedScheduler Score ApplyFn Ranker
  frames : List (ℕ × Frame Score ApplyFn)
  trace : List (Event Score ApplyFn)

/-- One atomic block, with whatever the environment contributes to it: the scored submission, a
clock reading, the ranker after `ranker.record` (which may also have raised). -/
inductive Action (Score ApplyFn Ranker : Type)
  | submit (sub : Submission Score ApplyFn)
  | push
  | dispatchNext
  | callApply
  | applyReturns
  | applyRaises
  | recordStart (taskId taskType : String) (payloadSize : ℤ) (nowMs : ℚ)
  | recordCompletion (taskId taskType : String) (payloadSize : ℤ) (nowMs : ℚ)
  | observe
  | report (ranker : Option Ranker)
  | cleanupRegistry (taskId : String)

variable {Score ApplyFn Ranker : Type}

/-- The unfinished calls of thread `t`, innermost first. -/
def stackOf (t : ℕ) (frames : List (ℕ × Frame Score ApplyFn)) : List (Frame Score ApplyFn) :=
  (frames.filter fun p => p.1 = t).map Prod.snd

def topOf (t : ℕ) (frames : List (ℕ × Frame Score ApplyFn)) : Option (Frame Score ApplyFn) :=
  (stackOf t frames).head?

def dropTop (t : ℕ) (frames : List (ℕ × Frame Score ApplyFn)) : List (ℕ × Frame Score ApplyFn) :=
  frames.eraseP fun p => p.1 = t

def Frame.isApplying : Frame Score ApplyFn → Bool
  | .applying _ => true
  | _ => false

/-- Thread `t` may begin a call: it is outside the scheduler or inside an `apply_fn`. -/
def free (t : ℕ) (frames : List (ℕ × Frame Score ApplyFn)) : Bool :=
  ((topOf t frames).map Frame.isApplying).getD true

/-! ## Threads and their frames -/

theorem stackOf_cons_self (t : ℕ) (f : Frame Score ApplyFn) (frames : List (ℕ × Frame Score ApplyFn)) :
    stackOf t ((t, f) :: frames) = f :: stackOf t frames := by
  simp [stackOf]

theorem stackOf_cons_ne {t t' : ℕ} (h : t' ≠ t) (f : Frame Score ApplyFn)
    (frames : List (ℕ × Frame Score ApplyFn)) :
    stackOf t ((t', f) :: frames) = stackOf t frames := by
  simp [stackOf, h]

theorem stackOf_dropTop_self (t : ℕ) (frames : List (ℕ × Frame Score ApplyFn)) :
    stackOf t (dropTop t frames) = (stackOf t frames).tail := by
  induction frames with
  | nil => rfl
  | cons p frames ih =>
    obtain ⟨t', f⟩ := p
    by_cases h : t' = t
    · subst h
      simp [dropTop, stackOf]
    · have hdrop : dropTop t ((t', f) :: frames) = (t', f) :: dropTop t frames := by
        simp [dropTop, h]
      rw [hdrop, stackOf_cons_ne h, stackOf_cons_ne h, ih]

theorem stackOf_dropTop_ne {t t' : ℕ} (h : t' ≠ t) (frames : List (ℕ × Frame Score ApplyFn)) :
    stackOf t (dropTop t' frames) = stackOf t frames := by
  induction frames with
  | nil => rfl
  | cons p frames ih =>
    obtain ⟨u, f⟩ := p
    by_cases hu : u = t'
    · subst hu
      have hdrop : dropTop u ((u, f) :: frames) = frames := by simp [dropTop]
      rw [hdrop, stackOf_cons_ne h]
    · have hdrop : dropTop t' ((u, f) :: frames) = (u, f) :: dropTop t' frames := by
        simp [dropTop, hu]
      rw [hdrop]
      by_cases hut : u = t
      · subst hut
        rw [stackOf_cons_self, stackOf_cons_self, ih]
      · rw [stackOf_cons_ne hut, stackOf_cons_ne hut, ih]

theorem perm_dropTop {t : ℕ} {f : Frame Score ApplyFn} {frames : List (ℕ × Frame Score ApplyFn)}
    (h : topOf t frames = some f) : frames.Perm ((t, f) :: dropTop t frames) := by
  induction frames with
  | nil => simp [topOf, stackOf] at h
  | cons p frames ih =>
    obtain ⟨u, g⟩ := p
    by_cases hu : u = t
    · subst hu
      rw [topOf, stackOf_cons_self] at h
      obtain rfl : g = f := by simpa using h
      simp [dropTop]
    · rw [topOf, stackOf_cons_ne hu] at h
      have hdrop : dropTop t ((u, g) :: frames) = (u, g) :: dropTop t frames := by
        simp [dropTop, hu]
      rw [hdrop]
      exact ((ih h).cons (u, g)).trans (List.Perm.swap ..)

/-! ## The step -/

variable [LinearOrder Score]

/-- One atomic block of thread `t`; `none` where the thread is not at that block. -/
def System.step (s : System Score ApplyFn Ranker) (t : ℕ) :
    Action Score ApplyFn Ranker → Option (System Score ApplyFn Ranker)
  | .submit sub =>
    if free t s.frames then some { s with frames := (t, .submitting sub) :: s.frames } else none
  | .push =>
    match topOf t s.frames with
    | some (.submitting sub) =>
      match s.sched.push sub with
      | .error _ => some { s with frames := dropTop t s.frames }
      | .ok (sched, e) => some ⟨sched, dropTop t s.frames, s.trace ++ [⟨t, .accepted, e⟩]⟩
    | _ => none
  | .dispatchNext =>
    if free t s.frames then
      match s.sched.pop with
      | none => some s
      | some (e, sched) => some ⟨sched, (t, .popped e) :: s.frames, s.trace ++ [⟨t, .popped, e⟩]⟩
    else none
  | .callApply =>
    match topOf t s.frames with
    | some (.popped e) =>
      some ⟨s.sched, (t, .applying e) :: dropTop t s.frames, s.trace ++ [⟨t, .applied, e⟩]⟩
    | _ => none
  | .applyReturns =>
    match topOf t s.frames with
    | some (.applying e) => some ⟨s.sched, dropTop t s.frames, s.trace ++ [⟨t, .returned, e⟩]⟩
    | _ => none
  | .applyRaises =>
    match topOf t s.frames with
    | some (.applying e) => some ⟨s.sched, dropTop t s.frames, s.trace ++ [⟨t, .raised, e⟩]⟩
    | _ => none
  | .recordStart taskId taskType payloadSize nowMs =>
    if free t s.frames then
      some { s with sched := s.sched.recordStart taskId taskType payloadSize nowMs }
    else none
  | .recordCompletion taskId taskType payloadSize nowMs =>
    if free t s.frames then
      match (s.sched.takeEntry taskId).1.bind RegistryEntry.startMs with
      | none => some { s with sched := (s.sched.takeEntry taskId).2 }
      | some startMs =>
        some { s with
          sched := (s.sched.takeEntry taskId).2
          frames := (t, .observing taskType payloadSize (nowMs - startMs)) :: s.frames }
    else none
  | .observe =>
    match topOf t s.frames with
    | some (.observing taskType payloadSize actualMs) =>
      some { s with
        sched := { s.sched with stats := s.sched.stats.record taskType actualMs }
        frames := (t, .reporting taskType payloadSize actualMs) :: dropTop t s.frames }
    | _ => none
  | .report ranker =>
    match topOf t s.frames with
    | some (.reporting _ _ _) =>
      some { s with sched := { s.sched with ranker := ranker }, frames := dropTop t s.frames }
    | _ => none
  | .cleanupRegistry taskId =>
    if free t s.frames then some { s with sched := s.sched.cleanupRegistry taskId } else none

/-- The step relation: some thread performs one atomic block. -/
def Steps (s : System Score ApplyFn Ranker) (a : ℕ × Action Score ApplyFn Ranker)
    (s' : System Score ApplyFn Ranker) : Prop := s.step a.1 a.2 = some s'

/-- A scheduler just constructed in active mode, with no thread inside it. -/
def System.initial (ranker : Ranker) (stats : TypeStatsTracker) :
    System Score ApplyFn Ranker := ⟨.new .active ranker stats, [], []⟩

/-! ## What one step can do -/

/-- A frame that holds no entry. -/
def Frame.isBookkeeping : Frame Score ApplyFn → Bool
  | .submitting _ => true
  | .observing _ _ _ => true
  | .reporting _ _ _ => true
  | _ => false

/-- The frames after a step that touches no entry: unchanged, or a call without an entry begun,
advanced or ended. -/
inductive Silent (t : ℕ) (frames : List (ℕ × Frame Score ApplyFn)) :
    List (ℕ × Frame Score ApplyFn) → Prop
  | stay : Silent t frames frames
  | begin {f : Frame Score ApplyFn} (hf : f.isBookkeeping = true) (hfree : free t frames = true) :
      Silent t frames ((t, f) :: frames)
  | advance {f g : Frame Score ApplyFn} (hf : f.isBookkeeping = true) (hg : g.isBookkeeping = true)
      (htop : topOf t frames = some f) : Silent t frames ((t, g) :: dropTop t frames)
  | finish {f : Frame Score ApplyFn} (hf : f.isBookkeeping = true) (htop : topOf t frames = some f) :
      Silent t frames (dropTop t frames)

/-- Everything a step of thread `t` can do. -/
inductive Effect (s : System Score ApplyFn Ranker) (t : ℕ) : System Score ApplyFn Ranker → Prop
  | accept {sub : Submission Score ApplyFn} {sched : LearnedScheduler Score ApplyFn Ranker}
      {e : HeapEntry Score ApplyFn} (htop : topOf t s.frames = some (.submitting sub))
      (hpush : s.sched.push sub = .ok (sched, e)) :
      Effect s t ⟨sched, dropTop t s.frames, s.trace ++ [⟨t, .accepted, e⟩]⟩
  | pop {e : HeapEntry Score ApplyFn} {rest : List (HeapEntry Score ApplyFn)}
      (hfree : free t s.frames = true)
      (hpop : extractLeast HeapEntry.key s.sched.heap = some (e, rest)) :
      Effect s t ⟨{ s.sched with heap := rest }, (t, .popped e) :: s.frames,
        s.trace ++ [⟨t, .popped, e⟩]⟩
  | apply {e : HeapEntry Score ApplyFn} (htop : topOf t s.frames = some (.popped e)) :
      Effect s t ⟨s.sched, (t, .applying e) :: dropTop t s.frames, s.trace ++ [⟨t, .applied, e⟩]⟩
  | finish {e : HeapEntry Score ApplyFn} {k : EventKind} (hk : k = .returned ∨ k = .raised)
      (htop : topOf t s.frames = some (.applying e)) :
      Effect s t ⟨s.sched, dropTop t s.frames, s.trace ++ [⟨t, k, e⟩]⟩
  | silent {sched : LearnedScheduler Score ApplyFn Ranker} {frames : List (ℕ × Frame Score ApplyFn)}
      (hheap : sched.heap = s.sched.heap) (hcounter : sched.arrivalCounter = s.sched.arrivalCounter)
      (hframes : Silent t s.frames frames) : Effect s t ⟨sched, frames, s.trace⟩

omit [LinearOrder Score] in
theorem LearnedScheduler.recordStart_heap (s : LearnedScheduler Score ApplyFn Ranker)
    (taskId taskType : String) (payloadSize : ℤ) (nowMs : ℚ) :
    (s.recordStart taskId taskType payloadSize nowMs).heap = s.heap ∧
      (s.recordStart taskId taskType payloadSize nowMs).arrivalCounter = s.arrivalCounter := by
  unfold recordStart
  split <;> exact ⟨rfl, rfl⟩

theorem step_effect {s s' : System Score ApplyFn Ranker} {t : ℕ} {a : Action Score ApplyFn Ranker}
    (h : s.step t a = some s') : Effect s t s' := by
  cases a with
  | submit sub =>
    simp only [System.step] at h
    split at h
    · next hfree =>
      cases h
      exact .silent rfl rfl (.begin rfl hfree)
    · cases h
  | push =>
    simp only [System.step] at h
    split at h
    · next sub htop =>
      split at h
      · cases h
        exact .silent rfl rfl (.finish rfl htop)
      · next hpush =>
        cases h
        exact .accept htop hpush
    · cases h
  | dispatchNext =>
    simp only [System.step] at h
    split at h
    · next hfree =>
      split at h
      · cases h
        exact .silent rfl rfl .stay
      · next hpop =>
        cases h
        simp only [LearnedScheduler.pop, Option.map_eq_some_iff, Prod.mk.injEq] at hpop
        obtain ⟨⟨e, rest⟩, hleast, rfl, rfl⟩ := hpop
        exact .pop hfree hleast
    · cases h
  | callApply =>
    simp only [System.step] at h
    split at h
    · next htop =>
      cases h
      exact .apply htop
    · cases h
  | applyReturns =>
    simp only [System.step] at h
    split at h
    · next htop =>
      cases h
      exact .finish (.inl rfl) htop
    · cases h
  | applyRaises =>
    simp only [System.step] at h
    split at h
    · next htop =>
      cases h
      exact .finish (.inr rfl) htop
    · cases h
  | recordStart taskId taskType payloadSize nowMs =>
    simp only [System.step] at h
    split at h
    · cases h
      obtain ⟨hheap, hcounter⟩ := s.sched.recordStart_heap taskId taskType payloadSize nowMs
      exact .silent hheap hcounter .stay
    · cases h
  | recordCompletion taskId taskType payloadSize nowMs =>
    simp only [System.step] at h
    split at h
    · next hfree =>
      split at h
      · cases h
        exact .silent rfl rfl .stay
      · cases h
        exact .silent rfl rfl (.begin rfl hfree)
    · cases h
  | observe =>
    simp only [System.step] at h
    split at h
    · next htop =>
      cases h
      exact .silent rfl rfl (.advance rfl rfl htop)
    · cases h
  | report ranker =>
    simp only [System.step] at h
    split at h
    · next htop =>
      cases h
      exact .silent rfl rfl (.finish rfl htop)
    · cases h
  | cleanupRegistry taskId =>
    simp only [System.step] at h
    split at h
    · cases h
      exact .silent rfl rfl .stay
    · cases h

end Chronoq.Celery
