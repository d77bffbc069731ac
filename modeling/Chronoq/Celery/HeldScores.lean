import Chronoq.Celery.Conservation
import Chronoq.Ranker.Cadence

/-! # Which estimator scored the held tasks

A task is scored once, when it is submitted, and keeps that score in the heap. Between two submissions
`record_completion` may retrain, and a retrain may install an estimator of another class: the heuristic
and gradient boosting score in milliseconds, LambdaRank by a negated relevance.

The callable of an entry carries the class of the estimator that scored it (`Scored`). No step reads
it; `Honest` says that it is the class of the installed estimator when the thread of `submit` reads the
pointer. What `ranker.record` leaves is arbitrary, since several of them may overlap.

* `Comparable classify`: the classes behind the held scores are all the same to `classify`, which may
  tell all classes apart or only their scales.
* `Mixes`: the step pushes a task whose score is not like that of a held one.
* `Rescales`: the installed estimator changes while a task is held or waits to be pushed.
* `held_scores_comparable_iff`: held scores stay comparable exactly as long as no step mixes, and no
  step mixes unless one has rescaled. -/

namespace Chronoq.Celery
open Foundations Ranker

set_option autoImplicit false

/-! ## Scores and their origin -/

/-- An `apply_fn` with the class of the estimator that scored its task. -/
structure Scored (ApplyFn : Type) where
  applyFn : ApplyFn
  scoredBy : ModelType
  deriving DecidableEq

/-- What a score of `predict_batch` is. -/
inductive ScoreScale
  | milliseconds
  | negatedRelevance
  deriving DecidableEq, Repr

def scaleOf : ModelType → ScoreScale
  | .heuristic => .milliseconds
  | .gradientBoosting => .milliseconds
  | .lambdarank => .negatedRelevance

variable {ApplyFn : Type}

abbrev ScoredSystem (ApplyFn : Type) := System ℚ (Scored ApplyFn) TaskRanker

abbrev ScoredAction (ApplyFn : Type) := ℕ × Action ℚ (Scored ApplyFn) TaskRanker

/-- A submission is scored by the estimator that its thread finds installed. -/
def Honest (s : ScoredSystem ApplyFn) (a : ScoredAction ApplyFn) : Prop :=
  match a.2 with
  | .submit sub => ∃ r, s.sched.ranker = some r ∧ sub.applyFn.scoredBy = r.estimator.modelType
  | _ => True

/-- The submissions that have been scored and wait for the lock. -/
def pending (frames : List (ℕ × Frame ℚ (Scored ApplyFn))) : List (Submission ℚ (Scored ApplyFn)) :=
  frames.filterMap fun p =>
    match p.2 with
    | .submitting sub => some sub
    | _ => none

/-! ## The laws -/

section Laws
variable {κ : Type} (classify : ModelType → κ)

def Comparable (s : ScoredSystem ApplyFn) : Prop :=
  ∀ e ∈ s.sched.heap, ∀ e' ∈ s.sched.heap,
    classify e.applyFn.scoredBy = classify e'.applyFn.scoredBy

/-- The class of the installed estimator, as far as `classify` sees it. -/
def installedClass (ranker : Option TaskRanker) : Option κ :=
  ranker.map fun r => classify r.estimator.modelType

/-- The step pushes a task that was scored by another class than a held one. -/
def Mixes (s : ScoredSystem ApplyFn) (a : ScoredAction ApplyFn) : Prop :=
  ∃ sub, a.2 = .push ∧ topOf a.1 s.frames = some (.submitting sub) ∧ sub.taskId ∉ s.sched.registry ∧
    ∃ e ∈ s.sched.heap, classify e.applyFn.scoredBy ≠ classify sub.applyFn.scoredBy

/-- The step changes the class of the installed estimator while a task is held or about to be. -/
def Rescales (s : ScoredSystem ApplyFn) (a : ScoredAction ApplyFn) : Prop :=
  ∃ ranker, a.2 = .report ranker ∧
    installedClass classify ranker ≠ installedClass classify s.sched.ranker ∧
    (s.sched.heap ≠ [] ∨ pending s.frames ≠ [])

end Laws

/-! ## What a step does to scores -/

theorem mem_pending_of_top {t : ℕ} {frames : List (ℕ × Frame ℚ (Scored ApplyFn))}
    {sub : Submission ℚ (Scored ApplyFn)} (h : topOf t frames = some (.submitting sub)) :
    sub ∈ pending frames := by
  have hmem := (perm_dropTop h).symm.subset List.mem_cons_self
  exact List.mem_filterMap.mpr ⟨_, hmem, rfl⟩

theorem pending_dropTop (t : ℕ) (frames : List (ℕ × Frame ℚ (Scored ApplyFn))) :
    pending (dropTop t frames) ⊆ pending frames :=
  List.filterMap_subset _ List.eraseP_subset

theorem step_heap {s s' : ScoredSystem ApplyFn} {t : ℕ} {a : Action ℚ (Scored ApplyFn) TaskRanker}
    (h : s.step t a = some s') {e : HeapEntry ℚ (Scored ApplyFn)} (he : e ∈ s'.sched.heap) :
    e ∈ s.sched.heap ∨ ∃ sub ∈ pending s.frames, e.applyFn = sub.applyFn := by
  cases step_effect h with
  | accept htop hpush =>
    obtain ⟨-, rfl, rfl⟩ := LearnedScheduler.push_ok hpush
    rcases List.mem_cons.mp he with rfl | hold
    · exact .inr ⟨_, mem_pending_of_top htop, rfl⟩
    · exact .inl hold
  | pop hfree hpop => exact .inl ((extractLeast_perm _ hpop).symm.subset (List.mem_cons_of_mem _ he))
  | apply htop => exact .inl he
  | finish hk htop => exact .inl he
  | silent hheap hcounter hframes => exact .inl (hheap ▸ he)

/-- Only `submit` makes a pending submission, and only `report` changes the ranker. -/
theorem step_scores {s s' : ScoredSystem ApplyFn} {t : ℕ} {a : Action ℚ (Scored ApplyFn) TaskRanker}
    (h : s.step t a = some s') :
    (∀ sub ∈ pending s'.frames, sub ∈ pending s.frames ∨ a = .submit sub) ∧
      (s'.sched.ranker = s.sched.ranker ∨ a = .report s'.sched.ranker) := by
  cases a with
  | submit sub' =>
    simp only [System.step] at h
    split at h
    · cases h
      refine ⟨fun sub hsub => ?_, .inl rfl⟩
      rcases List.mem_cons.mp hsub with rfl | hold
      · exact .inr rfl
      · exact .inl hold
    · cases h
  | push =>
    simp only [System.step] at h
    split at h
    · split at h
      · cases h
        exact ⟨fun sub hsub => .inl (pending_dropTop _ _ hsub), .inl rfl⟩
      · next hpush =>
        cases h
        obtain ⟨-, rfl, rfl⟩ := LearnedScheduler.push_ok hpush
        exact ⟨fun sub hsub => .inl (pending_dropTop _ _ hsub), .inl rfl⟩
    · cases h
  | dispatchNext =>
    simp only [System.step] at h
    split at h
    · split at h
      · cases h
        exact ⟨fun sub hsub => .inl hsub, .inl rfl⟩
      · next hpop =>
        cases h
        simp only [LearnedScheduler.pop, Option.map_eq_some_iff, Prod.mk.injEq] at hpop
        obtain ⟨-, -, -, rfl⟩ := hpop
        exact ⟨fun sub hsub => .inl hsub, .inl rfl⟩
    · cases h
  | recordStart taskId taskType payloadSize nowMs =>
    simp only [System.step] at h
    split at h
    · cases h
      refine ⟨fun sub hsub => .inl hsub, .inl ?_⟩
      dsimp only [LearnedScheduler.recordStart]
      split <;> rfl
    · cases h
  | recordCompletion taskId taskType payloadSize nowMs =>
    simp only [System.step] at h
    split at h
    · split at h <;> cases h <;> exact ⟨fun sub hsub => .inl hsub, .inl rfl⟩
    · cases h
  | cleanupRegistry taskId =>
    simp only [System.step] at h
    split at h
    · cases h
      exact ⟨fun sub hsub => .inl hsub, .inl rfl⟩
    · cases h
  | callApply | applyReturns | applyRaises | observe =>
    simp only [System.step] at h
    split at h
    · cases h
      exact ⟨fun sub hsub => .inl (pending_dropTop _ _ hsub), .inl rfl⟩
    · cases h
  | report ranker =>
    simp only [System.step] at h
    split at h
    · cases h
      exact ⟨fun sub hsub => .inl (pending_dropTop _ _ hsub), .inr rfl⟩
    · cases h

/-! ## Where all scores are comparable -/

section Comparable
variable {κ : Type} {classify : ModelType → κ} {s s' : ScoredSystem ApplyFn}

/-- Every score, held or waiting to be pushed, is of the class that is installed. -/
structure ScoredNow (classify : ModelType → κ) (s : ScoredSystem ApplyFn) : Prop where
  held : ∀ e ∈ s.sched.heap,
    some (classify e.applyFn.scoredBy) = installedClass classify s.sched.ranker
  pending : ∀ sub ∈ pending s.frames,
    some (classify sub.applyFn.scoredBy) = installedClass classify s.sched.ranker

theorem ScoredNow.comparable (h : ScoredNow classify s) : Comparable classify s :=
  fun e he e' he' => Option.some.inj ((h.held e he).trans (h.held e' he').symm)

theorem ScoredNow.step {a : ScoredAction ApplyFn} (h : ScoredNow classify s) (hstep : Steps s a s')
    (hhonest : Honest s a) (hguard : ¬ Rescales classify s a) : ScoredNow classify s' := by
  obtain ⟨t, act⟩ := a
  change s.step t act = some s' at hstep
  have hheap := fun e he => step_heap hstep (e := e) he
  obtain ⟨hpending, hranker⟩ := step_scores hstep
  by_cases hclass : installedClass classify s'.sched.ranker = installedClass classify s.sched.ranker
  · refine ⟨fun e he => ?_, fun sub hsub => ?_⟩
    · rw [hclass]
      obtain hold | ⟨sub, hsub, hfn⟩ := hheap e he
      · exact h.held e hold
      · rw [hfn]
        exact h.pending sub hsub
    · rw [hclass]
      obtain hold | rfl := hpending sub hsub
      · exact h.pending sub hold
      · obtain ⟨r, hr, hscored⟩ := hhonest
        rw [hr, hscored]
        rfl
  · -- nothing is held or pending when the class changes
    obtain hsame | rfl := hranker
    · exact absurd (congrArg _ hsame) hclass
    · have hempty : s.sched.heap = [] ∧ Celery.pending s.frames = [] := by
        by_contra hne
        rw [not_and_or] at hne
        exact hguard ⟨_, rfl, hclass, hne⟩
      refine ⟨fun e he => ?_, fun sub hsub => ?_⟩
      · obtain hold | ⟨sub, hsub, -⟩ := hheap e he
        · rw [hempty.1] at hold
          cases hold
        · rw [hempty.2] at hsub
          cases hsub
      · obtain hold | hact := hpending sub hsub
        · rw [hempty.2] at hold
          cases hold
        · cases hact

/-- A thread that waits for the lock of `submit` does nothing else. -/
theorem eq_push_of_top {t : ℕ} {act : Action ℚ (Scored ApplyFn) TaskRanker}
    {sub : Submission ℚ (Scored ApplyFn)} (hstep : s.step t act = some s')
    (htop : topOf t s.frames = some (.submitting sub)) : act = .push := by
  have hbusy : free t s.frames = false := by
    rw [free, htop]
    rfl
  cases act with
  | push => rfl
  | _ => simp [System.step, hbusy, htop] at hstep

/-- A step out of a comparable heap keeps it comparable exactly if it does not mix. -/
theorem comparable_step_iff {a : ScoredAction ApplyFn} (hstep : Steps s a s')
    (h : Comparable classify s) : Comparable classify s' ↔ ¬ Mixes classify s a := by
  obtain ⟨t, act⟩ := a
  change s.step t act = some s' at hstep
  have hkeeps (hsubset : s'.sched.heap ⊆ s.sched.heap) (hnot : ¬ Mixes classify s (t, act)) :
      Comparable classify s' ↔ ¬ Mixes classify s (t, act) :=
    iff_of_true (fun e he e' he' => h e (hsubset he) e' (hsubset he')) hnot
  by_cases hpushes : ∃ sub, act = .push ∧ topOf t s.frames = some (.submitting sub) ∧
      sub.taskId ∉ s.sched.registry
  · obtain ⟨sub, rfl, htop, hfresh⟩ := hpushes
    simp only [System.step, htop, LearnedScheduler.push, if_neg hfresh] at hstep
    cases hstep
    constructor
    · rintro hcomparable ⟨sub', -, htop', -, e, he, hne⟩
      rw [htop] at htop'
      cases htop'
      exact hne (hcomparable e (List.mem_cons_of_mem _ he) _ List.mem_cons_self)
    · intro hnot
      -- the new entry is like every held one, and so are the held ones among themselves
      have hnew : ∀ e ∈ s.sched.heap,
          classify e.applyFn.scoredBy = classify sub.applyFn.scoredBy := by
        intro e he
        by_contra hne
        exact hnot ⟨sub, rfl, htop, hfresh, e, he, hne⟩
      intro e he e' he'
      rcases List.mem_cons.mp he with rfl | hold <;> rcases List.mem_cons.mp he' with rfl | hold'
      · rfl
      · exact (hnew e' hold').symm
      · exact hnew e hold
      · exact h e hold e' hold'
  · have hnot : ¬ Mixes classify s (t, act) := by
      rintro ⟨sub, hact, htop, hfresh, -⟩
      exact hpushes ⟨sub, hact, htop, hfresh⟩
    refine hkeeps ?_ hnot
    cases step_effect hstep with
    | accept htop hpush =>
      obtain ⟨hfresh, -⟩ := LearnedScheduler.push_ok hpush
      exact absurd ⟨_, eq_push_of_top hstep htop, htop, hfresh⟩ hpushes
    | pop hfree hpop => exact fun e he => (extractLeast_perm _ hpop).symm.subset (.tail _ he)
    | apply htop => exact List.Subset.refl _
    | finish hk htop => exact List.Subset.refl _
    | silent hheap hcounter hframes => exact hheap ▸ List.Subset.refl _

end Comparable

theorem steps_deterministic (s : ScoredSystem ApplyFn) (a : ScoredAction ApplyFn)
    (s' s'' : ScoredSystem ApplyFn) (h : Steps s a s') (h' : Steps s a s'') : s' = s'' :=
  Option.some.inj (h.symm.trans h')

/-- For every interleaving of any number of threads, with any scores, and whatever the retrains make of
the ranker: the held scores are comparable in every state exactly if no step pushes a task whose score
is not like a held one, and they are if the class of the installed estimator only ever changes while no
task is held or waits to be pushed. -/
theorem held_scores_comparable_iff {κ : Type} (classify : ModelType → κ) {r₀ : TaskRanker}
    {stats : TypeStatsTracker} {as : List (ScoredAction ApplyFn)} {s : ScoredSystem ApplyFn}
    (hrun : Run (Guarded Honest Steps) (System.initial r₀ stats) as s) :
    (Throughout Steps (Comparable classify) (System.initial r₀ stats) as ↔
      EveryStep Steps (fun s a => ¬ Mixes classify s a) (System.initial r₀ stats) as) ∧
    (EveryStep Steps (fun s a => ¬ Rescales classify s a) (System.initial r₀ stats) as →
      Throughout Steps (Comparable classify) (System.initial r₀ stats) as) := by
  have hstart : ScoredNow classify (System.initial r₀ stats : ScoredSystem ApplyFn) := by
    constructor
    · intro e he
      cases he
    · intro sub hsub
      cases hsub
  refine ⟨?_, ?_⟩
  · refine throughout_iff_everyStep steps_deterministic ?_ hrun.unguard hstart.comparable
    intro s a s' hstep hs
    exact comparable_step_iff hstep hs
  · intro hguard bs cs m hsplit hbefore
    subst hsplit
    obtain ⟨m', hhonest, -⟩ := hrun.append_inv
    obtain rfl := hbefore.unique steps_deterministic hhonest.unguard
    have hboth : EveryStep (Guarded Honest Steps) (fun s a => ¬ Rescales classify s a)
        (System.initial r₀ stats) bs := by
      intro bs' a cs' u hsplit hprefix
      exact hguard.of_append bs' a cs' u hsplit hprefix.unguard
    have hnow : ScoredNow classify m := by
      refine (hboth.guarded hhonest).preserves (P := ScoredNow classify) ?_ hstart
      rintro s a s' ⟨⟨hstep, hhonest⟩, hguard⟩ hs
      exact hs.step hstep hhonest hguard
    exact hnow.comparable

/-! ## A promotion under held tasks -/

/-- `_score` without the bookkeeping: the extractor, then `predict_batch` on one candidate. -/
def scoreWith (now : Instant) (r : TaskRanker) (cand : TaskCandidate) (ctx : QueueContext) :
    Except PyException ℚ := do
  let features ← r.extractor.extract cand ctx now
  let results ← (r.estimator.predictBatch [features]).2
  return (results.headD (0, 0)).1

/-- Two grouped records are one short of the cold-start threshold. -/
def promotable : RankerConfig := { coldStartThreshold := 3, retrainEveryN := 1, minGroups := 1 }

def trainEnv : RankerEnv :=
  { TaskRanker.sampleEnv {} with lightgbm := fun _ => .ok (positionBooster fun _ => 5) }

/-- Warm-started with a heuristic: "resize" takes one millisecond, "transcode" two. -/
def coldRanker : TaskRanker :=
  match TaskRanker.construct promotable plainExtractor (labelled "g" "resize" "transcode")
    trainEnv with
  | .ok r => r
  | .error _ => TaskRanker.fresh promotable plainExtractor []

def coldSystem : ScoredSystem Unit := System.initial coldRanker (.new 100)

def afterActions (as : List (ScoredAction Unit)) : ScoredSystem Unit :=
  (exec (fun s a => s.step a.1 a.2) coldSystem as).getD coldSystem

def early : Submission ℚ (Scored Unit) := ⟨"early", "resize", 512, ⟨(), .heuristic⟩, 1⟩

def late : Submission ℚ (Scored Unit) := ⟨"late", "transcode", 512, ⟨(), .lambdarank⟩, -5⟩

/-- One task is held, and another one completes. -/
def earlyHeld : List (ScoredAction Unit) :=
  [(0, .submit early), (0, .push), (1, .recordStart "other" "resize" 512 0),
    (1, .recordCompletion "other" "resize" 512 1), (1, .observe)]

/-- After the third record. -/
def promotedRanker : TaskRanker :=
  (coldRanker.record trainEnv
    ⟨"resize", 512, 1, (afterActions earlyHeld).sched.completionMetadata "resize"⟩).1

def promotion : List (ScoredAction Unit) := earlyHeld ++ [(1, .report (some promotedRanker))]

def lateHeld : List (ScoredAction Unit) := promotion ++ [(0, .submit late), (0, .push)]

theorem lateHeld_run : Run (Guarded Honest Steps) coldSystem lateHeld (afterActions lateHeld) :=
  .cons ⟨rfl, _, rfl, rfl⟩ <| .cons ⟨rfl, trivial⟩ <| .cons ⟨rfl, trivial⟩ <|
    .cons ⟨rfl, trivial⟩ <| .cons ⟨rfl, trivial⟩ <| .cons ⟨rfl, trivial⟩ <|
    .cons ⟨rfl, _, rfl, by decide +kernel⟩ <| .cons ⟨rfl, trivial⟩ <| .nil _

theorem held_scores_comparable_iff_promotion :
    (Throughout Steps (Comparable scaleOf) coldSystem lateHeld ↔
      EveryStep Steps (fun s a => ¬ Mixes scaleOf s a) coldSystem lateHeld) ∧
    (EveryStep Steps (fun s a => ¬ Rescales scaleOf s a) coldSystem lateHeld →
      Throughout Steps (Comparable scaleOf) coldSystem lateHeld) :=
  held_scores_comparable_iff scaleOf lateHeld_run

/-- A promotion while a task of one millisecond is held: a task submitted after it is scored by
LambdaRank and goes first, whatever it takes. -/
theorem promotion_mixes_scales :
    coldSystem.sched.score (scoreWith 0) "early" "resize" 512 = .ok 1 ∧
      (afterActions promotion).sched.score (scoreWith 0) "late" "transcode" 512 = .ok (-5) ∧
      Run (Guarded Honest Steps) coldSystem lateHeld (afterActions lateHeld) ∧
      (afterActions lateHeld).sched.pop.map (fun p => p.1.taskId) = some "late" ∧
      ¬ Comparable scaleOf (afterActions lateHeld) := by
  refine ⟨by decide +kernel, by decide +kernel, lateHeld_run, by decide +kernel, ?_⟩
  intro hcomparable
  have hscale : ScoreScale.negatedRelevance = .milliseconds :=
    hcomparable _ List.mem_cons_self _ (List.mem_cons_of_mem _ List.mem_cons_self)
  cases hscale

end Chronoq.Celery
