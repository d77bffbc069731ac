import Chronoq.Demo.PoolInvariant

/-! # Where the tasks are

Over a whole run, an enqueued task is in one place at every moment, and `LosesNoTask` fails exactly where
that place is `dropped` (`tasks_conserved`). Nothing in the pool takes a dropped task up again, so a single
`await` that raises makes it lose one (`popped_task_lost`). -/

namespace Chronoq.Demo
open Foundations

set_option autoImplicit false

namespace Pool

/-! ## Runs -/

section Runs
variable {Id Score : Type} [LinearOrder Id] [LinearOrder Score] {s s' : Pool Id Score} {w : ℕ}
  {actions : List (Action Id Score)}

/-- The pool makes the step `a`. -/
abbrev Steps (s : Pool Id Score) (a : Action Id Score) (s' : Pool Id Score) : Prop :=
  s.step a = some s'

/-- The pool makes the steps `actions`. -/
abbrev Runs (s : Pool Id Score) (actions : List (Action Id Score)) (s' : Pool Id Score) : Prop :=
  Run Steps s actions s'

/-- A task of the run. -/
def Enqueued (actions : List (Action Id Score)) (id : Id) : Prop :=
  ∃ data, Action.enqueue data ∈ actions ∧ data.taskId = id

theorem known_run (hs : Inv s) (h : Runs s actions s') (id : Id) :
    s'.known id = 1 ↔ s.known id = 1 ∨ Enqueued actions id := by
  induction h with
  | nil s =>
    refine (or_iff_left ?_).symm
    rintro ⟨data, hmem, -⟩
    cases hmem
  | @cons s t u a actions hstep _ ih =>
    rw [ih (inv_step hstep hs)]
    by_cases ha : ∃ data, a = .enqueue data
    · obtain ⟨data, rfl⟩ := ha
      rw [known_enqueue_iff hstep, or_assoc]
      refine or_congr_right ⟨?_, ?_⟩
      · rintro (hid | ⟨data', hmem, hid⟩)
        · exact ⟨data, List.mem_cons_self .., hid⟩
        · exact ⟨data', List.mem_cons_of_mem _ hmem, hid⟩
      · rintro ⟨data', hmem, hid⟩
        rcases List.mem_cons.mp hmem with heq | hmem
        · cases heq
          exact .inl hid
        · exact .inr ⟨data', hmem, hid⟩
    · push Not at ha
      rw [known_step hs hstep ha]
      refine or_congr_right (exists_congr fun data => and_congr_left fun _ => ?_)
      rw [List.mem_cons]
      exact (or_iff_right (Ne.symm (ha data))).symm

/-- The step interrupts a worker that has a task in hand, or pops a task whose reply nobody awaits. -/
def Interrupts (s : Pool Id Score) : Action Id Score → Prop
  | .fail w => ∃ worker, s.workers[w]? = some worker ∧ worker.phase.holds ≠ none
  | .cancel w => ∃ worker, s.workers[w]? = some worker ∧ worker.phase.holds ≠ none
  | .late i => s.inFlight[i]? = some .zpopmin ∧ s.redis.queue ≠ []
  | _ => False

omit [LinearOrder Id] [LinearOrder Score] in
theorem dropped_interrupt {phase : Phase Id Score} (h : ¬ phase.holds ≠ none) :
    (s.interrupt phase).dropped = s.dropped := by
  rw [interrupt, not_ne_iff.mp h]
  exact List.append_nil _

/-- Nothing else drops a task. -/
theorem dropped_step {a : Action Id Score} (h : s.step a = some s') (ha : ¬ s.Interrupts a) :
    s'.dropped = s.dropped := by
  cases a with
  | enqueue data =>
    obtain ⟨-, rfl⟩ := enqueue_effect h
    rfl
  | start workerCount =>
    obtain rfl := Option.some.inj h
    rfl
  | stop =>
    obtain rfl := Option.some.inj h
    rfl
  | serve w =>
    obtain ⟨-, -, -, -, -, -, hdropped, -⟩ := serve_effect h
    exact hdropped
  | resume w =>
    obtain ⟨worker, phase, -, -, rfl⟩ := resume_effect h
    rfl
  | fail w =>
    obtain ⟨worker, phase, hw, -, rfl⟩ := leave_effect (.inl h)
    exact dropped_interrupt fun hholds => ha ⟨worker, hw, hholds⟩
  | cancel w =>
    obtain ⟨worker, phase, hw, -, rfl⟩ := leave_effect (.inr h)
    exact dropped_interrupt fun hholds => ha ⟨worker, hw, hholds⟩
  | late i =>
    obtain ⟨hcommand, rfl⟩ | ⟨id, status, -, rfl⟩ := late_effect h
    · have hempty : s.redis.queue = [] := by
        by_contra hne
        exact ha ⟨hcommand, hne⟩
      refine List.append_right_eq_self.mpr ?_
      rw [Redis.zpopmin, hempty]
      rfl
    · rfl

/-- The places that an enqueued task may be in. -/
inductive Place
  | queued
  | processing (w : ℕ)
  | completed
  | dropped
  deriving DecidableEq

/-- The task is in the sorted set, in the hands of the worker `w`, marked completed, or dropped without a
mark. -/
def At (s : Pool Id Score) (id : Id) : Place → Prop
  | .queued => id ∈ s.queuedIds
  | .processing w => ∃ worker, s.workers[w]? = some worker ∧ worker.phase.holds = some id
  | .completed => s.statusOf id = some .completed
  | .dropped => id ∈ s.dropped ∧ s.statusOf id ≠ some .completed

/-- Every enqueued task is in the sorted set, in the hands of exactly one worker, or marked completed, and
none has been executed twice. -/
def LosesNoTask (actions : List (Action Id Score)) (s : Pool Id Score) : Prop :=
  (∀ id, Enqueued actions id → s.At id .queued ∨ (∃! w, s.At id (.processing w)) ∨ s.At id .completed) ∧
    s.executed.Nodup

omit [LinearOrder Score] in
theorem Inv.place (h : Inv s) {id : Id} (hknown : s.known id = 1) : ∃! place, s.At id place := by
  have htokens := h.tokens id
  have hqueued : s.At id .queued → 1 ≤ s.queuedIds.count id := fun hin =>
    List.count_pos_iff.mpr hin
  have hheld : ∀ {w}, s.At id (.processing w) → 1 ≤ s.heldIds.count id :=
    fun ⟨worker, hw, hid⟩ => one_le_held hw hid
  have hcompleted : s.At id .completed → s.settled id = 1 := fun hin =>
    settled_eq_one_iff.mpr (.inl hin)
  have hdropped : s.At id .dropped → s.settled id = 1 := fun hin => settled_of_mem hin.1
  by_cases hin : s.At id .queued
  · have hcount := hqueued hin
    refine ⟨.queued, hin, ?_⟩
    rintro (_ | w | _ | _) hother
    · rfl
    · have := hheld hother
      omega
    · have := hcompleted hother
      omega
    · have := hdropped hother
      omega
  · have hzero : s.queuedIds.count id = 0 := List.count_eq_zero.mpr hin
    by_cases hone : s.heldIds.count id = 1
    · obtain ⟨w, hw, hunique⟩ := existsUnique_holder hone
      refine ⟨.processing w, hw, ?_⟩
      rintro (_ | w' | _ | _) hother
      · exact absurd hother hin
      · rw [hunique w' hother]
      · have := hcompleted hother
        omega
      · have := hdropped hother
        omega
    · have hsettled : s.settled id = 1 := by
        have := settled_le_one s id
        omega
      by_cases hmark : s.At id .completed
      · refine ⟨.completed, hmark, ?_⟩
        rintro (_ | w | _ | _) hother
        · exact absurd hother hin
        · have := hheld hother
          omega
        · rfl
        · exact absurd hmark hother.2
      · have hlost := (settled_eq_one_iff.mp hsettled).resolve_left hmark
        refine ⟨.dropped, ⟨hlost, hmark⟩, ?_⟩
        rintro (_ | w | _ | _) hother
        · exact absurd hother hin
        · have := hheld hother
          omega
        · exact absurd hother hmark
        · rfl

/-- An enqueued task is in exactly one place at every moment, and no task is executed twice. The pool loses
no task as long as no task is dropped, and so in every run that interrupts no worker with a task in hand. -/
theorem tasks_conserved {actions : List (Action Id Score)} {s : Pool Id Score}
    (h : Runs {} actions s) :
    (∀ id, Enqueued actions id → ∃! place, s.At id place) ∧ s.executed.Nodup ∧
      (LosesNoTask actions s ↔ ∀ id, ¬ s.At id .dropped) ∧
      (EveryStep Steps (fun s a => ¬ Interrupts s a) {} actions → LosesNoTask actions s) := by
  have hinv : Inv s := h.preserves (fun _ _ _ => inv_step) inv_empty
  have hknown : ∀ id, s.known id = 1 ↔ Enqueued actions id := by
    intro id
    rw [known_run inv_empty h]
    exact or_iff_right (by simp [known])
  have hplace : ∀ id, Enqueued actions id → ∃! place, s.At id place := fun id hid =>
    hinv.place ((hknown id).mpr hid)
  have hnodup : s.executed.Nodup := by
    rw [List.nodup_iff_count_le_one]
    intro id
    have honce := hinv.once id
    have hle := known_le_one s id
    omega
  have hloses : LosesNoTask actions s ↔ ∀ id, ¬ s.At id .dropped := by
    constructor
    · rintro ⟨hall, -⟩ id hdropped
      obtain ⟨hash, hhash⟩ := hinv.of_dropped hdropped.1
      have hid : Enqueued actions id := (hknown id).mp (if_pos (by rw [hhash]; rfl))
      have hunique : ∀ {place}, s.At id place → Place.dropped = place := fun hat =>
        (hplace id hid).unique hdropped hat
      rcases hall id hid with hqueued | ⟨w, hw, -⟩ | hcompleted
      · cases hunique hqueued
      · cases hunique hw
      · cases hunique hcompleted
    · refine fun hnone => ⟨fun id hid => ?_, hnodup⟩
      obtain ⟨place, hat, hunique⟩ := hplace id hid
      cases place with
      | queued => exact .inl hat
      | processing w =>
        refine .inr (.inl ⟨w, hat, fun w' hw' => ?_⟩)
        cases hunique _ hw'
        rfl
      | completed => exact .inr (.inr hat)
      | dropped => exact absurd hat (hnone id)
  refine ⟨hplace, hnodup, hloses, fun horderly => hloses.mpr fun id hdropped => ?_⟩
  have hempty : s.dropped = [] := by
    refine (horderly.guarded h).preserves (P := fun s => s.dropped = []) ?_ rfl
    intro t a t' hstep hnil
    rw [dropped_step hstep.1 hstep.2, hnil]
  rw [At, hempty] at hdropped
  cases hdropped.1

end Runs

/-! ## A lost task -/

def resize : TaskData ℕ ℕ := ⟨7, "resize", 512, 30⟩

/-- One worker pops one task, and then its `await` raises. -/
def popFails : List (Action ℕ ℕ) := [.enqueue resize, .start 1, .resume 0, .serve 0, .fail 0]

def poolAfter : Pool ℕ ℕ where
  redis := ⟨[], Function.update (fun _ => none) 7 (some ⟨some resize, .pending⟩)⟩
  workers := [⟨.popping none, false⟩]
  running := true
  dropped := [7]

theorem popFails_runs : Runs {} popFails poolAfter := run_of_exec rfl

theorem tasks_conserved_pop_fails :
    (∀ id, Enqueued popFails id → ∃! place, poolAfter.At id place) ∧ poolAfter.executed.Nodup ∧
      (LosesNoTask popFails poolAfter ↔ ∀ id, ¬ poolAfter.At id .dropped) :=
  ⟨(tasks_conserved popFails_runs).1, (tasks_conserved popFails_runs).2.1,
    (tasks_conserved popFails_runs).2.2.1⟩

/-- The task is left pending, and no worker has it in hand. -/
theorem popped_task_lost :
    ¬ ∀ (actions : List (Action ℕ ℕ)) (s : Pool ℕ ℕ), Runs {} actions s → LosesNoTask actions s := by
  intro h
  have henqueued : Enqueued popFails 7 := ⟨resize, List.mem_cons_self .., rfl⟩
  rcases (h popFails poolAfter popFails_runs).1 7 henqueued with hqueued | ⟨w, hw, -⟩ | hcompleted
  · cases hqueued
  · obtain ⟨worker, hworker, hholds⟩ := hw
    obtain rfl := List.mem_singleton.mp (List.mem_of_getElem? hworker)
    cases hholds
  · have hpending : poolAfter.statusOf 7 = some .pending := rfl
    cases hpending.symm.trans hcompleted

end Pool

end Chronoq.Demo
