import Chronoq.Demo.StatusOrder
import Chronoq.Foundations.Progress

/-! # The pool works off its queue

From the pop to the loop head a worker makes nine moves for a task, and as long as something is queued no
move of it is idle. So one worker that goes on moving has emptied the queue after nine moves for each queued
task and a few more, whatever the other workers do, fail at or give up meanwhile.

* `Looping`: a worker that is not being cancelled is in its loop.
* `stepsLeft`: the moves that a worker may still make before it is done. -/

namespace Chronoq.Demo
open Foundations

set_option autoImplicit false

variable {Id Score : Type}

/-- The moves from a phase to the loop head. -/
def Phase.stepsLeft : Phase Id Score → ℕ
  | created => 1
  | popping none => 0
  | popping (some none) => 2
  | popping (some (some _)) => 8
  | loading _ none => 7
  | loading _ (some _) => 6
  | sleeping => 1
  | marking _ false => 5
  | marking _ true => 4
  | simulating _ => 3
  | completing _ false => 2
  | completing _ true => 1
  | ended => 0

theorem Phase.stepsLeft_le (phase : Phase Id Score) : phase.stepsLeft ≤ 8 := by
  unfold stepsLeft
  split <;> omega

/-- The action is a move of the worker. -/
def Action.moves (w : ℕ) : Action Id Score → Bool
  | .serve w' => w' = w
  | .resume w' => w' = w
  | _ => false

/-- Nothing is enqueued, and the pool is not stopped. -/
def Action.Quiet : Action Id Score → Prop
  | .enqueue _ => False
  | .stop => False
  | _ => True

theorem Action.quiet_of_moves {w : ℕ} {a : Action Id Score} (h : a.moves w = true) : a.Quiet := by
  cases a with
  | enqueue data => cases h
  | stop => cases h
  | _ => trivial

theorem Redis.length_zpopmin [LinearOrder Id] [LinearOrder Score] (r : Redis Id Score) :
    (r.zpopmin.2 = none ∧ r.queue = [] ∧ r.zpopmin.1.queue = []) ∨
      ∃ id, r.zpopmin.2 = some id ∧ r.zpopmin.1.queue.length + 1 = r.queue.length := by
  rw [zpopmin]
  split
  · next hleast =>
    have hnil := (extractLeast_eq_none_iff _).mp hleast
    exact .inl ⟨rfl, hnil, hnil⟩
  · next item rest hleast =>
    exact .inr ⟨item.1, rfl, (extractLeast_perm _ hleast).length_eq.symm⟩

namespace Pool
variable {s s' t : Pool Id Score} {w : ℕ} {worker : Worker Id Score}

/-- The worker, if there is one, is not being cancelled. -/
def LiveAt (w : ℕ) (s : Pool Id Score) : Prop :=
  ∀ worker, s.workers[w]? = some worker → worker.cancelling = false

/-- Nothing is queued, and the worker has nothing in hand. -/
def DoneAt (w : ℕ) (s : Pool Id Score) : Prop :=
  s.redis.queue = [] ∧ ∀ worker, s.workers[w]? = some worker → worker.phase.holds = none

def Looping (s : Pool Id Score) : Prop :=
  ∀ worker ∈ s.workers, worker.cancelling = false → s.running = true ∧ worker.phase ≠ .ended

/-- What the worker may still have to do; one that is to be started has all of a task. -/
def stepsLeft (w : ℕ) (s : Pool Id Score) : ℕ :=
  9 * s.redis.queue.length + (s.workers[w]?.map fun worker => worker.phase.stepsLeft).getD 8

theorem stepsLeft_eq (hw : s.workers[w]? = some worker) :
    s.stepsLeft w = 9 * s.redis.queue.length + worker.phase.stepsLeft := by
  rw [stepsLeft, hw]
  rfl

theorem stepsLeft_le (w : ℕ) (s : Pool Id Score) : s.stepsLeft w ≤ 9 * s.redis.queue.length + 8 := by
  rw [stepsLeft]
  cases s.workers[w]? with
  | none => exact le_rfl
  | some worker => exact Nat.add_le_add_left worker.phase.stepsLeft_le _

end Pool

/-! ## Moves of one worker -/

/-- A move that is not the pop. -/
theorem Phase.stepsLeft_next {phase phase' : Phase Id Score} (h : phase.next true = some phase') :
    phase'.stepsLeft + 1 ≤ phase.stepsLeft := by
  unfold next at h
  split at h
  all_goals cases h
  case h_5 hash => cases hash.data <;> simp [stepsLeft, loopHead]
  all_goals simp [stepsLeft, loopHead]

theorem Phase.next_ne_ended {phase phase' : Phase Id Score} (h : phase.next true = some phase') :
    phase' ≠ .ended := by
  unfold next at h
  split at h
  all_goals cases h
  case h_5 hash => cases hash.data <;> simp [loopHead]
  all_goals simp [loopHead]

theorem Phase.holds_of_next {phase phase' : Phase Id Score} {running : Bool}
    (h : phase.next running = some phase') (hnone : phase.holds = none) : phase'.holds = none := by
  unfold next at h
  split at h
  all_goals cases h
  case h_1 | h_6 | h_9 => cases running <;> rfl
  case h_2 => rfl
  all_goals cases hnone

section ServeAt
variable [LinearOrder Id] [LinearOrder Score] {r r' : Redis Id Score} {phase phase' : Phase Id Score}

theorem length_serveAt (h : Pool.serveAt r phase = some (r', phase')) :
    r'.queue.length ≤ r.queue.length := by
  obtain ⟨-, rfl, -⟩ | ⟨-, -, rfl, -⟩ | ⟨-, -, rfl, -⟩ | ⟨-, -, rfl, -⟩ := Pool.serveAt_cases h
  · rcases r.length_zpopmin with ⟨-, -, hnil⟩ | ⟨-, -, hlength⟩
    · rw [hnil]
      exact Nat.zero_le _
    · omega
  all_goals exact le_rfl

theorem serveAt_ne_ended (h : Pool.serveAt r phase = some (r', phase')) : phase' ≠ .ended := by
  obtain ⟨-, -, rfl⟩ | ⟨-, -, -, rfl⟩ | ⟨-, -, -, rfl⟩ | ⟨-, -, -, rfl⟩ := Pool.serveAt_cases h
  all_goals simp

/-- A move that Redis takes part in, unless it is a pop from the empty queue. -/
theorem stepsLeft_serveAt (h : Pool.serveAt r phase = some (r', phase'))
    (hwork : r.queue ≠ [] ∨ phase.holds ≠ none) :
    9 * r'.queue.length + phase'.stepsLeft + 1 ≤ 9 * r.queue.length + phase.stepsLeft := by
  obtain ⟨rfl, rfl, rfl⟩ | ⟨id, rfl, rfl, rfl⟩ | ⟨data, rfl, rfl, rfl⟩ | ⟨data, rfl, rfl, rfl⟩ :=
    Pool.serveAt_cases h
  · rcases r.length_zpopmin with ⟨-, hnil, -⟩ | ⟨id, hpopped, hlength⟩
    · rcases hwork with hne | hholds
      · exact absurd hnil hne
      · exact absurd rfl hholds
    · rw [hpopped]
      simp only [Phase.stepsLeft]
      omega
  all_goals simp only [Phase.stepsLeft, Redis.hset]
  all_goals omega

theorem holds_serveAt (h : Pool.serveAt r phase = some (r', phase')) (hnil : r.queue = [])
    (hnone : phase.holds = none) : phase'.holds = none := by
  obtain ⟨rfl, -, rfl⟩ | ⟨id, rfl, -, rfl⟩ | ⟨data, rfl, -, rfl⟩ | ⟨data, rfl, -, rfl⟩ :=
    Pool.serveAt_cases h
  · rcases r.length_zpopmin with ⟨hreply, -, -⟩ | ⟨id, -, hlength⟩
    · rw [hreply]
      rfl
    · rw [hnil, List.length_nil] at hlength
      omega
  all_goals cases hnone

end ServeAt

namespace Pool
variable [LinearOrder Id] [LinearOrder Score] {s s' t : Pool Id Score} {w : ℕ}
  {worker : Worker Id Score} {a : Action Id Score} {actions : List (Action Id Score)}

/-! ## Workers in their loop -/

omit [LinearOrder Id] [LinearOrder Score] in
theorem looping_empty : Looping ({} : Pool Id Score) := by
  intro worker hmem
  cases hmem

omit [LinearOrder Id] [LinearOrder Score] in
theorem looping_set (h : Looping s) (hw : s.workers[w]? = some worker) {phase : Phase Id Score}
    (hrunning : s'.running = s.running) (hworkers : s'.workers = s.workers.set w { worker with phase })
    (hphase : worker.cancelling = false → phase ≠ .ended) : Looping s' := by
  intro worker' hmem hlive
  rw [hworkers] at hmem
  rw [hrunning]
  rcases List.mem_or_eq_of_mem_set hmem with hmem | rfl
  · exact h worker' hmem hlive
  · exact ⟨(h worker (List.mem_of_getElem? hw) hlive).1, hphase hlive⟩

theorem looping_step (h : Looping s) (hstep : s.step a = some s') : Looping s' := by
  cases a with
  | enqueue data =>
    obtain ⟨-, rfl⟩ := enqueue_effect hstep
    exact h
  | start workerCount =>
    obtain rfl := Option.some.inj hstep
    intro worker hmem hlive
    refine ⟨rfl, ?_⟩
    rcases List.mem_append.mp hmem with hmem | hmem
    · exact (h worker hmem hlive).2
    · rw [List.eq_of_mem_replicate hmem]
      intro hended
      cases hended
  | stop =>
    obtain rfl := Option.some.inj hstep
    intro worker hmem hlive
    obtain ⟨worker', -, rfl⟩ := List.mem_map.mp hmem
    cases hlive
  | serve w =>
    have hrunning : s'.running = s.running := by
      obtain ⟨worker, -, hstep⟩ := Option.bind_eq_some_iff.mp hstep
      obtain ⟨served, -, hstep⟩ := Option.bind_eq_some_iff.mp hstep
      obtain rfl := Option.some.inj hstep
      rfl
    obtain ⟨worker, phase, hw, hserve, hworkers, -⟩ := serve_effect hstep
    exact looping_set h hw hrunning hworkers fun _ => serveAt_ne_ended hserve
  | resume w =>
    obtain ⟨worker, phase, hw, hnext, rfl⟩ := resume_effect hstep
    refine looping_set h hw rfl rfl fun hlive => ?_
    rw [(h worker (List.mem_of_getElem? hw) hlive).1] at hnext
    exact Phase.next_ne_ended hnext
  | fail w =>
    obtain ⟨worker, hw, hstep⟩ := Option.bind_eq_some_iff.mp hstep
    split at hstep
    · cases hstep
    · cases hstep
    · obtain rfl := Option.some.inj hstep
      refine looping_set h hw rfl rfl fun hlive => ?_
      rw [(h worker (List.mem_of_getElem? hw) hlive).1]
      intro hended
      cases hended
  | cancel w =>
    obtain ⟨worker, hw, hstep⟩ := Option.bind_eq_some_iff.mp hstep
    split at hstep
    · cases hstep
    · split at hstep
      · next hcancelling =>
        obtain rfl := Option.some.inj hstep
        refine looping_set h hw rfl rfl fun hlive => ?_
        rw [hcancelling] at hlive
        cases hlive
      · cases hstep
  | late i =>
    obtain ⟨-, rfl⟩ | ⟨id, status, -, rfl⟩ := late_effect hstep
    · exact h
    · exact h

/-! ## What a step does to the queue and to one worker -/

/-- The worker is as it was, has been started, or is back at the loop head after a failure. -/
inductive Untouched (w : ℕ) (s s' : Pool Id Score) : Prop
  | same (h : s'.workers[w]? = s.workers[w]?)
  | started (h : s.workers[w]? = none) (h' : s'.workers[w]? = some {})
  | failed (worker : Worker Id Score) (h : s.workers[w]? = some worker)
    (h' : s'.workers[w]? = some { worker with phase := .popping none })

/-- The worker has made a move. -/
inductive Moved (w : ℕ) (s s' : Pool Id Score) : Prop
  | served (worker : Worker Id Score) (phase : Phase Id Score) (h : s.workers[w]? = some worker)
    (h' : s'.workers[w]? = some { worker with phase })
    (hserve : serveAt s.redis worker.phase = some (s'.redis, phase))
  | resumed (worker : Worker Id Score) (phase : Phase Id Score) (h : s.workers[w]? = some worker)
    (h' : s'.workers[w]? = some { worker with phase }) (hnext : worker.phase.next true = some phase)
    (hredis : s'.redis = s.redis)

theorem quiet_effect (hloop : Looping s) (hlive : LiveAt w s) (ha : a.Quiet)
    (hstep : s.step a = some s') :
    s'.redis.queue.length ≤ s.redis.queue.length ∧
      ((a.moves w = false ∧ Untouched w s s') ∨ (a.moves w = true ∧ Moved w s s')) := by
  cases a with
  | enqueue data => exact absurd ha id
  | start workerCount =>
    obtain rfl := Option.some.inj hstep
    refine ⟨le_rfl, .inl ⟨rfl, ?_⟩⟩
    rcases lt_or_ge w s.workers.length with hlt | hge
    · exact .same (List.getElem?_append_left hlt)
    · have happend : (s.workers ++ List.replicate workerCount ({} : Worker Id Score))[w]? =
          (List.replicate workerCount {})[w - s.workers.length]? := List.getElem?_append_right hge
      rw [List.getElem?_replicate] at happend
      have hnone : s.workers[w]? = none := List.getElem?_eq_none hge
      split at happend
      · exact .started hnone happend
      · exact .same (happend.trans hnone.symm)
  | stop => exact absurd ha id
  | serve w' =>
    obtain ⟨worker, phase, hw, hserve, hworkers, -⟩ := serve_effect hstep
    refine ⟨length_serveAt hserve, ?_⟩
    by_cases heq : w' = w
    · subst heq
      refine .inr ⟨decide_eq_true rfl, .served worker phase hw ?_ hserve⟩
      rw [hworkers, List.getElem?_set_self (List.getElem?_eq_some_iff.mp hw).1]
    · refine .inl ⟨decide_eq_false heq, .same ?_⟩
      rw [hworkers, List.getElem?_set_ne heq]
  | resume w' =>
    obtain ⟨worker, phase, hw, hnext, rfl⟩ := resume_effect hstep
    refine ⟨le_rfl, ?_⟩
    by_cases heq : w' = w
    · subst heq
      rw [(hloop worker (List.mem_of_getElem? hw) (hlive worker hw)).1] at hnext
      exact .inr ⟨decide_eq_true rfl, .resumed worker phase hw
        (List.getElem?_set_self (List.getElem?_eq_some_iff.mp hw).1) hnext rfl⟩
    · exact .inl ⟨decide_eq_false heq, .same (List.getElem?_set_ne heq)⟩
  | fail w' =>
    obtain ⟨worker, hw, hstep⟩ := Option.bind_eq_some_iff.mp hstep
    split at hstep
    · cases hstep
    · cases hstep
    · obtain rfl := Option.some.inj hstep
      refine ⟨le_rfl, .inl ⟨rfl, ?_⟩⟩
      by_cases heq : w' = w
      · subst heq
        rw [(hloop worker (List.mem_of_getElem? hw) (hlive worker hw)).1]
        exact .failed worker hw (List.getElem?_set_self (List.getElem?_eq_some_iff.mp hw).1)
      · exact .same (List.getElem?_set_ne heq)
  | cancel w' =>
    obtain ⟨worker, hw, hstep⟩ := Option.bind_eq_some_iff.mp hstep
    split at hstep
    · cases hstep
    · split at hstep
      · next hcancelling =>
        obtain rfl := Option.some.inj hstep
        have hne : w' ≠ w := by
          rintro rfl
          rw [hlive worker hw] at hcancelling
          cases hcancelling
        exact ⟨le_rfl, .inl ⟨rfl, .same (List.getElem?_set_ne hne)⟩⟩
      · cases hstep
  | late i =>
    obtain ⟨-, rfl⟩ | ⟨id, status, -, rfl⟩ := late_effect hstep
    · refine ⟨?_, .inl ⟨rfl, .same rfl⟩⟩
      rcases s.redis.length_zpopmin with ⟨-, -, hnil⟩ | ⟨-, -, hlength⟩
      · dsimp only
        rw [hnil]
        exact Nat.zero_le _
      · dsimp only
        omega
    · exact ⟨le_rfl, .inl ⟨rfl, .same rfl⟩⟩

theorem liveAt_step (hloop : Looping s) (hlive : LiveAt w s) (ha : a.Quiet)
    (hstep : s.step a = some s') : LiveAt w s' := by
  obtain ⟨-, ⟨-, h | ⟨hw, hw'⟩ | ⟨worker, hw, hw'⟩⟩ | ⟨-, ⟨worker, phase, hw, hw', -⟩ |
    ⟨worker, phase, hw, hw', -⟩⟩⟩ := quiet_effect hloop hlive ha hstep
  · intro worker hworker
    exact hlive worker (h ▸ hworker)
  · intro worker hworker
    cases hw'.symm.trans hworker
    rfl
  all_goals
    intro worker' hworker'
    cases hw'.symm.trans hworker'
    exact hlive worker hw

theorem doneAt_step (hloop : Looping s) (hlive : LiveAt w s) (ha : a.Quiet)
    (hstep : s.step a = some s') (hdone : DoneAt w s) : DoneAt w s' := by
  obtain ⟨hnil, hnone⟩ := hdone
  obtain ⟨hlength, heffect⟩ := quiet_effect hloop hlive ha hstep
  rw [hnil] at hlength
  refine ⟨List.length_eq_zero_iff.mp (Nat.le_zero.mp hlength), ?_⟩
  intro worker' hworker'
  rcases heffect with ⟨-, h | ⟨hw, hw'⟩ | ⟨worker, hw, hw'⟩⟩ | ⟨-, ⟨worker, phase, hw, hw', hserve⟩ |
    ⟨worker, phase, hw, hw', hnext, -⟩⟩
  · exact hnone worker' (h ▸ hworker')
  all_goals cases hw'.symm.trans hworker'
  · rfl
  · rfl
  · exact holds_serveAt hserve hnil (hnone worker hw)
  · exact Phase.holds_of_next hnext (hnone worker hw)

theorem stepsLeft_step (hloop : Looping s) (hlive : LiveAt w s) (ha : a.Quiet)
    (hstep : s.step a = some s') (hdone : ¬ DoneAt w s) :
    s'.stepsLeft w + (if a.moves w then 1 else 0) ≤ s.stepsLeft w := by
  obtain ⟨hlength, ⟨hmoves, h | ⟨hw, hw'⟩ | ⟨worker, hw, hw'⟩⟩ | ⟨hmoves, ⟨worker, phase, hw, hw', hserve⟩ |
    ⟨worker, phase, hw, hw', hnext, hredis⟩⟩⟩ := quiet_effect hloop hlive ha hstep
  · rw [hmoves, stepsLeft, stepsLeft, h]
    simp only [Bool.false_eq_true, if_false]
    omega
  · rw [hmoves, stepsLeft_eq hw', stepsLeft, hw]
    simp only [Bool.false_eq_true, if_false, Phase.stepsLeft, Option.map_none, Option.getD_none]
    omega
  · rw [hmoves, stepsLeft_eq hw', stepsLeft_eq hw]
    simp only [Bool.false_eq_true, if_false, Phase.stepsLeft]
    omega
  · rw [hmoves, if_pos rfl, stepsLeft_eq hw', stepsLeft_eq hw]
    apply stepsLeft_serveAt hserve
    by_contra hidle
    rw [not_or, not_not, not_not] at hidle
    refine hdone ⟨hidle.1, fun worker' hworker' => ?_⟩
    cases hw.symm.trans hworker'
    exact hidle.2
  · have hless := Phase.stepsLeft_next hnext
    rw [hmoves, if_pos rfl, stepsLeft_eq hw', stepsLeft_eq hw, hredis]
    dsimp only
    omega

theorem usesUp (w : ℕ) : UsesUp Steps (fun s : Pool Id Score => Looping s ∧ LiveAt w s)
    Action.Quiet (Action.moves w) (stepsLeft w) (DoneAt w) where
  invariant hstep ha hs := ⟨looping_step hs.1 hstep, liveAt_step hs.1 hs.2 ha hstep⟩
  stays hstep ha hs := doneAt_step hs.1 hs.2 ha hstep
  decreases hstep ha hs := stepsLeft_step hs.1 hs.2 ha hstep

/-! ## Runs -/

/-- A worker in its loop always has a move to make. -/
theorem exists_move (hloop : Looping s) (hw : s.workers[w]? = some worker)
    (hlive : worker.cancelling = false) : ∃ a s', s.step a = some s' ∧ a.moves w = true := by
  obtain ⟨hrunning, hne⟩ := hloop worker (List.mem_of_getElem? hw) hlive
  have hmove : (∃ served, serveAt s.redis worker.phase = some served) ∨
      ∃ phase, worker.phase.next s.running = some phase := by
    cases hphase : worker.phase with
    | created => exact .inr ⟨_, rfl⟩
    | popping reply =>
      cases reply with
      | none => exact .inl ⟨_, rfl⟩
      | some reply =>
        cases reply with
        | none => exact .inr ⟨_, rfl⟩
        | some id => exact .inr ⟨_, rfl⟩
    | loading id reply =>
      cases reply with
      | none => exact .inl ⟨_, rfl⟩
      | some reply =>
        cases reply with
        | none => exact .inr ⟨_, rfl⟩
        | some hash => exact .inr ⟨_, rfl⟩
    | sleeping => exact .inr ⟨_, rfl⟩
    | marking data isDone =>
      cases isDone with
      | false => exact .inl ⟨_, rfl⟩
      | true => exact .inr ⟨_, rfl⟩
    | simulating data => exact .inr ⟨_, rfl⟩
    | completing data isDone =>
      cases isDone with
      | false => exact .inl ⟨_, rfl⟩
      | true => exact .inr ⟨_, rfl⟩
    | ended => exact absurd hphase hne
  rcases hmove with ⟨⟨redis, phase⟩, hserve⟩ | ⟨phase, hnext⟩
  · refine ⟨.serve w, { s with redis }.setWorker w { worker with phase }, ?_, decide_eq_true rfl⟩
    rw [step, hw]
    exact Option.bind_eq_some_iff.mpr ⟨worker, rfl, Option.bind_eq_some_iff.mpr ⟨_, hserve, rfl⟩⟩
  · refine ⟨.resume w, { s with executed := s.executed ++ phase.begun.toList }.setWorker w
      { worker with phase }, ?_, decide_eq_true rfl⟩
    rw [step, hw]
    refine Option.bind_eq_some_iff.mpr ⟨worker, rfl, ?_⟩
    rw [if_neg (by rw [hlive]; exact Bool.false_ne_true), hnext]
    rfl

theorem isSome_step (hloop : Looping s) (hlive : LiveAt w s) (ha : a.Quiet)
    (hstep : s.step a = some s') (hsome : s.workers[w]?.isSome) : s'.workers[w]?.isSome := by
  obtain ⟨-, ⟨-, h | ⟨-, hw'⟩ | ⟨worker, -, hw'⟩⟩ | ⟨-, ⟨worker, phase, -, hw', -⟩ |
    ⟨worker, phase, -, hw', -⟩⟩⟩ := quiet_effect hloop hlive ha hstep
  · rw [h]
    exact hsome
  all_goals
    rw [hw']
    rfl

/-- Every worker that is in its loop can empty the queue on its own. -/
theorem exists_drain (hloop : Looping s) (hw : s.workers[w]? = some worker)
    (hlive : worker.cancelling = false) :
    ∃ own t, Runs s own t ∧ (∀ a ∈ own, a.moves w = true) ∧
      own.length ≤ 9 * s.redis.queue.length + 8 ∧ DoneAt w t := by
  have huses : UsesUp Steps (fun s : Pool Id Score => Looping s ∧ LiveAt w s) Action.Quiet
      (Action.moves w) (stepsLeft w) (DoneAt w) := usesUp w
  have hu := huses.and (J := fun s => s.workers[w]?.isSome)
    fun hstep ha hs => isSome_step hs.1 hs.2 ha hstep
  have hstart : LiveAt w s := by
    intro worker' hw'
    cases hw.symm.trans hw'
    exact hlive
  have hsome : s.workers[w]?.isSome := by
    rw [hw]
    rfl
  obtain ⟨own, t, hrun, hown, hlength, hdone⟩ := hu.exists_run_done (s := s) (by
    rintro s ⟨⟨hloop, hlive⟩, hsome⟩
    obtain ⟨worker, hw⟩ := Option.isSome_iff_exists.mp hsome
    obtain ⟨a, s', hstep, hmoves⟩ := exists_move hloop hw (hlive worker hw)
    exact ⟨a, s', hstep, Action.quiet_of_moves hmoves, hmoves⟩) ⟨⟨hloop, hstart⟩, hsome⟩
  exact ⟨own, t, hrun, hown, hlength.trans (stepsLeft_le w s), hdone⟩

/-- The worker has left its loop for good. -/
def EndedAt (w : ℕ) (s : Pool Id Score) : Prop :=
  ∃ worker, s.workers[w]? = some worker ∧ worker.phase = .ended

omit [LinearOrder Score] in
/-- With an empty queue and empty hands everything that was not given up is completed. -/
theorem completed_of_done (hinv : Inv s) (hnil : s.redis.queue = [])
    (hnone : ∀ worker ∈ s.workers, worker.phase.holds = none) {id : Id} (hdropped : id ∉ s.dropped)
    (hstatus : s.statusOf id ≠ none) : s.statusOf id = some .completed := by
  have htokens := hinv.tokens id
  have hheld : s.heldIds = [] := by
    rw [heldIds, List.filterMap_eq_nil_iff]
    exact hnone
  have hknown : s.known id = 1 := by
    rw [known, if_pos]
    obtain ⟨status, hstatus⟩ := Option.ne_none_iff_exists'.mp hstatus
    obtain ⟨hash, hhash, -⟩ := Option.map_eq_some_iff.mp hstatus
    rw [hhash]
    rfl
  rw [queuedIds, hnil, hheld, hknown, List.map_nil, List.count_nil] at htokens
  exact (settled_eq_one_iff.mp (by omega)).resolve_right hdropped

/-- If nothing is enqueued and the pool is not stopped, a worker that goes on moving finds the queue empty
and has nothing in hand, whatever the others do. If one does so, and every worker of the pool does so or has
left its loop in the end, every task that was not given up is completed. A worker in its loop always has a
move to make, and can empty the queue on its own. -/
theorem pool_drains {before : List (Action Id Score)} (hs : Runs {} before s) (h : Runs s actions t)
    (hquiet : ∀ a ∈ actions, a.Quiet) :
    (∀ w, LiveAt w s → 9 * s.redis.queue.length + 8 < actions.countP (Action.moves w) →
      DoneAt w t) ∧
    ((∃ w, LiveAt w s ∧ 9 * s.redis.queue.length + 8 < actions.countP (Action.moves w)) →
      (∀ w < t.workers.length, EndedAt w t ∨
        LiveAt w s ∧ 9 * s.redis.queue.length + 8 < actions.countP (Action.moves w)) →
      ∀ id, id ∉ t.dropped → t.statusOf id ≠ none → t.statusOf id = some .completed) ∧
    ∀ w worker, s.workers[w]? = some worker → worker.cancelling = false →
      (∃ a s', Steps s a s' ∧ a.moves w = true) ∧
        ∃ own t', Runs s own t' ∧ (∀ a ∈ own, a.moves w = true) ∧
          own.length ≤ 9 * s.redis.queue.length + 8 ∧ DoneAt w t' := by
  have hloop : Looping s :=
    hs.preserves (P := Looping) (fun _ _ _ hstep h => looping_step h hstep) looping_empty
  have hdone : ∀ w, LiveAt w s → 9 * s.redis.queue.length + 8 < actions.countP (Action.moves w) →
      DoneAt w t := fun w hlive hlt =>
    (usesUp w).done_of_lt_countP h hquiet ⟨hloop, hlive⟩ ((stepsLeft_le w s).trans_lt hlt)
  refine ⟨hdone, ?_, fun w worker hw hlive =>
    ⟨exists_move hloop hw hlive, exists_drain hloop hw hlive⟩⟩
  rintro ⟨w, hlive, hlt⟩ hall id hdropped hstatus
  have hinv : Inv t :=
    (hs.append h).preserves (P := Inv) (fun _ _ _ hstep h => inv_step hstep h) inv_empty
  refine completed_of_done hinv (hdone w hlive hlt).1 ?_ hdropped hstatus
  intro worker hmem
  obtain ⟨w', hw'⟩ := List.mem_iff_getElem?.mp hmem
  rcases hall w' (List.getElem?_eq_some_iff.mp hw').1 with hended | ⟨hlive', hlt'⟩
  · obtain ⟨worker', hworker', hphase⟩ := hended
    cases hw'.symm.trans hworker'
    rw [hphase]
    rfl
  · exact (hdone w' hlive' hlt').2 worker hw'

/-- One task is queued, and one worker has been created. -/
def poolStarted : Pool ℕ ℕ where
  redis := ⟨[(7, 30)], Function.update (fun _ => none) 7 (some ⟨some resize, .pending⟩)⟩
  workers := [{}]
  running := true

/-- The worker takes the task to its end, and then looks for another one three times. -/
def eighteenMoves : List (Action ℕ ℕ) :=
  [.resume 0, .serve 0, .resume 0, .serve 0, .resume 0, .serve 0, .resume 0, .resume 0, .serve 0,
    .resume 0, .serve 0, .resume 0, .resume 0, .serve 0, .resume 0, .resume 0, .serve 0, .resume 0]

def poolIdle : Pool ℕ ℕ := { poolDone with workers := [⟨.sleeping, false⟩] }

theorem poolStarted_runs : Runs {} [.enqueue resize, .start 1] poolStarted := run_of_exec rfl

theorem eighteenMoves_runs : Runs poolStarted eighteenMoves poolIdle := run_of_exec rfl

theorem pool_drains_eighteenMoves :
    DoneAt 0 poolIdle ∧ poolIdle.statusOf 7 = some .completed := by
  have hlive : LiveAt 0 poolStarted := by
    intro worker hw
    cases hw
    rfl
  have hmoves : 9 * poolStarted.redis.queue.length + 8 < eighteenMoves.countP (Action.moves 0) := by
    decide
  obtain ⟨hdone, hall, -⟩ := pool_drains poolStarted_runs eighteenMoves_runs
    (by simp [eighteenMoves, Action.Quiet])
  refine ⟨hdone 0 hlive hmoves, hall ⟨0, hlive, hmoves⟩ ?_ 7 (by simp [poolIdle, poolDone]) ?_⟩
  · intro w hw
    obtain rfl : w = 0 := Nat.lt_one_iff.mp hw
    exact .inr ⟨hlive, hmoves⟩
  · simp [statusOf, poolIdle, poolDone]

end Pool

end Chronoq.Demo
