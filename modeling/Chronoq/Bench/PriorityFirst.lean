import Chronoq.Bench.PolicyBounds

/-! # `baselines/`: static priorities and the SRPT approximation

A call of `select` need not see the other jobs that arrive at its own instant, but it sees every job that
arrived before: the arrival process is not behind the clock. So a scheduler that takes a job of least key
starts no job ahead of one with a smaller key that had arrived before.

* `SeesEarlier`: what a call sees; `PromptLaws`: it holds of every call of a run.
* `priority_never_inverted`: `PriorityFCFSScheduler` by the jobs a run hands back.
* `Simulation.runFor_congr`: schedulers that take the same jobs make the same runs. -/

namespace Chronoq.Bench
open Foundations

set_option autoImplicit false

open SimEvent

/-- `min(waiting, key=key)`, for keys that are compared as tuples. -/
def minJobBy {κ : Type} [LinearOrder κ] (key : Job → κ) (waiting : List Job) : Except PyException Job :=
  match extractLeast key waiting with
  | none => .error (.raised "ValueError")
  | some (job, _) => .ok job

/-- `(-j.priority, j.arrival_ms)` -/
def priorityKey (job : Job) : ℤ ×ₗ ℚ := toLex (-job.priority, job.arrivalMs)

def PriorityFCFSScheduler : BaseScheduler Unit where
  name := "priority_fcfs"
  select _ waiting := (minJobBy priorityKey waiting).map fun job => (job, ())

def SRPTOracleScheduler : BaseScheduler Unit where
  name := "srpt_oracle"
  select _ waiting := (minJob Job.trueMs waiting).map fun job => (job, ())

section MinJobBy
variable {κ : Type} [LinearOrder κ] {key : Job → κ} {waiting : List Job} {chosen : Job} {state : Unit}

theorem minJobBy_eq_ok (key : Job → κ) (h : waiting ≠ []) :
    ∃ job ∈ waiting, minJobBy key waiting = .ok job := by
  cases hleast : extractLeast key waiting with
  | none => exact absurd ((extractLeast_eq_none_iff key).mp hleast) h
  | some least =>
    refine ⟨least.1, extractLeast_mem key hleast, ?_⟩
    rw [minJobBy, hleast]

theorem minJobBy_le (h : minJobBy key waiting = .ok chosen) :
    ∀ other ∈ waiting, key chosen ≤ key other := by
  rw [minJobBy] at h
  split at h
  · cases h
  · next hleast =>
    cases h
    exact extractLeast_le key hleast

theorem minJobBy_of_select
    (h : (minJobBy key waiting).map (fun job => (job, ())) = .ok (chosen, state)) :
    minJobBy key waiting = .ok chosen := by
  cases hmin : minJobBy key waiting with
  | error exc =>
    rw [hmin] at h
    cases h
  | ok job =>
    rw [hmin] at h
    cases h
    rfl

end MinJobBy

theorem priority_selects : PriorityFCFSScheduler.Selects := by
  intro state waiting h
  obtain ⟨job, hmem, hmin⟩ := minJobBy_eq_ok priorityKey h
  refine ⟨job, hmem, (), ?_⟩
  show (minJobBy priorityKey waiting).map _ = _
  rw [hmin]
  rfl

/-- `select` takes a job of least `key`. -/
def BaseScheduler.Prefers {σ κ : Type} [LinearOrder κ] (scheduler : BaseScheduler σ) (key : Job → κ) :
    Prop :=
  ∀ state waiting chosen state', scheduler.select state waiting = .ok (chosen, state') →
    ∀ other ∈ waiting, key chosen ≤ key other

theorem priority_prefers : PriorityFCFSScheduler.Prefers priorityKey :=
  fun _ _ _ _ hselect => minJobBy_le (minJobBy_of_select hselect)

/-! ## What arrived before a call -/

/-- The call sees every job of `order` that arrived before it, apart from those taken `before`. -/
def SeesEarlier (order before : List Job) (c : Selection) : Prop :=
  ∃ seen future, order = seen ++ future ∧ (c.waiting ++ before).Perm seen ∧
    ∀ later ∈ future, c.time ≤ later.arrivesAt

namespace Simulation
variable {σ : Type} {scheduler scheduler' : BaseScheduler σ} {s t : Simulation σ} {jobs : List Job} {n : ℕ}

/-- The arrival process is not behind the clock. -/
theorem AgendaTimely.now_le_arrivesAt (h : AgendaTimely s) {future : List Job}
    (hfuture : s.agenda.total upcoming = batch future) :
    ∀ later ∈ future, s.now ≤ later.arrivesAt := by
  intro later hlater
  cases future with
  | nil => cases hlater
  | cons job arrivals =>
    have hmem : job :: arrivals ∈ s.agenda.total upcoming := by
      rw [hfuture]
      exact Multiset.mem_singleton_self _
    obtain ⟨a, ha, hupcoming⟩ := Agenda.mem_total.mp hmem
    have htimely := h a ha
    cases hevent : a.event with
    | arrivalTimeout job' arrivals' =>
      rw [hevent] at hupcoming htimely
      obtain ⟨rfl, rfl⟩ := List.cons.inj (Multiset.mem_singleton.mp hupcoming)
      obtain ⟨htime, hsorted⟩ := htimely
      have hfirst : job.arrivalMs ≤ later.arrivalMs := by
        rcases List.mem_cons.mp hlater with rfl | hrest
        · exact le_rfl
        · exact (List.pairwise_cons.mp hsorted).1 later hrest
      calc s.now ≤ a.time := s.agenda.later a ha
        _ = job.arrivesAt := htime
        _ ≤ later.arrivesAt := Job.arrivesAt_mono hfirst
    | arrivalsInit arrivals' =>
      rw [hevent] at htimely
      obtain ⟨hnow, hzero, -⟩ := htimely
      rw [← hnow, hzero]
      exact le_max_left _ _
    | _ => simp [hevent, upcoming] at hupcoming

structure PromptLaws (scheduler : BaseScheduler σ) (n : ℕ) (jobs : List Job) (s : Simulation σ) :
    Prop where
  reached : ReachedLaws scheduler n jobs s
  sees : EachWithPast (fun before c =>
    SeesEarlier (Simulator.arrivalOrder jobs) (before.map Selection.chosen) c) s.selections

theorem PromptLaws.step (h : PromptLaws scheduler n jobs s)
    (hstep : s.step scheduler = some (.ok t)) : PromptLaws scheduler n jobs t := by
  refine ⟨h.reached.step hstep, ?_⟩
  obtain ⟨e, b, hnext, hhandled⟩ := step_handled hstep
  have hagenda := (h.reached.trace.agenda.taken hnext).2
  obtain ⟨seen, future, horder, hfuture, hperm⟩ := h.reached.trace.handedOver
  rw [Agenda.total_next upcoming hnext] at hfuture
  have hqueued := queued_of_handled hhandled
  generalize hevent : e.event = event at hqueued hfuture
  cases hqueued with
  | handedOver job arrivals hwaiting hselections hupcoming =>
    rw [hselections]
    exact h.sees
  | unchanged hwaiting hselections hupcoming =>
    rw [hselections]
    exact h.sees
  | selected worker hselect hmem hwaiting hselections hupcoming =>
    rw [hselections]
    apply h.sees.concat
    refine ⟨seen, future, horder, hperm, hagenda.now_le_arrivesAt ?_⟩
    rw [← hfuture]
    exact (zero_add _).symm

theorem initial_promptLaws (sim : Simulator σ) (schedulerState : σ) (jobs : List Job) :
    PromptLaws sim.scheduler sim.nWorkers jobs (sim.initial schedulerState jobs) where
  reached := initial_reachedLaws sim schedulerState jobs
  sees := eachWithPast_nil

/-- A job that is taken later and had arrived before the call was among those the call could take. -/
theorem PromptLaws.mem_waiting (h : PromptLaws scheduler n jobs s)
    (hserved : (s.selections.map Selection.chosen).Perm (Simulator.arrivalOrder jobs))
    {before after : List Selection} {c c' : Selection} (hsplit : s.selections = before ++ c :: after)
    (hmem : c' ∈ c :: after) (harrived : c'.chosen.arrivesAt < c.time) : c'.chosen ∈ c.waiting := by
  obtain ⟨seen, future, horder, hperm, hlater⟩ := h.sees before c after hsplit
  have hfuture : c'.chosen ∉ future := fun hfuture =>
    absurd (hlater _ hfuture) (not_le.mpr harrived)
  -- the job is taken more often than before the call, and all of its copies have been handed over
  have hcount := hserved.count_eq c'.chosen
  rw [horder, List.count_append, List.count_eq_zero.mpr hfuture, ← hperm.count_eq, hsplit,
    List.map_append, List.count_append, List.count_append] at hcount
  have hpos : 0 < ((c :: after).map Selection.chosen).count c'.chosen :=
    List.count_pos_iff.mpr (List.mem_map_of_mem hmem)
  exact List.count_pos_iff.mp (by omega)

/-- No job is started ahead of one with a smaller key that had arrived before. -/
theorem PromptLaws.key_le {κ : Type} [LinearOrder κ] {key : Job → κ}
    (h : PromptLaws scheduler n jobs s) (hprefers : scheduler.Prefers key)
    (hserved : (s.selections.map Selection.chosen).Perm (Simulator.arrivalOrder jobs))
    {c c' : Selection} (hc : c ∈ s.selections) (hc' : c' ∈ s.selections) (hlt : c.time < c'.time)
    (harrived : c'.chosen.arrivesAt < c.time) : key c.chosen ≤ key c'.chosen := by
  obtain ⟨before, after, hsplit⟩ := List.append_of_mem hc
  have hmem : c' ∈ c :: after := by
    have hinOrder := h.reached.trace.calls.inOrder
    rw [hsplit] at hinOrder hc'
    rcases List.mem_append.mp hc' with hbefore | hafter
    · have hle := (List.pairwise_append.mp hinOrder).2.2 c' hbefore c List.mem_cons_self
      exact absurd hle (not_le.mpr hlt)
    · exact hafter
  obtain ⟨state, state', hselect⟩ := (h.reached.trace.calls.each before c after hsplit).selected
  exact hprefers _ _ _ _ hselect _ (h.mem_waiting hserved hsplit hmem harrived)

/-! ## Schedulers that take the same jobs -/

theorem ReachedLaws.waiting_mem (h : ReachedLaws scheduler n jobs s) :
    ∀ job ∈ s.waiting, job ∈ jobs := by
  intro job hjob
  obtain ⟨seen, future, horder, -, hperm⟩ := h.trace.handedOver
  have hseen : job ∈ seen := hperm.subset (List.mem_append_left _ hjob)
  have hmem : job ∈ Simulator.arrivalOrder jobs := horder ▸ List.mem_append_left _ hseen
  exact (Simulator.arrivalOrder_perm jobs).subset hmem

theorem handle_congr (event : SimEvent)
    (hselect : scheduler.select s.schedulerState s.waiting = scheduler'.select s.schedulerState s.waiting)
    (harrival : scheduler.onArrival = scheduler'.onArrival) :
    s.handle scheduler event = s.handle scheduler' event := by
  cases event with
  | arrivalTimeout job arrivals =>
    simp only [handle, arrive, harrival]
  | request worker => simp only [handle, acquire, hselect]
  | _ => rfl

theorem runFor_congr (h : ReachedLaws scheduler n jobs s)
    (hselect : ∀ state waiting, (∀ job ∈ waiting, job ∈ jobs) →
      scheduler.select state waiting = scheduler'.select state waiting)
    (harrival : scheduler.onArrival = scheduler'.onArrival) (fuel : ℕ) :
    s.runFor scheduler fuel = s.runFor scheduler' fuel := by
  induction fuel generalizing s with
  | zero => rfl
  | succ fuel ih =>
    have hstep : s.step scheduler = s.step scheduler' := by
      rw [step, step]
      cases s.agenda.next with
      | none => rfl
      | some taken =>
        exact congrArg some (handle_congr taken.1.event (hselect _ _ h.waiting_mem) harrival)
    rw [runFor, runFor, ← hstep]
    cases hnext : s.step scheduler with
    | none => rfl
    | some result =>
      cases result with
      | error exc => rfl
      | ok t => exact ih (h.step hnext)

end Simulation

/-! ## Priorities along a run -/

open Simulation

/-- A job that starts after another one, and had arrived before that one was started, does not have a
higher priority; with the same priority it did not arrive before. -/
theorem priority_never_inverted (nWorkers : ℕ) (hn : 1 ≤ nWorkers) (jobs : List Job)
    (harrival : ∀ job ∈ jobs, 0 ≤ job.arrivalMs) (htrue : ∀ job ∈ jobs, 0 < job.trueMs) :
    ∃ completed, Simulator.Completes ⟨PriorityFCFSScheduler, nWorkers, hn⟩ () jobs completed ∧
      ∀ first ∈ completed, ∀ second ∈ completed, first.startMs < second.startMs →
        second.arrivalMs < first.startMs →
        second.priority < first.priority ∨
          (second.priority = first.priority ∧ first.arrivalMs ≤ second.arrivalMs) := by
  obtain ⟨ended, ⟨steps, hsteps⟩, -, hran⟩ :=
    Simulator.exists_ran ⟨PriorityFCFSScheduler, nWorkers, hn⟩ () priority_selects htrue
  have hlaws : PromptLaws PriorityFCFSScheduler nWorkers jobs ended :=
    hsteps.preserves (fun _ _ _ hstep h => h.step hstep)
      (initial_promptLaws ⟨PriorityFCFSScheduler, nWorkers, hn⟩ () jobs)
  refine ⟨_, hran.completes, fun first hfirst second hsecond hlt harrived => ?_⟩
  obtain ⟨c, hc, rfl⟩ := List.mem_map.mp (hran.finished.subset hfirst)
  obtain ⟨c', hc', rfl⟩ := List.mem_map.mp (hran.finished.subset hsecond)
  have hbefore : c'.chosen.arrivesAt < c.time := by
    rw [Job.arrivesAt_of_nonneg (harrival _ (hran.chosen_mem hc'))]
    exact harrived
  have hkey := hlaws.key_le priority_prefers hran.served hc hc' hlt hbefore
  rcases Prod.Lex.toLex_le_toLex.mp hkey with hless | ⟨hsame, hle⟩
  · exact .inl (neg_lt_neg_iff.mp hless)
  · exact .inr ⟨(neg_injective hsame).symm, hle⟩

/-- A long job, and while it runs an urgent one after two others. -/
def urgentJobs : List Job :=
  [{ jobId := "a", taskType := "resize", payloadSize := 1, trueMs := 5, arrivalMs := 0 },
    { jobId := "b", taskType := "resize", payloadSize := 1, trueMs := 2, arrivalMs := 1 },
    { jobId := "c", taskType := "scale", payloadSize := 1, trueMs := 1, arrivalMs := 2 },
    { jobId := "d", taskType := "scale", payloadSize := 1, trueMs := 3, arrivalMs := 3, priority := 9 }]

theorem priority_never_inverted_urgentJobs :
    ∃ completed, Simulator.Completes ⟨PriorityFCFSScheduler, 1, le_rfl⟩ () urgentJobs completed ∧
      ∀ first ∈ completed, ∀ second ∈ completed, first.startMs < second.startMs →
        second.arrivalMs < first.startMs → second.priority ≤ first.priority := by
  obtain ⟨completed, hcompletes, hnot⟩ :=
    priority_never_inverted 1 le_rfl urgentJobs (by decide) (by decide)
  refine ⟨completed, hcompletes, fun first hfirst second hsecond hlt harrived => ?_⟩
  rcases hnot first hfirst second hsecond hlt harrived with hless | ⟨hsame, -⟩
  · exact hless.le
  · exact hsame.le

/-! ## Without priorities -/

theorem extractLeast_congr {α κ κ' : Type} [LinearOrder κ] [LinearOrder κ'] {key : α → κ}
    {key' : α → κ'} {l : List α} (h : ∀ a ∈ l, ∀ b ∈ l, key a ≤ key b ↔ key' a ≤ key' b) :
    extractLeast key l = extractLeast key' l := by
  induction l with
  | nil => rfl
  | cons a l ih =>
    have htail := ih fun b hb c hc => h b (List.mem_cons_of_mem _ hb) c (List.mem_cons_of_mem _ hc)
    rw [extractLeast, extractLeast, ← htail]
    cases hleast : extractLeast key l with
    | none => rfl
    | some least =>
      have hmem : least.1 ∈ a :: l := List.mem_cons_of_mem _ (extractLeast_mem key hleast)
      have hiff := h a List.mem_cons_self least.1 hmem
      dsimp only
      by_cases hle : key a ≤ key least.1
      · rw [if_pos hle, if_pos (hiff.mp hle)]
      · rw [if_neg hle, if_neg fun hle' => hle (hiff.mpr hle')]

theorem priority_select_eq {jobs waiting : List Job} (hsame : ∀ a ∈ jobs, ∀ b ∈ jobs, a.priority = b.priority)
    (hwaiting : ∀ job ∈ waiting, job ∈ jobs) (state : Unit) :
    PriorityFCFSScheduler.select state waiting = FCFSScheduler.select state waiting := by
  have hleast : extractLeast priorityKey waiting = extractLeast Job.arrivalMs waiting := by
    apply extractLeast_congr
    intro a ha b hb
    rw [priorityKey, priorityKey, Prod.Lex.toLex_le_toLex, hsame a (hwaiting a ha) b (hwaiting b hb)]
    simp
  show (minJobBy priorityKey waiting).map _ = (minJob Job.arrivalMs waiting).map _
  cases harrival : extractLeast Job.arrivalMs waiting with
  | none => simp [minJobBy, minJob, hleast, harrival]
  | some least => simp [minJobBy, minJob, hleast, harrival]

/-- Schedulers that take the same jobs hand back the same jobs. -/
theorem run_congr {σ : Type} {scheduler scheduler' : BaseScheduler σ} {jobs : List Job}
    (hselect : ∀ state waiting, (∀ job ∈ waiting, job ∈ jobs) →
      scheduler.select state waiting = scheduler'.select state waiting)
    (harrival : scheduler.onArrival = scheduler'.onArrival) (n : ℕ) (hn : 1 ≤ n) (state : σ) (fuel : ℕ) :
    (Simulator.run ⟨scheduler, n, hn⟩ state fuel jobs).map (·.map SimResult.jobs) =
      (Simulator.run ⟨scheduler', n, hn⟩ state fuel jobs).map (·.map SimResult.jobs) := by
  have hrun := runFor_congr (initial_reachedLaws ⟨scheduler, n, hn⟩ state jobs) hselect harrival fuel
  rw [Simulator.run, Simulator.run, Option.map_map, Option.map_map]
  have hinitial : Simulator.initial ⟨scheduler, n, hn⟩ state jobs =
      Simulator.initial ⟨scheduler', n, hn⟩ state jobs := rfl
  rw [hinitial] at hrun
  rw [hinitial, hrun]
  cases (Simulator.initial ⟨scheduler', n, hn⟩ state jobs).runFor scheduler' fuel with
  | none => rfl
  | some result => cases result <;> rfl

/-- If all jobs have the same priority, the priorities make no difference at all. -/
theorem priority_eq_fcfs_of_same_priority (nWorkers : ℕ) (hn : 1 ≤ nWorkers) (jobs : List Job)
    (hsame : ∀ a ∈ jobs, ∀ b ∈ jobs, a.priority = b.priority) (fuel : ℕ) :
    (Simulator.run ⟨PriorityFCFSScheduler, nWorkers, hn⟩ () fuel jobs).map (·.map SimResult.jobs) =
      (Simulator.run ⟨FCFSScheduler, nWorkers, hn⟩ () fuel jobs).map (·.map SimResult.jobs) :=
  run_congr (fun state _ hwaiting => priority_select_eq hsame hwaiting state) rfl nWorkers hn () fuel

theorem priority_eq_fcfs_of_same_priority_crossing :
    (Simulator.run ⟨PriorityFCFSScheduler, 1, le_rfl⟩ () 21 crossingJobs).map (·.map SimResult.jobs) =
      (Simulator.run ⟨FCFSScheduler, 1, le_rfl⟩ () 21 crossingJobs).map (·.map SimResult.jobs) :=
  priority_eq_fcfs_of_same_priority 1 le_rfl crossingJobs (by decide) 21

end Chronoq.Bench
