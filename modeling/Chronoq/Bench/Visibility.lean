import Chronoq.Bench.WorkConservation

/-! # Does a call of `select` see every job that has arrived?

Jobs that arrive at one instant are handed over one after another, each after a timeout of its own, and
the events of that instant are taken in the order in which they were scheduled. A request that is granted
after the first of these jobs comes before the third one: the call sees two of them.

* `InStep`: how the events of an instant and the next arrival of this instant are ordered, by the number
  of jobs that have arrived at it; `Batches`: the invariant.
* `seesEveryArrival_iff`: a call sees every job that has arrived exactly when the arrival process does
  not wait for a timeout of the same instant. -/

namespace Chronoq.Bench
open Foundations

set_option autoImplicit false

open SimEvent

/-! ## The events of one instant -/

def isArrival : SimEvent → Bool
  | .arrivalTimeout _ _ => true
  | _ => false

/-- The event is a granted request or will grant one. -/
def grants : SimEvent → Bool
  | .request _ | .release _ => true
  | _ => false

/-- `k` jobs have arrived at the instant `now`. -/
def InStep (now : ℚ) (k : ℕ) (e a : Scheduled ℚ SimEvent) : Prop :=
  match e.event, a.event with
  | .request _, .arrivalTimeout _ _ => a.time = now → 1 ≤ k ∧ (e.id < a.id → 2 ≤ k)
  | .release _, .arrivalTimeout _ _ => a.time = now → k = 0 → a.id < e.id
  | _, _ => True

def InPlace (k : ℕ) (e : Scheduled ℚ SimEvent) : Prop :=
  match e.event with
  | .arrivalsInit _ => False
  | .workerInit _ => 1 ≤ k
  | .arrivalTimeout _ _ | .request _ | .release _ => e.priority = normal
  | _ => True

structure Batches (entries : List (Scheduled ℚ SimEvent)) (now : ℚ) (k : ℕ) : Prop where
  each : ∀ e ∈ entries, InPlace k e
  order : ∀ e ∈ entries, ∀ a ∈ entries, InStep now k e a

section Batches
variable {entries entries' : List (Scheduled ℚ SimEvent)} {now : ℚ} {k : ℕ} {e a : Scheduled ℚ SimEvent}

theorem Batches.subset (h : Batches entries now k) (hsub : entries' ⊆ entries) :
    Batches entries' now k :=
  ⟨fun e he => h.each e (hsub he), fun e he a ha => h.order e (hsub he) a (hsub ha)⟩

theorem Batches.cons (h : Batches entries now k) (heach : InPlace k e)
    (hself : InStep now k e e) (horder : ∀ a ∈ entries, InStep now k e a ∧ InStep now k a e) :
    Batches (e :: entries) now k := by
  refine ⟨List.forall_mem_cons.mpr ⟨heach, h.each⟩, List.forall_mem_cons.mpr ⟨?_, ?_⟩⟩
  · exact List.forall_mem_cons.mpr ⟨hself, fun a ha => (horder a ha).1⟩
  · exact fun a ha => List.forall_mem_cons.mpr ⟨(horder a ha).2, h.order a ha⟩

theorem inStep_of_not_grants (h : grants e.event = false) : InStep now k e a := by
  unfold InStep
  split
  · next hevent _ =>
    rw [hevent] at h
    cases h
  · next hevent _ =>
    rw [hevent] at h
    cases h
  · trivial

theorem inStep_of_not_isArrival (h : isArrival a.event = false) : InStep now k e a := by
  unfold InStep
  split
  · next _ hevent =>
    rw [hevent] at h
    cases h
  · next _ hevent =>
    rw [hevent] at h
    cases h
  · trivial

/-- What is scheduled after the next arrival is taken after it. -/
theorem inStep_of_id_lt (hid : a.id < e.id)
    (hk : ∀ worker job arrivals, e.event = .request worker → a.event = .arrivalTimeout job arrivals →
      a.time = now → 1 ≤ k) : InStep now k e a := by
  unfold InStep
  split
  · next hrequest harrival =>
    exact fun hdue => ⟨hk _ _ _ hrequest harrival hdue, fun hlt => absurd hid hlt.asymm⟩
  · exact fun _ _ => hid
  · trivial

theorem InStep.succ (h : InStep now k e a) : InStep now (k + 1) e a := by
  unfold InStep at h ⊢
  split
  · next hrequest harrival =>
    rw [hrequest, harrival] at h
    intro hdue
    obtain ⟨hone, htwo⟩ := h hdue
    exact ⟨Nat.le_succ_of_le hone, fun hlt => Nat.le_succ_of_le (htwo hlt)⟩
  · exact fun _ hzero => absurd hzero (Nat.succ_ne_zero k)
  · trivial

/-- Once the next job has arrived, the one after it is the third for a request that was granted before. -/
theorem InStep.next (h : InStep now k e a) (hdue : a.time = now) {job : Job} {arrivals : List Job}
    (harrival : a.event = .arrivalTimeout job arrivals) (a' : Scheduled ℚ SimEvent) :
    InStep now (k + 1) e a' := by
  unfold InStep at h ⊢
  split
  · next hrequest _ =>
    rw [hrequest, harrival] at h
    have hone := (h hdue).1
    exact fun _ => ⟨Nat.le_succ_of_le hone, fun _ => Nat.succ_le_succ hone⟩
  · exact fun _ hzero => absurd hzero (Nat.succ_ne_zero k)
  · trivial

theorem InPlace.succ (h : InPlace k e) : InPlace (k + 1) e := by
  unfold InPlace at h ⊢
  split <;> simp_all

theorem Batches.succ (h : Batches entries now k) : Batches entries now (k + 1) :=
  ⟨fun e he => (h.each e he).succ, fun e he a ha => (h.order e he a ha).succ⟩

/-- What is not due at once is a timeout. -/
theorem InPlace.of_timeout {k' : ℕ} (h : InPlace k e)
    (htimely : Timely now e.time e.event) (hne : e.time ≠ now) :
    InPlace k' e ∧ grants e.event = false := by
  unfold InPlace at h ⊢
  cases hevent : e.event with
  | arrivalsInit arrivals =>
    rw [hevent] at h
    exact h.elim
  | arrivalTimeout job arrivals =>
    rw [hevent] at h
    exact ⟨h, rfl⟩
  | jobTimeout worker chosen => exact ⟨trivial, rfl⟩
  | workerInit worker =>
    rw [hevent] at htimely
    exact absurd htimely hne
  | request worker =>
    rw [hevent] at htimely
    exact absurd htimely hne
  | release worker =>
    rw [hevent] at htimely
    exact absurd htimely hne
  | processEnd => exact ⟨trivial, rfl⟩

end Batches

namespace Simulation
variable {σ : Type} {scheduler : BaseScheduler σ} {s t : Simulation σ} {n : ℕ} {jobs : List Job}

/-- How many jobs have arrived at this instant. -/
def arrivedNow (s : Simulation σ) : ℕ :=
  (s.waiting ++ s.selections.map Selection.chosen).countP fun job => job.arrivesAt = s.now

abbrev InBatches (s : Simulation σ) : Prop := Batches s.agenda.entries s.now s.arrivedNow

theorem InBatches.grant (h : InBatches s) (tried : Resource ℕ × Option ℕ)
    (hk : ∀ a ∈ s.agenda.entries, ∀ job arrivals, a.event = .arrivalTimeout job arrivals →
      a.time = s.now → 1 ≤ s.arrivedNow) : InBatches (s.grant tried) := by
  obtain ⟨r, _ | worker⟩ := tried
  · exact h
  · refine Batches.cons (k := s.arrivedNow) h rfl ?_ fun a ha => ⟨?_, ?_⟩
    · exact inStep_of_not_isArrival rfl
    · exact inStep_of_id_lt (s.agenda.fresh a ha) fun _ job arrivals _ => hk a ha job arrivals
    · exact inStep_of_not_isArrival rfl

theorem InBatches.arrivalLoop (h : InBatches s)
    (hnext : ∀ e ∈ s.agenda.entries, ∀ a, InStep s.now s.arrivedNow e a) (arrivals : List Job) :
    InBatches (s.arrivalLoop arrivals) := by
  cases arrivals with
  | nil =>
    refine Batches.cons (k := s.arrivedNow) h trivial ?_ fun a ha => ⟨?_, hnext a ha _⟩
    · exact inStep_of_not_grants rfl
    · exact inStep_of_not_grants rfl
  | cons job arrivals =>
    refine Batches.cons (k := s.arrivedNow) h rfl ?_ fun a ha => ⟨?_, hnext a ha _⟩
    · exact inStep_of_not_grants rfl
    · exact inStep_of_not_grants rfl

theorem arrivedNow_arrive (scheduler : BaseScheduler σ) {job : Job} (hnow : s.now = job.arrivesAt) :
    (s.arrive scheduler job).arrivedNow = s.arrivedNow + 1 := by
  show ((s.waiting ++ [job]) ++ s.selections.map Selection.chosen).countP
    (fun job => job.arrivesAt = s.now) = _
  rw [arrivedNow, List.countP_append, List.countP_append, List.countP_append, List.countP_singleton,
    if_pos (decide_eq_true hnow.symm)]
  omega

/-- What was scheduled before the next job of this instant arrives is in step with the one after it. -/
theorem InBatches.arrive {e : Scheduled ℚ SimEvent} {job : Job} {arrivals : List Job}
    (h : Batches (e :: s.agenda.entries) s.now s.arrivedNow)
    (hevent : e.event = .arrivalTimeout job arrivals) (hdue : e.time = s.now)
    (hnow : s.now = job.arrivesAt) (rest : List Job) :
    InBatches ((s.arrive scheduler job).arrivalLoop rest) := by
  have hold : Batches s.agenda.entries s.now (s.arrivedNow + 1) :=
    (h.subset (List.subset_cons_self e s.agenda.entries)).succ
  have hnext : ∀ e' ∈ s.agenda.entries, ∀ a, InStep s.now (s.arrivedNow + 1) e' a := fun e' he' a =>
    (h.order e' (List.mem_cons_of_mem _ he') e List.mem_cons_self).next hdue hevent a
  have hworker : ∀ a, InStep s.now (s.arrivedNow + 1)
      ⟨s.now, urgent, s.agenda.nextId, .workerInit s.processes⟩ a := fun a =>
    inStep_of_not_grants rfl
  have hcount := arrivedNow_arrive scheduler hnow
  have harrive : InBatches (s.arrive scheduler job) := by
    rw [InBatches, hcount]
    exact hold.cons (Nat.succ_pos _) (hworker _) fun a ha => ⟨hworker a, hnext a ha _⟩
  refine harrive.arrivalLoop ?_ rest
  rw [hcount]
  exact List.forall_mem_cons.mpr ⟨hworker, hnext⟩

theorem InBatches.handled {e : Scheduled ℚ SimEvent} {event : SimEvent} (hevent : e.event = event)
    (h : Handled scheduler s event t) (htimely : Timely s.now s.now event) (htime : e.time = s.now)
    (hfirst : ∀ a ∈ s.agenda.entries, e.key < a.key)
    (hs : Batches (e :: s.agenda.entries) s.now s.arrivedNow) : InBatches t := by
  have hold : InBatches s := hs.subset (List.subset_cons_self e s.agenda.entries)
  have hplace := hs.each e List.mem_cons_self
  rw [InPlace, hevent] at hplace
  cases h with
  | arrivals arrivals => exact hplace.elim
  | arrived job arrivals => exact InBatches.arrive hs hevent htime htimely.1 arrivals
  | asked worker => exact hold.grant _ fun _ _ _ _ _ _ => hplace
  | @began worker chosen state hselect hmem hnonneg =>
    have hcount : (s.begin worker chosen state hnonneg).arrivedNow = s.arrivedNow := by
      have hperm : (s.waiting.erase chosen ++ (s.selections ++ [(⟨s.now, s.waiting, chosen⟩ : Selection)]).map
          Selection.chosen).Perm (s.waiting ++ s.selections.map Selection.chosen) := by
        rw [List.map_append, ← List.append_assoc]
        refine List.perm_append_comm.trans ?_
        exact (List.perm_cons_erase hmem).symm.append_right _
      exact hperm.countP_eq _
    rw [InBatches, hcount]
    refine Batches.cons hold trivial ?_ fun a ha => ⟨?_, ?_⟩
    · exact inStep_of_not_grants rfl
    · exact inStep_of_not_grants rfl
    · exact inStep_of_not_isArrival rfl
  | completed worker hmem =>
    have hrelease : Batches (⟨s.now, normal, s.agenda.nextId, .release worker⟩ :: s.agenda.entries)
        s.now s.arrivedNow := by
      refine hold.cons rfl (inStep_of_not_isArrival rfl) fun a ha => ⟨?_, inStep_of_not_isArrival rfl⟩
      exact inStep_of_id_lt (s.agenda.fresh a ha) fun _ _ _ hrequest => by cases hrequest
    exact hrelease.cons trivial (inStep_of_not_grants rfl) fun a _ =>
      ⟨inStep_of_not_grants rfl, inStep_of_not_isArrival rfl⟩
  | released worker =>
    refine hold.grant _ fun a ha job arrivals harrival hdue => ?_
    -- an arrival that was scheduled at an earlier instant would have come first
    by_contra hzero
    have hstep := hs.order e List.mem_cons_self a (List.mem_cons_of_mem _ ha)
    rw [InStep, hevent, harrival] at hstep
    have hid : a.id < e.id := hstep hdue (by omega)
    have hplace' := hs.each a (List.mem_cons_of_mem _ ha)
    rw [InPlace, harrival] at hplace'
    have hbefore := Agenda.id_lt_of_key_lt (hfirst a ha) (htime.trans hdue.symm)
      (hplace.trans hplace'.symm)
    exact hid.asymm hbefore
  | ended => exact hold

theorem InBatches.taken {e : Scheduled ℚ SimEvent} {b : Agenda ℚ SimEvent} (h : InBatches s)
    (hagenda : AgendaTimely s) (hnext : s.agenda.next = some (e, b)) :
    Batches (e :: b.entries) b.now (arrivedNow { s with agenda := b }) := by
  have hsub : e :: b.entries ⊆ s.agenda.entries := (Agenda.next_perm hnext).symm.subset
  have hnow : s.now ≤ b.now := Agenda.next_now hnext
  rcases hnow.eq_or_lt with hsame | hlt
  · have hcount : arrivedNow { s with agenda := b } = s.arrivedNow := by
      show (s.waiting ++ _).countP (fun job => job.arrivesAt = b.now) = _
      rw [← hsame]
      rfl
    rw [hcount, ← hsame]
    exact Batches.subset h hsub
  · -- only timeouts are left when the clock moves
    have hleft : ∀ e' ∈ e :: b.entries,
        InPlace (arrivedNow { s with agenda := b }) e' ∧ grants e'.event = false := fun e' he' =>
      (h.each e' (hsub he')).of_timeout (hagenda e' (hsub he')) (time_ne_now hnext hlt (hsub he')).2
    exact ⟨fun e' he' => (hleft e' he').1, fun e' he' _ _ => inStep_of_not_grants (hleft e' he').2⟩

/-- The arrival process has not started, and nothing else is scheduled. -/
def Starting (s : Simulation σ) : Prop :=
  ∃ e arrivals, s.agenda.entries = [e] ∧ e.event = .arrivalsInit arrivals

theorem inBatches_of_starting (h : s.Starting) (hstep : s.step scheduler = some (.ok t)) :
    InBatches t := by
  obtain ⟨e, arrivals, hentries, hevent⟩ := h
  obtain ⟨e', b, hnext, hhandled⟩ := step_handled hstep
  have hperm := Agenda.next_perm hnext
  rw [hentries] at hperm
  obtain ⟨rfl, hb⟩ := List.cons.inj (List.singleton_perm.mp hperm)
  rw [hevent] at hhandled
  cases hhandled with
  | arrivals arrivals =>
    refine InBatches.arrivalLoop (s := { s with agenda := b }) ?_ ?_ arrivals
    · show Batches b.entries _ _
      rw [← hb]
      exact ⟨List.forall_mem_nil _, List.forall_mem_nil _⟩
    · show ∀ e ∈ b.entries, _
      rw [← hb]
      exact List.forall_mem_nil _

theorem InBatches.step (h : InBatches s) (hagenda : AgendaTimely s)
    (hstep : s.step scheduler = some (.ok t)) : InBatches t := by
  obtain ⟨e, b, hnext, hhandled⟩ := step_handled hstep
  exact InBatches.handled (s := { s with agenda := b }) rfl hhandled (hagenda.taken hnext).1
    (Agenda.next_eq_some hnext).2.1.symm (fun a ha => Agenda.next_lt hnext ha)
    (h.taken hagenda hnext)

/-! ## What a call sees -/

/-- The jobs waiting at a call of `select` after the calls `before` are all that have arrived and are
not started. -/
def SeesEveryArrival (jobs : List Job) (before : List Selection) (c : Selection) : Prop :=
  (c.waiting ++ before.map Selection.chosen).Perm (jobs.filter fun job => job.arrivalMs ≤ c.time)

/-- The arrival process has no timeout of this instant on the agenda. -/
def NoneDue (s : Simulation σ) : Prop :=
  ∀ a ∈ s.agenda.entries, isArrival a.event = true → s.now < a.time

theorem exists_of_isArrival {event : SimEvent} (h : isArrival event = true) :
    ∃ job arrivals, event = .arrivalTimeout job arrivals := by
  cases event with
  | arrivalTimeout job arrivals => exact ⟨job, arrivals, rfl⟩
  | _ => cases h

/-- A timeout of the arrival process is due when its job arrives, and the later jobs not before it. -/
theorem AgendaTimely.arrival (hagenda : AgendaTimely s) {a : Scheduled ℚ SimEvent}
    (ha : a ∈ s.agenda.entries) {job : Job} {arrivals : List Job}
    (hevent : a.event = .arrivalTimeout job arrivals) :
    a.time = job.arrivesAt ∧ ByArrival (job :: arrivals) := by
  have htimely := hagenda a ha
  rw [hevent] at htimely
  exact htimely

theorem AgendaTimely.now_of_request (hagenda : AgendaTimely s) {e : Scheduled ℚ SimEvent}
    {b : Agenda ℚ SimEvent} (hnext : s.agenda.next = some (e, b)) {worker : ℕ}
    (hrequest : e.event = .request worker) : e.time = s.now := by
  have htimely := hagenda e (Agenda.next_mem hnext)
  rw [hrequest] at htimely
  exact htimely

theorem future_eq {a : Scheduled ℚ SimEvent} {job : Job} {arrivals future : List Job}
    (hfuture : s.agenda.total upcoming = batch future) (ha : a ∈ s.agenda.entries)
    (harrival : a.event = .arrivalTimeout job arrivals) : future = job :: arrivals := by
  have hmem : job :: arrivals ∈ s.agenda.total upcoming :=
    Agenda.mem_total.mpr ⟨a, ha, by rw [harrival]; exact Multiset.mem_singleton_self _⟩
  rw [hfuture] at hmem
  cases future with
  | nil => simp [batch] at hmem
  | cons job' future => exact (Multiset.mem_singleton.mp hmem).symm

/-- The jobs handed over so far and those to come, by their arrival. -/
theorem ReachedLaws.filter_arrived (h : ReachedLaws scheduler n jobs s) {seen future : List Job}
    (horder : Simulator.arrivalOrder jobs = seen ++ future)
    (hperm : (s.waiting ++ s.selections.map Selection.chosen).Perm seen) :
    (jobs.filter fun job => job.arrivalMs ≤ s.now).Perm
      (seen ++ future.filter fun job => job.arrivalMs ≤ s.now) := by
  have hseen : seen.filter (fun job => job.arrivalMs ≤ s.now) = seen := by
    refine List.filter_eq_self.mpr fun job hjob => decide_eq_true ?_
    rw [← Job.arrivesAt_le_iff h.trace.started]
    rcases List.mem_append.mp (hperm.symm.subset hjob) with hwaiting | hchosen
    · exact h.trace.calls.arrived job hwaiting
    · obtain ⟨c, hc, rfl⟩ := List.mem_map.mp hchosen
      exact (h.trace.calls.past c hc).1.trans (h.trace.calls.past c hc).2
  have hfilter := (Simulator.arrivalOrder_perm jobs).symm.filter fun job => job.arrivalMs ≤ s.now
  rw [horder, List.filter_append, hseen] at hfilter
  exact hfilter

/-- If the arrival process is not due, the jobs to come arrive later. -/
theorem ReachedLaws.future_late (h : ReachedLaws scheduler n jobs s) (hbatches : InBatches s)
    {future : List Job} (hfuture : s.agenda.total upcoming = batch future) (hnone : s.NoneDue) :
    ∀ later ∈ future, ¬ later.arrivalMs ≤ s.now := by
  intro later hlater
  cases future with
  | nil => cases hlater
  | cons job arrivals =>
    have hmem : job :: arrivals ∈ s.agenda.total upcoming := by
      rw [hfuture]
      exact Multiset.mem_singleton_self _
    obtain ⟨a, ha, hupcoming⟩ := Agenda.mem_total.mp hmem
    cases hevent : a.event with
    | arrivalTimeout job' arrivals' =>
      have hlt := hnone a ha (by rw [hevent]; rfl)
      rw [hevent] at hupcoming
      obtain ⟨rfl, rfl⟩ := List.cons.inj (Multiset.mem_singleton.mp hupcoming)
      obtain ⟨htime, hsorted⟩ := h.trace.agenda.arrival ha hevent
      have hfirst : job.arrivalMs ≤ later.arrivalMs := by
        rcases List.mem_cons.mp hlater with rfl | hrest
        · exact le_rfl
        · exact (List.pairwise_cons.mp hsorted).1 later hrest
      rw [htime] at hlt
      rw [← Job.arrivesAt_le_iff h.trace.started]
      exact not_le.mpr (hlt.trans_le (Job.arrivesAt_mono hfirst))
    | arrivalsInit arrivals' =>
      have hplace := hbatches.each a ha
      rw [InPlace, hevent] at hplace
      exact hplace.elim
    | _ => simp [hevent, upcoming] at hupcoming

theorem seesEveryArrival_iff (h : ReachedLaws scheduler n jobs s) (hbatches : InBatches s) :
    (s.waiting ++ s.selections.map Selection.chosen).Perm
      (jobs.filter fun job => job.arrivalMs ≤ s.now) ↔ s.NoneDue := by
  obtain ⟨seen, future, horder, hfuture, hperm⟩ := h.trace.handedOver
  have hfilter := h.filter_arrived horder hperm
  constructor
  · intro hall a ha harrival
    by_contra hdue
    obtain ⟨job, arrivals, hevent⟩ := exists_of_isArrival harrival
    obtain rfl := future_eq hfuture ha hevent
    have harrived : job.arrivalMs ≤ s.now := by
      rw [← Job.arrivesAt_le_iff h.trace.started, ← (h.trace.agenda.arrival ha hevent).1]
      exact not_lt.mp hdue
    have hmem : job ∈ (job :: arrivals).filter fun job => job.arrivalMs ≤ s.now :=
      List.mem_filter.mpr ⟨List.mem_cons_self, decide_eq_true harrived⟩
    have hpos := List.length_pos_of_mem hmem
    have hlength := (hall.symm.trans hperm).length_eq
    rw [hfilter.length_eq, List.length_append] at hlength
    omega
  · intro hnone
    have hlate : future.filter (fun job => job.arrivalMs ≤ s.now) = [] := by
      refine List.filter_eq_nil_iff.mpr fun later hlater => ?_
      rw [decide_eq_true_eq]
      exact h.future_late hbatches hfuture hnone later hlater
    rw [hlate, List.append_nil] at hfilter
    exact hperm.trans hfilter.symm

/-- At a granted request at whose instant no more than two jobs arrive, none of them is still due. -/
theorem noneDue_of_request (h : ReachedLaws scheduler n jobs s) (hbatches : InBatches s)
    {e : Scheduled ℚ SimEvent} {b : Agenda ℚ SimEvent} (hnext : s.agenda.next = some (e, b))
    {worker : ℕ} (hrequest : e.event = .request worker)
    (hfew : jobs.countP (fun job => job.arrivesAt = s.now) ≤ 2) : s.NoneDue := by
  intro a ha harrival
  by_contra hdue
  obtain ⟨job, arrivals, hevent⟩ := exists_of_isArrival harrival
  have hnow : a.time = s.now := le_antisymm (not_lt.mp hdue) (s.agenda.later a ha)
  have hetime := h.trace.agenda.now_of_request hnext hrequest
  have hplace := hbatches.each e (Agenda.next_mem hnext)
  have hplace' := hbatches.each a ha
  rw [InPlace, hrequest] at hplace
  rw [InPlace, hevent] at hplace'
  -- the request is taken before the arrival
  have hkey : e.key < a.key := by
    rcases List.mem_cons.mp ((Agenda.next_perm hnext).subset ha) with rfl | hrest
    · rw [hrequest] at hevent
      cases hevent
    · exact Agenda.next_lt hnext hrest
  have hid := Agenda.id_lt_of_key_lt hkey (hetime.trans hnow.symm) (hplace.trans hplace'.symm)
  have hstep := hbatches.order e (Agenda.next_mem hnext) a ha
  rw [InStep, hrequest, hevent] at hstep
  have htwo : 2 ≤ s.arrivedNow := (hstep hnow).2 hid
  -- so its job is the third
  obtain ⟨seen, future, horder, hfuture, hperm⟩ := h.trace.handedOver
  obtain rfl := future_eq hfuture ha hevent
  have hthird : job.arrivesAt = s.now := (h.trace.agenda.arrival ha hevent).1.symm.trans hnow
  have hcount := ((Simulator.arrivalOrder_perm jobs).countP_eq fun job => job.arrivesAt = s.now).symm
  rw [horder, List.countP_append, List.countP_cons, decide_eq_true hthird, if_pos rfl,
    ← hperm.countP_eq] at hcount
  change 2 ≤ (s.waiting ++ s.selections.map Selection.chosen).countP _ at htwo
  omega

theorem InBatches.of_request (h : s.Starting ∨ InBatches s) {e : Scheduled ℚ SimEvent}
    {b : Agenda ℚ SimEvent} (hnext : s.agenda.next = some (e, b)) {worker : ℕ}
    (hrequest : e.event = .request worker) : InBatches s := by
  refine h.resolve_left fun ⟨e', arrivals, hentries, hevent⟩ => ?_
  have hmem := Agenda.next_mem hnext
  rw [hentries] at hmem
  rw [List.mem_singleton.mp hmem, hevent] at hrequest
  cases hrequest

/-- Only two jobs, or fewer, arrive at the instant of the call. -/
def FewArriveAt (jobs : List Job) (time : ℚ) : Prop :=
  jobs.countP (fun job => job.arrivesAt = time) ≤ 2

structure SeenLaws (scheduler : BaseScheduler σ) (n : ℕ) (jobs : List Job) (s : Simulation σ) :
    Prop where
  reached : ReachedLaws scheduler n jobs s
  batches : s.Starting ∨ InBatches s
  sees : EachWithPast (fun before c => FewArriveAt jobs c.time → SeesEveryArrival jobs before c)
    s.selections

theorem SeenLaws.step (h : SeenLaws scheduler n jobs s) (hstep : s.step scheduler = some (.ok t)) :
    SeenLaws scheduler n jobs t := by
  refine ⟨h.reached.step hstep, .inr ?_, ?_⟩
  · rcases h.batches with hstarting | hbatches
    · exact inBatches_of_starting hstarting hstep
    · exact hbatches.step h.reached.trace.agenda hstep
  · obtain ⟨e, b, hnext, hhandled⟩ := step_handled hstep
    have hqueued := queued_of_handled hhandled
    generalize hevent : e.event = event at hqueued
    cases hqueued with
    | handedOver job arrivals hwaiting hselections hupcoming =>
      rw [hselections]
      exact h.sees
    | unchanged hwaiting hselections hupcoming =>
      rw [hselections]
      exact h.sees
    | selected worker hselect hmem hwaiting hselections hupcoming =>
      rw [hselections]
      refine h.sees.concat fun hfew => ?_
      have hbatches := InBatches.of_request h.batches hnext hevent
      have hnow : b.now = s.now := (Agenda.next_eq_some hnext).2.1.trans
        (h.reached.trace.agenda.now_of_request hnext hevent)
      change FewArriveAt jobs b.now at hfew
      rw [hnow] at hfew
      have hall := (seesEveryArrival_iff h.reached hbatches).mpr
        (noneDue_of_request h.reached hbatches hnext hevent hfew)
      show (s.waiting ++ s.selections.map Selection.chosen).Perm
        (jobs.filter fun job => job.arrivalMs ≤ b.now)
      rw [hnow]
      exact hall

theorem initial_seenLaws (sim : Simulator σ) (schedulerState : σ) (jobs : List Job) :
    SeenLaws sim.scheduler sim.nWorkers jobs (sim.initial schedulerState jobs) where
  reached := initial_reachedLaws sim schedulerState jobs
  batches := .inl ⟨_, _, rfl, rfl⟩
  sees := eachWithPast_nil

end Simulation

/-! ## Along a run -/

/-- `select` takes a job of least `key`. -/
def BaseScheduler.TakesLeast {σ : Type} (scheduler : BaseScheduler σ) (key : Job → ℚ) : Prop :=
  ∀ state waiting chosen state', scheduler.select state waiting = .ok (chosen, state') →
    ∀ other ∈ waiting, key chosen ≤ key other

theorem sjf_takesLeast : SJFOracleScheduler.TakesLeast Job.trueMs :=
  fun _ _ _ _ hselect => minJob_le (minJob_of_select hselect)

open Simulation

theorem crossing_positive : ∀ job ∈ crossingJobs, 0 < job.trueMs := by decide

/-- Three jobs that arrive at one instant, the shortest of them last. -/
def burst : List Job :=
  [{ jobId := "a", taskType := "resize", payloadSize := 1, trueMs := 3, arrivalMs := 0 },
    { jobId := "b", taskType := "resize", payloadSize := 1, trueMs := 2, arrivalMs := 0 },
    { jobId := "c", taskType := "resize", payloadSize := 1, trueMs := 1, arrivalMs := 0 }]

/-- The times of the calls of `select` and how many jobs they see, if the run ends. -/
def seenLengths {σ : Type} (scheduler : BaseScheduler σ) (fuel : ℕ) (s : Simulation σ) :
    Option (List (ℚ × ℕ)) :=
  match s.runFor scheduler fuel with
  | some (.ok t) => some (t.selections.map fun c => (c.time, c.waiting.length))
  | _ => none

theorem exists_run_of_seenLengths {σ : Type} {scheduler : BaseScheduler σ} {fuel : ℕ}
    {s : Simulation σ} {lengths : List (ℚ × ℕ)} (h : seenLengths scheduler fuel s = some lengths) :
    ∃ steps t, Run (Steps scheduler) s steps t ∧
      t.selections.map (fun c => (c.time, c.waiting.length)) = lengths := by
  unfold seenLengths at h
  split at h
  · next t hrun =>
    obtain ⟨steps, hsteps⟩ := exists_run_of_runFor hrun
    exact ⟨steps, t, hsteps, Option.some.inj h⟩
  · cases h

end Chronoq.Bench
