import Chronoq.Celery.Calls

/-! # One training record for every finished execution

Everything `record_completion` does hangs on the start time that the registry has for the id.
`startOf` is that time; three kinds of call change it: `record_start` of the id sets it,
`record_completion` and `cleanup_registry` of the id forget it with the whole entry. A `submit` makes
an entry without a start time, and only where there was none. `startOf_eq_some_iff` reads this off the
history of calls, and the laws of telemetry follow. -/

namespace Chronoq.Celery
open Foundations Ranker

set_option autoImplicit false

variable {Score ApplyFn Ranker : Type}

/-! ## What a call observes and records -/

def startOf (s : LearnedScheduler Score ApplyFn Ranker) (id : String) : Option ℚ :=
  (s.registry.lookup id).bind RegistryEntry.startMs

/-- The duration that a call gives to the tracker, with its type. -/
def observedBy (s : LearnedScheduler Score ApplyFn Ranker) : Call ApplyFn → Option (String × ℚ)
  | .recordCompletion taskId taskType _ nowMs =>
    (startOf s taskId).map fun startMs => (taskType, nowMs - startMs)
  | _ => none

/-- The arguments of the `ranker.record` that a call makes. -/
def recordedBy (env : CallEnv Score ApplyFn Ranker) (s : LearnedScheduler Score ApplyFn Ranker) :
    Call ApplyFn → Option RecordCall
  | .recordCompletion taskId taskType payloadSize nowMs =>
    (s.recordCompletion env.record taskId taskType payloadSize nowMs).recorded
  | _ => none

theorem recordedBy_isSome (env : CallEnv Score ApplyFn Ranker)
    {s : LearnedScheduler Score ApplyFn Ranker} (hranker : s.ranker.isSome) (c : Call ApplyFn) :
    (recordedBy env s c).isSome = (observedBy s c).isSome := by
  cases c with
  | recordCompletion taskId taskType payloadSize nowMs =>
    obtain ⟨ranker, hranker⟩ := Option.isSome_iff_exists.mp hranker
    simp only [recordedBy, observedBy, LearnedScheduler.recordCompletion,
      LearnedScheduler.takeEntry, startOf]
    cases (s.registry.lookup taskId).bind RegistryEntry.startMs with
    | none => rfl
    | some startMs => simp [hranker]
  | _ => rfl

theorem recordedBy_eq {env : CallEnv Score ApplyFn Ranker}
    {s : LearnedScheduler Score ApplyFn Ranker} (hranker : s.ranker.isSome) {taskId : String}
    {startMs : ℚ} (hstart : startOf s taskId = some startMs) (taskType : String) (payloadSize : ℤ)
    (nowMs : ℚ) :
    ∃ metadata, recordedBy env s (.recordCompletion taskId taskType payloadSize nowMs) =
      some ⟨taskType, payloadSize, nowMs - startMs, metadata⟩ := by
  obtain ⟨ranker, hranker⟩ := Option.isSome_iff_exists.mp hranker
  unfold startOf at hstart
  simp only [recordedBy, LearnedScheduler.recordCompletion, LearnedScheduler.takeEntry, hstart,
    hranker]
  exact ⟨_, rfl⟩

section Effects
variable [LinearOrder Score] [Zero Score]

/-- The statistics move by what a call observes and by nothing else. -/
theorem after_stats (env : CallEnv Score ApplyFn Ranker) (s : LearnedScheduler Score ApplyFn Ranker)
    (c : Call ApplyFn) :
    (after env s c).stats =
      (observedBy s c).elim s.stats fun observed => s.stats.record observed.1 observed.2 := by
  cases c with
  | recordCompletion taskId taskType payloadSize nowMs =>
    simp only [after, observedBy, LearnedScheduler.recordCompletion, LearnedScheduler.takeEntry,
      startOf]
    cases (s.registry.lookup taskId).bind RegistryEntry.startMs with
    | none => rfl
    | some startMs => cases hranker : s.ranker <;> rfl
  | _ => exact (after_of_not_completion env s rfl).1

/-- The ranker moves by what a call records and by nothing else. -/
theorem after_ranker_eq (env : CallEnv Score ApplyFn Ranker)
    (s : LearnedScheduler Score ApplyFn Ranker) (c : Call ApplyFn) :
    (after env s c).ranker = (recordedBy env s c).elim s.ranker fun call =>
      s.ranker.map fun ranker => (env.record ranker call).1 := by
  cases c with
  | recordCompletion taskId taskType payloadSize nowMs =>
    simp only [after, recordedBy, LearnedScheduler.recordCompletion, LearnedScheduler.takeEntry]
    cases (s.registry.lookup taskId).bind RegistryEntry.startMs with
    | none => rfl
    | some startMs => cases hranker : s.ranker <;> rfl
  | _ => exact (after_of_not_completion env s rfl).2

end Effects

/-! ## Start times -/

/-- The start time that a call sets for `id`. -/
def Call.starts (id : String) : Call ApplyFn → Option ℚ
  | .recordStart taskId _ _ nowMs => if taskId = id then some nowMs else none
  | _ => none

/-- The call takes the registry entry of `id`. -/
def Call.ends (id : String) : Call ApplyFn → Bool
  | .recordCompletion taskId _ _ _ => taskId = id
  | .cleanupRegistry taskId => taskId = id
  | _ => false

theorem Call.starts_eq_some {id : String} {c : Call ApplyFn} {t : ℚ} (h : c.starts id = some t) :
    ∃ taskType payloadSize, c = .recordStart id taskType payloadSize t := by
  cases c with
  | recordStart taskId taskType payloadSize nowMs =>
    simp only [Call.starts, Option.ite_none_right_eq_some, Option.some.injEq] at h
    obtain ⟨rfl, rfl⟩ := h
    exact ⟨taskType, payloadSize, rfl⟩
  | _ => cases h

variable [LinearOrder Score] [Zero Score]

theorem not_mem_after_of_ends (env : CallEnv Score ApplyFn Ranker)
    (s : LearnedScheduler Score ApplyFn Ranker) {c : Call ApplyFn} {id : String}
    (h : c.ends id = true) : id ∉ (after env s c).registry := by
  have heffect := call_effect env s c
  generalize after env s c = s' at heffect ⊢
  generalize acceptedBy env s c = accepted at heffect
  cases heffect with
  | completed _ =>
    obtain rfl := of_decide_eq_true h
    exact Finmap.notMem_erase_self
  | cleaned =>
    obtain rfl := of_decide_eq_true h
    exact Finmap.notMem_erase_self
  | _ => cases h

omit [LinearOrder Score] [Zero Score] in
theorem startOf_of_not_mem {s : LearnedScheduler Score ApplyFn Ranker} {id : String}
    (h : id ∉ s.registry) : startOf s id = none := by
  rw [startOf, Finmap.lookup_eq_none.mpr h]
  rfl

omit [LinearOrder Score] [Zero Score] in
theorem mem_of_startOf {s : LearnedScheduler Score ApplyFn Ranker} {id : String} {t : ℚ}
    (h : startOf s id = some t) : id ∈ s.registry := by
  by_contra hmem
  rw [startOf_of_not_mem hmem] at h
  cases h

/-- What one call does to the start time of an id. -/
theorem after_startOf (env : CallEnv Score ApplyFn Ranker)
    (s : LearnedScheduler Score ApplyFn Ranker) (c : Call ApplyFn) (id : String) :
    startOf (after env s c) id =
      if c.ends id then none else (c.starts id).or (startOf s id) := by
  by_cases hends : c.ends id = true
  · rw [if_pos hends, startOf_of_not_mem (not_mem_after_of_ends env s hends)]
  · rw [if_neg hends]
    have heffect := call_effect env s c
    generalize after env s c = s' at heffect ⊢
    generalize acceptedBy env s c = accepted at heffect
    cases heffect with
    | notHeld => rfl
    | @held uuid taskType payloadSize applyFn taskId score _ hfresh =>
      by_cases hid : id = chosenId uuid taskId
      · subst hid
        simp [startOf, Call.starts, Finmap.lookup_eq_none.mpr hfresh]
      · simp [startOf, Call.starts, Finmap.lookup_insert_of_ne _ hid]
    | idle _ => rfl
    | dispatched _ => rfl
    | @started taskId taskType payloadSize nowMs =>
      by_cases hid : id = taskId
      · subst hid
        simp [startOf, Call.starts, recordStart_lookup]
      · simp [startOf, Call.starts, recordStart_lookup, hid, Ne.symm hid]
    | @completed taskId _ _ _ _ _ _ =>
      have hid : id ≠ taskId := fun heq => hends (decide_eq_true heq.symm)
      simp [startOf, Call.starts, Finmap.lookup_erase_ne hid]
    | @cleaned taskId =>
      have hid : id ≠ taskId := fun heq => hends (decide_eq_true heq.symm)
      simp [startOf, Call.starts, Finmap.lookup_erase_ne hid]

/-! ## Start times along a run -/

section Runs
variable {calls : List (CallEnv Score ApplyFn Ranker × Call ApplyFn)}
  {s₀ s : LearnedScheduler Score ApplyFn Ranker} {id : String}

/-- Without a `record_start` of the id no start time appears. -/
theorem startOf_none_run (h : Run CallStep s₀ calls s)
    (hno : ∀ a ∈ calls, a.2.starts id = none) (hstart : startOf s₀ id = none) :
    startOf s id = none := by
  induction h with
  | nil => exact hstart
  | cons hone _ ih =>
    obtain rfl := hone
    refine ih (fun a ha => hno a (List.mem_cons_of_mem _ ha)) ?_
    rw [after_startOf, hno _ List.mem_cons_self, hstart]
    simp

/-- A start time stays as long as the entry does and no other `record_start` comes. -/
theorem startOf_run (h : Run CallStep s₀ calls s) (hno : ∀ a ∈ calls, a.2.starts id = none)
    (hpresent : Throughout CallStep (fun s => id ∈ s.registry) s₀ calls) :
    startOf s id = startOf s₀ id := by
  induction h with
  | nil => rfl
  | @cons s u v a as hone hrest ih =>
    obtain rfl := hone
    have hends : ¬ a.2.ends id = true := by
      intro hends
      have hmem := hpresent [a] as _ rfl (.single rfl)
      exact not_mem_after_of_ends a.1 s hends hmem
    rw [ih (fun b hb => hno b (List.mem_cons_of_mem _ hb)), after_startOf, if_neg hends,
      hno a List.mem_cons_self, Option.none_or]
    intro bs cs t hsplit hrun
    exact hpresent (a :: bs) cs t (by rw [hsplit]; rfl) (.cons rfl hrun)

/-- `id` was started at `t`, that was its most recent `record_start`, and its registry entry has not
been absent since. -/
def StartedSince (s₀ : LearnedScheduler Score ApplyFn Ranker)
    (calls : List (CallEnv Score ApplyFn Ranker × Call ApplyFn)) (id : String) (t : ℚ) : Prop :=
  ∃ before env taskType payloadSize since u,
    calls = before ++ (env, .recordStart id taskType payloadSize t) :: since ∧
    Run CallStep s₀ (before ++ [(env, .recordStart id taskType payloadSize t)]) u ∧
    (∀ a ∈ since, a.2.starts id = none) ∧
    Throughout CallStep (fun s => id ∈ s.registry) u since

theorem StartedSince.startOf_eq {t : ℚ} (h : Run CallStep s₀ calls s)
    (hstarted : StartedSince s₀ calls id t) : startOf s id = some t := by
  obtain ⟨before, env, taskType, payloadSize, since, u, rfl, hu, hno, hpresent⟩ := hstarted
  rw [List.append_cons] at h
  obtain ⟨u', hu', hsince⟩ := h.append_inv
  obtain rfl := hu.unique callStep_deterministic hu'
  rw [startOf_run hsince hno hpresent]
  obtain ⟨m, -, hlast⟩ := hu.append_inv
  cases hlast with
  | cons hone hnil =>
    cases hnil
    obtain rfl := hone
    rw [after_startOf]
    simp [Call.ends, Call.starts]

theorem StartedSince.snoc {t : ℚ}
    {a : CallEnv Score ApplyFn Ranker × Call ApplyFn} (h : Run CallStep s₀ (calls ++ [a]) s)
    (hstarted : StartedSince s₀ calls id t) (hno : a.2.starts id = none) (hmem : id ∈ s.registry) :
    StartedSince s₀ (calls ++ [a]) id t := by
  obtain ⟨before, env, taskType, payloadSize, since, u, rfl, hu, hnone, hpresent⟩ := hstarted
  refine ⟨before, env, taskType, payloadSize, since ++ [a], u, by simp, hu, ?_, ?_⟩
  · intro b hb
    rcases List.mem_append.mp hb with hb | hb
    · exact hnone b hb
    · obtain rfl := List.mem_singleton.mp hb
      exact hno
  · refine hpresent.snoc fun v hv => ?_
    have hwhole := hu.append hv
    rw [← List.append_assoc, ← List.append_cons] at hwhole
    obtain rfl := hwhole.unique callStep_deterministic h
    exact hmem

/-- The start time in the registry is that of the most recent `record_start`, as long as the entry
has not been absent since. -/
theorem startOf_eq_some_iff (h : Run CallStep s₀ calls s) (hfresh : startOf s₀ id = none) (t : ℚ) :
    startOf s id = some t ↔ StartedSince s₀ calls id t := by
  refine ⟨fun hstart => ?_, fun hstarted => hstarted.startOf_eq h⟩
  -- from the back: the last call set the start time, or left it alone
  induction calls using List.reverseRecOn generalizing s with
  | nil =>
    cases h
    rw [hfresh] at hstart
    cases hstart
  | append_singleton calls a ih =>
    obtain ⟨m, hm, hlast⟩ := h.append_inv
    cases hlast with
    | cons hone hnil =>
      cases hnil
      obtain rfl := hone
      have hmem := mem_of_startOf hstart
      rw [after_startOf] at hstart
      split at hstart
      · cases hstart
      · cases hstarts : a.2.starts id with
        | none =>
          rw [hstarts, Option.none_or] at hstart
          exact (ih hm hstart).snoc h hstarts hmem
        | some t' =>
          rw [hstarts, Option.some_or, Option.some_inj] at hstart
          subst hstart
          obtain ⟨taskType, payloadSize, hcall⟩ := Call.starts_eq_some hstarts
          obtain ⟨env, c⟩ := a
          obtain rfl : c = _ := hcall
          refine ⟨calls, env, taskType, payloadSize, [], _, rfl, h, by simp, ?_⟩
          intro bs cs v hsplit hrun
          obtain ⟨rfl, rfl⟩ := List.append_eq_nil_iff.mp hsplit.symm
          cases hrun
          exact hmem

end Runs

/-! ## The laws of telemetry -/

/-- The clock reading that a call takes. -/
def Call.clock : Call ApplyFn → Option ℚ
  | .recordStart _ _ _ nowMs => some nowMs
  | .recordCompletion _ _ _ nowMs => some nowMs
  | _ => none

omit [LinearOrder Score] [Zero Score] in
/-- The clock never runs backwards. -/
def ClockNondecreasing (calls : List (CallEnv Score ApplyFn Ranker × Call ApplyFn)) : Prop :=
  (calls.filterMap fun a => a.2.clock).Pairwise (· ≤ ·)

omit [LinearOrder Score] [Zero Score] in
theorem ClockNondecreasing.le {before since later : List (CallEnv Score ApplyFn Ranker × Call ApplyFn)}
    {a b : CallEnv Score ApplyFn Ranker × Call ApplyFn} {t t' : ℚ}
    (h : ClockNondecreasing (before ++ a :: since ++ b :: later)) (ha : a.2.clock = some t)
    (hb : b.2.clock = some t') : t ≤ t' := by
  unfold ClockNondecreasing at h
  rw [List.filterMap_append, List.pairwise_append] at h
  refine h.2.2 t (List.mem_filterMap.mpr ⟨a, by simp, ha⟩) t' ?_
  exact List.mem_filterMap.mpr ⟨b, List.mem_cons_self, hb⟩

/-- The call gives one duration to the tracker and makes one `ranker.record`, with these values. -/
def Produces (env : CallEnv Score ApplyFn Ranker) (s : LearnedScheduler Score ApplyFn Ranker)
    (c : Call ApplyFn) (taskType : String) (payloadSize : ℤ) (actualMs : ℚ) : Prop :=
  observedBy s c = some (taskType, actualMs) ∧
    ∃ metadata, recordedBy env s c = some ⟨taskType, payloadSize, actualMs, metadata⟩

/-- The call gives nothing to the tracker and makes no `ranker.record`. -/
def ProducesNone (env : CallEnv Score ApplyFn Ranker) (s : LearnedScheduler Score ApplyFn Ranker)
    (c : Call ApplyFn) : Prop := observedBy s c = none ∧ recordedBy env s c = none

omit [LinearOrder Score] [Zero Score] in
theorem producesNone_of_startOf {s : LearnedScheduler Score ApplyFn Ranker} {taskId : String}
    (h : startOf s taskId = none) (env : CallEnv Score ApplyFn Ranker) (taskType : String)
    (payloadSize : ℤ) (nowMs : ℚ) :
    ProducesNone env s (.recordCompletion taskId taskType payloadSize nowMs) := by
  constructor
  · simp only [observedBy, h, Option.map_none]
  · unfold startOf at h
    simp only [recordedBy, LearnedScheduler.recordCompletion, LearnedScheduler.takeEntry, h]

/-- The tracker and the ranker move by what the call observes and records, and by nothing else. -/
structure Accounted (env : CallEnv Score ApplyFn Ranker) (s : LearnedScheduler Score ApplyFn Ranker)
    (c : Call ApplyFn) : Prop where
  stats : (after env s c).stats =
    (observedBy s c).elim s.stats fun observed => s.stats.record observed.1 observed.2
  ranker : (after env s c).ranker = (recordedBy env s c).elim s.ranker fun call =>
    s.ranker.map fun ranker => (env.record ranker call).1

/-- What telemetry promises about a `record_completion` that comes after the calls `before` and finds
the scheduler in state `s`. -/
structure TelemetryLaws (s₀ : LearnedScheduler Score ApplyFn Ranker)
    (before : List (CallEnv Score ApplyFn Ranker × Call ApplyFn))
    (s : LearnedScheduler Score ApplyFn Ranker) (env : CallEnv Score ApplyFn Ranker)
    (taskId taskType : String) (payloadSize : ℤ) (nowMs : ℚ) : Prop where
  accounted : Accounted env s (.recordCompletion taskId taskType payloadSize nowMs)
  recorded_iff : (recordedBy env s (.recordCompletion taskId taskType payloadSize nowMs)).isSome ↔
    ∃ t, StartedSince s₀ before taskId t
  observed_iff : (observedBy s (.recordCompletion taskId taskType payloadSize nowMs)).isSome ↔
    ∃ t, StartedSince s₀ before taskId t
  /-- The duration is the time since the most recent `record_start`, and it is not negative. -/
  duration : ∀ t, StartedSince s₀ before taskId t → 0 ≤ nowMs - t ∧
    Produces env s (.recordCompletion taskId taskType payloadSize nowMs) taskType payloadSize
      (nowMs - t)
  /-- The entry does not outlive the call, so it produces nothing again. -/
  entry_gone :
    taskId ∉ (after env s (.recordCompletion taskId taskType payloadSize nowMs)).registry
  never_started : (∀ a ∈ before, a.2.starts taskId = none) →
    ProducesNone env s (.recordCompletion taskId taskType payloadSize nowMs)
  /-- An id cleaned up or completed before, and not started again, produces nothing. -/
  ended : ∀ earlier a between, before = earlier ++ a :: between → a.2.ends taskId = true →
    (∀ b ∈ between, b.2.starts taskId = none) →
    ProducesNone env s (.recordCompletion taskId taskType payloadSize nowMs)

/-- In every sequence of calls on a shadow- or active-mode scheduler, under a clock that does not run
backwards, every `record_completion` obeys the laws of telemetry, and no other call moves the tracker or
the ranker. -/
theorem telemetry_once_per_execution {mode : SchedulerMode} (hmode : mode ≠ .fifo) (ranker : Ranker)
    (stats : TypeStatsTracker) {calls : List (CallEnv Score ApplyFn Ranker × Call ApplyFn)}
    (hclock : ClockNondecreasing calls) :
    (∀ before env taskId taskType payloadSize nowMs later s,
      calls = before ++ (env, .recordCompletion taskId taskType payloadSize nowMs) :: later →
      Run CallStep (.new mode ranker stats) before s →
      TelemetryLaws (.new mode ranker stats) before s env taskId taskType payloadSize nowMs) ∧
    ∀ before env c later s, calls = before ++ (env, c) :: later →
      Run CallStep (.new mode ranker stats) before s → c.isCompletion = false →
      (after env s c).stats = s.stats ∧ (after env s c).ranker = s.ranker := by
  refine ⟨?_, fun before env c later s _ _ hnot => after_of_not_completion env s hnot⟩
  rintro before env taskId taskType payloadSize nowMs later s rfl hrun
  have hfresh : ∀ id, startOf (.new mode ranker stats : LearnedScheduler Score ApplyFn Ranker) id =
      none := fun id => rfl
  have hranker : s.ranker.isSome := by
    refine hrun.preserves (P := fun s => s.ranker.isSome) ?_ ?_
    · intro u a v hstep hu
      obtain rfl := hstep
      rw [after_ranker]
      exact hu
    · simp [LearnedScheduler.new, hmode]
  have hstarted := startOf_eq_some_iff hrun (hfresh taskId)
  have hobserved : (observedBy s (.recordCompletion taskId taskType payloadSize nowMs :
      Call ApplyFn)).isSome ↔ ∃ t, StartedSince (.new mode ranker stats) before taskId t := by
    rw [observedBy, Option.isSome_map, Option.isSome_iff_exists]
    exact exists_congr hstarted
  refine ⟨⟨after_stats env s _, after_ranker_eq env s _⟩, ?_, hobserved, fun t ht => ⟨?_, ?_⟩, ?_,
    fun hno => ?_, ?_⟩
  · rw [recordedBy_isSome env hranker]
    exact hobserved
  · obtain ⟨earlier, env', type', payload', since, u, rfl, -⟩ := ht
    exact sub_nonneg.mpr (hclock.le rfl rfl)
  · have hstart := (hstarted t).mpr ht
    refine ⟨?_, recordedBy_eq hranker hstart taskType payloadSize nowMs⟩
    rw [observedBy, hstart]
    rfl
  · exact not_mem_after_of_ends env s (decide_eq_true rfl)
  · exact producesNone_of_startOf (startOf_none_run hrun hno (hfresh taskId)) _ _ _ _
  · rintro earlier a between rfl hends hno
    obtain ⟨u, -, hrest⟩ := hrun.append_inv
    cases hrest with
    | cons hone hbetween =>
      obtain rfl := hone
      have hnone : startOf (after a.1 u a.2) taskId = none :=
        startOf_of_not_mem (not_mem_after_of_ends a.1 u hends)
      exact producesNone_of_startOf (startOf_none_run hbetween hno hnone) _ _ _ _

/-- A shadow-mode scheduler after the `record_start` of one task. -/
def oneStart : List (CallEnv ℕ ℕ Unit × Call ℕ) := [(plainEnv, .recordStart "a" "resize" 512 2)]

theorem telemetry_once_per_execution_oneStart :
    TelemetryLaws (.new .shadow () (.new 100)) oneStart
      ((LearnedScheduler.new .shadow () (.new 100)).recordStart "a" "resize" 512 2) plainEnv
      "a" "resize" 512 7 := by
  refine (telemetry_once_per_execution (by decide) () (.new 100) ?_).1 oneStart plainEnv "a" "resize" 512
    7 [] _ rfl (.single rfl)
  show List.Pairwise (· ≤ ·) [(2 : ℚ), 7]
  norm_num

end Chronoq.Celery
