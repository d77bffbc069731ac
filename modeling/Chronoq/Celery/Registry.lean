import Chronoq.Celery.Calls

/-! # Heap and registry

Only `submit` and `dispatch_next` edit the heap; the registry is edited by `submit`, `record_start`,
`record_completion` and `cleanup_registry`. `HeapRegistryAgree` says that held ids are distinct and
registered as they were submitted. Every call keeps it, except a `record_completion` or
`cleanup_registry` of an id that is still held: that one takes the id's entry out of the registry and
leaves the task in the heap, where the next `submit` of the id is no longer refused. -/

namespace Chronoq.Celery
open Foundations Ranker

set_option autoImplicit false

variable {Score ApplyFn Ranker : Type}

/-! ## A scheduler and what it has accepted -/

/-- A scheduler with the submissions it has accepted, in order: the one with arrival number `n` is
at position `n`. No call reads `accepted`. -/
structure Gate (Score ApplyFn Ranker : Type) where
  sched : LearnedScheduler Score ApplyFn Ranker
  accepted : List (Submission Score ApplyFn)

/-- A scheduler just constructed in active mode. -/
def Gate.initial (ranker : Ranker) (stats : TypeStatsTracker) : Gate Score ApplyFn Ranker :=
  ⟨.new .active ranker stats, []⟩

def heldIds (s : LearnedScheduler Score ApplyFn Ranker) : List String :=
  s.heap.map HeapEntry.taskId

/-- The submission that put `e` into the heap. -/
def Gate.submissionOf (g : Gate Score ApplyFn Ranker) (e : HeapEntry Score ApplyFn) :
    Option (Submission Score ApplyFn) := g.accepted[e.seq]?

/-- The number of held tasks that were submitted as `taskType`. -/
def Gate.heldOfType (g : Gate Score ApplyFn Ranker) (taskType : String) : ℕ :=
  g.sched.heap.countP fun e => (g.submissionOf e).map Submission.taskType = some taskType

structure HeapRegistryAgree (g : Gate Score ApplyFn Ranker) : Prop where
  active : g.sched.mode = .active
  numbered : g.accepted.length = g.sched.arrivalCounter
  distinct : (heldIds g.sched).Nodup
  registered : ∀ e ∈ g.sched.heap, ∃ sub startMs, g.submissionOf e = some sub ∧
    sub.taskId = e.taskId ∧
    g.sched.registry.lookup e.taskId = some ⟨sub.taskType, sub.payloadSize, startMs⟩

theorem HeapRegistryAgree.initial (ranker : Ranker) (stats : TypeStatsTracker) :
    HeapRegistryAgree (Gate.initial ranker stats : Gate Score ApplyFn Ranker) where
  active := rfl
  numbered := rfl
  distinct := List.nodup_nil
  registered _ he := absurd he List.not_mem_nil

theorem mem_heldIds {s : LearnedScheduler Score ApplyFn Ranker} {id : String} :
    id ∈ heldIds s ↔ ∃ e ∈ s.heap, e.taskId = id := List.mem_map

theorem HeapRegistryAgree.mem_registry {g : Gate Score ApplyFn Ranker} (hagree : HeapRegistryAgree g)
    {id : String} (hheld : id ∈ heldIds g.sched) : id ∈ g.sched.registry := by
  obtain ⟨e, he, rfl⟩ := mem_heldIds.mp hheld
  obtain ⟨sub, startMs, -, -, hlookup⟩ := hagree.registered e he
  exact Finmap.mem_of_lookup_eq_some hlookup

/-! ## What agreement is good for -/

/-- The registry gives every held task the type it was submitted with. -/
theorem HeapRegistryAgree.registered_type {g : Gate Score ApplyFn Ranker}
    (hagree : HeapRegistryAgree g) {e : HeapEntry Score ApplyFn} (he : e ∈ g.sched.heap) :
    ∃ sub, g.submissionOf e = some sub ∧
      (g.sched.registry.lookup e.taskId).map RegistryEntry.taskType = some sub.taskType := by
  obtain ⟨sub, startMs, hsub, -, hlookup⟩ := hagree.registered e he
  exact ⟨sub, hsub, by rw [hlookup]; rfl⟩

theorem HeapRegistryAgree.sameTypeDepth_eq {g : Gate Score ApplyFn Ranker}
    (hagree : HeapRegistryAgree g) (taskType : String) :
    g.sched.sameTypeDepth taskType = g.heldOfType taskType := by
  refine List.countP_congr fun e he => ?_
  obtain ⟨sub, hsub, htype⟩ := hagree.registered_type he
  simp [hsub, htype]

theorem HeapRegistryAgree.sameTypeCount_eq {g : Gate Score ApplyFn Ranker}
    (hagree : HeapRegistryAgree g) (taskType : String) :
    g.sched.sameTypeCount taskType = g.heldOfType taskType := by
  refine List.countP_congr fun e he => ?_
  obtain ⟨sub, hsub, htype⟩ := hagree.registered_type he
  simp [hsub, htype]

theorem completionMetadata_sameType (s : LearnedScheduler Score ApplyFn Ranker) (taskType : String) :
    (s.completionMetadata taskType).lookup "queue_depth_same_type" =
      some (.int (s.sameTypeDepth taskType)) := by
  simp [LearnedScheduler.completionMetadata]

/-- The metadata of a completion is taken when the completed id has left the registry and its
duration is in the statistics. -/
theorem recordCompletion_recorded {record : Ranker → RecordCall → Ranker × Except PyException Unit}
    {s : LearnedScheduler Score ApplyFn Ranker} {taskId taskType : String} {payloadSize : ℤ}
    {nowMs : ℚ} {call : RecordCall}
    (h : (s.recordCompletion record taskId taskType payloadSize nowMs).recorded = some call) :
    ∃ stats, call.metadata =
      ({ s with registry := s.registry.erase taskId, stats := stats } :
        LearnedScheduler Score ApplyFn Ranker).completionMetadata taskType := by
  unfold LearnedScheduler.recordCompletion at h
  simp only [LearnedScheduler.takeEntry] at h
  split at h
  · cases h
  · split at h
    · cases h
    · cases h
      exact ⟨_, rfl⟩

section Laws
variable [Zero Score]

/-- What the rest of the scheduler takes for granted about heap and registry. -/
structure GateLaws (g : Gate Score ApplyFn Ranker) : Prop where
  agree : HeapRegistryAgree g
  /-- A held id cannot be submitted again: nothing changes, and unless scoring already raised, the
  error is the `ValueError` about that id. -/
  refused : ∀ (env : CallEnv Score ApplyFn Ranker) uuid taskType payloadSize applyFn taskId,
    chosenId uuid taskId ∈ heldIds g.sched →
    ∃ exc, g.sched.submit env.predict env.effect uuid taskType payloadSize applyFn taskId =
        (g.sched, .error exc) ∧
      ∀ score, g.sched.score env.predict (chosenId uuid taskId) taskType payloadSize = .ok score →
        exc = .taskIdAlreadyRegistered (chosenId uuid taskId)
  scored : ∀ taskType, (g.sched.scoreContext taskType).queueDepthSameType = g.heldOfType taskType
  completed : ∀ (env : CallEnv Score ApplyFn Ranker) taskId taskType payloadSize nowMs call,
    taskId ∉ heldIds g.sched →
    (g.sched.recordCompletion env.record taskId taskType payloadSize nowMs).recorded = some call →
    call.metadata.lookup "queue_depth_same_type" = some (.int (g.heldOfType taskType))

end Laws

/-! ## Taking an entry out of the registry -/

/-- Erasing an id keeps the agreement exactly when no held task has that id. -/
theorem HeapRegistryAgree.erase_iff {g : Gate Score ApplyFn Ranker} (hagree : HeapRegistryAgree g)
    (id : String) (stats : TypeStatsTracker) (ranker : Option Ranker) :
    HeapRegistryAgree
      ⟨{ g.sched with registry := g.sched.registry.erase id, stats := stats, ranker := ranker },
        g.accepted⟩ ↔ id ∉ heldIds g.sched := by
  constructor
  · intro hagree' hheld
    have hmem : id ∈ g.sched.registry.erase id := hagree'.mem_registry hheld
    exact Finmap.notMem_erase_self hmem
  · intro hspared
    refine ⟨hagree.active, hagree.numbered, hagree.distinct, fun e he => ?_⟩
    obtain ⟨sub, startMs, hsub, hid, hlookup⟩ := hagree.registered e he
    have hne : e.taskId ≠ id := fun heq => hspared (heq ▸ mem_heldIds.mpr ⟨e, he, rfl⟩)
    refine ⟨sub, startMs, hsub, hid, ?_⟩
    show (g.sched.registry.erase id).lookup e.taskId = _
    rw [Finmap.lookup_erase_ne hne]
    exact hlookup

variable [Zero Score]

theorem HeapRegistryAgree.laws {g : Gate Score ApplyFn Ranker} (hagree : HeapRegistryAgree g) :
    GateLaws g where
  agree := hagree
  refused env uuid taskType payloadSize applyFn taskId hheld := by
    have hregistered : chosenId uuid taskId ∈ g.sched.registry := hagree.mem_registry hheld
    have hsubmit := submit_active env hagree.active uuid taskType payloadSize applyFn taskId
    generalize g.sched.submit env.predict env.effect uuid taskType payloadSize applyFn taskId = r
      at hsubmit ⊢
    cases hsubmit with
    | unscored hscore =>
      refine ⟨_, rfl, fun score hok => ?_⟩
      rw [hscore] at hok
      cases hok
    | refused _ _ => exact ⟨_, rfl, fun _ _ => rfl⟩
    | accepted _ hfresh => exact absurd hregistered hfresh
  scored taskType := by
    show ((g.sched.sameTypeCount taskType : ℕ) : ℤ) = _
    rw [hagree.sameTypeCount_eq]
  completed env taskId taskType payloadSize nowMs call hspared hrecorded := by
    obtain ⟨stats, hmetadata⟩ := recordCompletion_recorded hrecorded
    have hafter := (hagree.erase_iff taskId stats g.sched.ranker).mpr hspared
    rw [hmetadata, completionMetadata_sameType]
    exact congrArg (fun n : ℕ => some (PyValue.int n)) (hafter.sameTypeDepth_eq taskType)

/-! ## Calls -/

variable [LinearOrder Score]

def Gate.after (g : Gate Score ApplyFn Ranker) (a : CallEnv Score ApplyFn Ranker × Call ApplyFn) :
    Gate Score ApplyFn Ranker :=
  ⟨Celery.after a.1 g.sched a.2, g.accepted ++ (acceptedBy a.1 g.sched a.2).toList⟩

def GateStep (g : Gate Score ApplyFn Ranker) (a : CallEnv Score ApplyFn Ranker × Call ApplyFn)
    (g' : Gate Score ApplyFn Ranker) : Prop := g.after a = g'

omit [Zero Score] [LinearOrder Score] in
/-- The call does not take the registry entry of a held id. -/
def SparesHeld (g : Gate Score ApplyFn Ranker) (a : CallEnv Score ApplyFn Ranker × Call ApplyFn) :
    Prop :=
  match a.2 with
  | .recordCompletion taskId _ _ _ => taskId ∉ heldIds g.sched
  | .cleanupRegistry taskId => taskId ∉ heldIds g.sched
  | _ => True

omit [Zero Score] [LinearOrder Score] in
theorem HeapRegistryAgree.push {g : Gate Score ApplyFn Ranker} (hagree : HeapRegistryAgree g)
    (sub : Submission Score ApplyFn) (hfresh : sub.taskId ∉ g.sched.registry) :
    HeapRegistryAgree
      ⟨{ g.sched with
          heap := ⟨sub.score, g.sched.arrivalCounter, sub.applyFn, sub.taskId⟩ :: g.sched.heap
          arrivalCounter := g.sched.arrivalCounter + 1
          registry := g.sched.registry.insert sub.taskId ⟨sub.taskType, sub.payloadSize, none⟩ },
        g.accepted ++ [sub]⟩ where
  active := hagree.active
  numbered := by simp [hagree.numbered]
  distinct := by
    refine List.nodup_cons.mpr ⟨fun hheld => hfresh (hagree.mem_registry hheld), hagree.distinct⟩
  registered e he := by
    rcases List.mem_cons.mp he with rfl | he
    · refine ⟨sub, none, ?_, rfl, Finmap.lookup_insert _⟩
      simp [Gate.submissionOf, ← hagree.numbered]
    · obtain ⟨old, startMs, hold, hid, hlookup⟩ := hagree.registered e he
      have hne : e.taskId ≠ sub.taskId := fun heq =>
        hfresh (heq ▸ Finmap.mem_of_lookup_eq_some hlookup)
      refine ⟨old, startMs, ?_, hid, ?_⟩
      · show (g.accepted ++ [sub])[e.seq]? = some old
        rw [List.getElem?_append_left (List.getElem?_eq_some_iff.mp hold).1]
        exact hold
      · show (g.sched.registry.insert _ _).lookup e.taskId = _
        rw [Finmap.lookup_insert_of_ne _ hne]
        exact hlookup

omit [Zero Score] in
theorem HeapRegistryAgree.pop {g : Gate Score ApplyFn Ranker} (hagree : HeapRegistryAgree g)
    {e : HeapEntry Score ApplyFn} {rest : List (HeapEntry Score ApplyFn)}
    (hleast : extractLeast HeapEntry.key g.sched.heap = some (e, rest)) :
    HeapRegistryAgree ⟨{ g.sched with heap := rest }, g.accepted⟩ := by
  have hperm : g.sched.heap.Perm (e :: rest) := extractLeast_perm _ hleast
  refine ⟨hagree.active, hagree.numbered, ?_, fun e' he' => ?_⟩
  · have hnodup := (hperm.map HeapEntry.taskId).nodup_iff.mp hagree.distinct
    exact (List.nodup_cons.mp hnodup).2
  · exact hagree.registered e' (hperm.mem_iff.mpr (List.mem_cons_of_mem e he'))

omit [Zero Score] [LinearOrder Score] in
theorem HeapRegistryAgree.recordStart {g : Gate Score ApplyFn Ranker} (hagree : HeapRegistryAgree g)
    (taskId taskType : String) (payloadSize : ℤ) (nowMs : ℚ) :
    HeapRegistryAgree ⟨g.sched.recordStart taskId taskType payloadSize nowMs, g.accepted⟩ := by
  obtain ⟨hmode, hheap, hcounter⟩ :=
    recordStart_frame g.sched taskId taskType payloadSize nowMs
  refine ⟨hmode.trans hagree.active, hagree.numbered.trans hcounter.symm, ?_, fun e he => ?_⟩
  · rw [heldIds, hheap]
    exact hagree.distinct
  · rw [hheap] at he
    obtain ⟨sub, startMs, hsub, hid, hlookup⟩ := hagree.registered e he
    rw [recordStart_lookup]
    by_cases h : e.taskId = taskId
    · subst h
      exact ⟨sub, some nowMs, hsub, hid, by rw [if_pos rfl, hlookup]; rfl⟩
    · exact ⟨sub, startMs, hsub, hid, by rw [if_neg h, hlookup]⟩

/-- One call keeps the agreement exactly when it spares the registry entries of held ids. -/
theorem HeapRegistryAgree.after_iff {g : Gate Score ApplyFn Ranker} (hagree : HeapRegistryAgree g)
    (a : CallEnv Score ApplyFn Ranker × Call ApplyFn) :
    HeapRegistryAgree (g.after a) ↔ SparesHeld g a := by
  obtain ⟨env, c⟩ := a
  have heffect := call_effect env g.sched c
  unfold Gate.after
  dsimp only
  generalize acceptedBy env g.sched c = accepted at heffect ⊢
  generalize Celery.after env g.sched c = s' at heffect ⊢
  cases heffect with
  | notHeld => simpa [SparesHeld] using hagree
  | @held uuid taskType payloadSize applyFn taskId score _ hfresh =>
    have hpush := hagree.push ⟨chosenId uuid taskId, taskType, payloadSize, applyFn, score⟩ hfresh
    exact iff_of_true hpush trivial
  | idle _ => simpa [SparesHeld] using hagree
  | dispatched hleast => exact iff_of_true (by simpa using hagree.pop hleast) trivial
  | started => exact iff_of_true (by simpa using hagree.recordStart _ _ _ _) trivial
  | completed _ => simpa [SparesHeld] using hagree.erase_iff _ _ _
  | cleaned => simpa [SparesHeld] using hagree.erase_iff _ g.sched.stats g.sched.ranker

/-! ## Runs -/

/-- In every sequence of active-mode calls, each with whatever scoring, recording and `apply_fn`s it
meets: heap and registry agree in every state reached exactly when no `record_completion` and no
`cleanup_registry` is called for an id that is held. -/
theorem heap_registry_agree_iff (ranker : Ranker) (stats : TypeStatsTracker)
    {calls : List (CallEnv Score ApplyFn Ranker × Call ApplyFn)} {g : Gate Score ApplyFn Ranker}
    (h : Run GateStep (Gate.initial ranker stats) calls g) :
    Throughout GateStep GateLaws (Gate.initial ranker stats) calls ↔
      EveryStep GateStep SparesHeld (Gate.initial ranker stats) calls := by
  refine throughout_iff_everyStep ?_ ?_ h (HeapRegistryAgree.initial ranker stats).laws
  · intro g a t t' ht ht'
    exact ht.symm.trans ht'
  · intro g a g' hstep hlaws
    obtain rfl : g.after a = g' := hstep
    rw [← hlaws.agree.after_iff a]
    exact ⟨GateLaws.agree, HeapRegistryAgree.laws⟩

/-! ## A cleanup of a held id -/

/-- Task "a" is submitted, cleaned up while it is held, and submitted again. -/
def cleanedWhileHeld : List (CallEnv ℕ ℕ Unit × Call ℕ) :=
  [(plainEnv, .submit "u0" "resize" 512 0 (some "a")), (plainEnv, .cleanupRegistry "a"),
    (plainEnv, .submit "u1" "resize" 512 1 (some "a"))]

def gateAfter (calls : List (CallEnv ℕ ℕ Unit × Call ℕ)) : Gate ℕ ℕ Unit :=
  calls.foldl Gate.after (Gate.initial () (.new 100))

theorem cleanedWhileHeld_run :
    Run GateStep (Gate.initial () (.new 100)) cleanedWhileHeld (gateAfter cleanedWhileHeld) :=
  .cons rfl (.cons rfl (.cons rfl (.nil _)))

theorem heap_registry_agree_iff_cleanedWhileHeld :
    Throughout GateStep GateLaws (Gate.initial () (.new 100)) cleanedWhileHeld ↔
      EveryStep GateStep SparesHeld (Gate.initial () (.new 100)) cleanedWhileHeld :=
  heap_registry_agree_iff () (.new 100) cleanedWhileHeld_run

/-- The id that was cleaned up while it was held is accepted a second time and held twice. -/
theorem cleanup_of_held_id_breaks_agreement :
    ¬ ∀ (calls : List (CallEnv ℕ ℕ Unit × Call ℕ)) (g : Gate ℕ ℕ Unit),
      Run GateStep (Gate.initial () (.new 100)) calls g →
        Throughout GateStep GateLaws (Gate.initial () (.new 100)) calls := by
  intro hall
  have hlaws := hall _ _ cleanedWhileHeld_run _ [] _ (List.append_nil _).symm cleanedWhileHeld_run
  have htwice : heldIds (gateAfter cleanedWhileHeld).sched = ["a", "a"] := by decide +kernel
  have hdistinct := hlaws.agree.distinct
  rw [htwice] at hdistinct
  simp at hdistinct

end Chronoq.Celery
