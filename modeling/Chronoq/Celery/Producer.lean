import Chronoq.Foundations.Drain
import Chronoq.Celery.Calls

/-! # `producer.py`: a batch is submitted and the heap is flushed

The producer of the Docker example submits all its jobs to a scheduler of its own and in active mode calls
`dispatch_next` until nothing is held. `_make_apply_fn` closes over the job, so the job stands for its
`apply_fn`; what the broker does with it, after the tasks it has, is arbitrary, and so is the ranker.

`ProducerEnv.sends` says what is to be sent without a heap, a registry or arrival numbers:
`producer_sends` is that `main` sends just this. -/

namespace Chronoq.Celery
open Foundations Ranker

set_option autoImplicit false

structure ProducerJob where
  taskId : String
  taskType : String
  payloadSize : ℤ
  seed : ℤ
  deriving DecidableEq, Repr

/-- `sendTask sent job` is how `send_task` of a job ends when those of `sent` are on the broker. -/
structure ProducerEnv (Score Ranker : Type) where
  predict : Ranker → TaskCandidate → QueueContext → Except PyException Score
  sendTask : List ProducerJob → ProducerJob → Except PyException Unit
  uuid : String

/-- `sent` are the keys of `submit_ts`, as they were inserted. -/
structure Producer (Score Ranker : Type) where
  scheduler : LearnedScheduler Score ProducerJob Ranker
  sent : List ProducerJob

variable {Score Ranker : Type}

/-- What `_make_apply_fn` makes of a job. -/
def ProducerEnv.apply (env : ProducerEnv Score Ranker) (job : ProducerJob) (sent : List ProducerJob) :
    List ProducerJob × Except PyException Unit :=
  match env.sendTask sent job with
  | .error exc => (sent, .error exc)
  | .ok _ => (sent ++ [job], .ok ())

def raisedBy {α : Type} : Except PyException α → Option PyException
  | .error exc => some exc
  | .ok _ => none

/-! ## The two loops of `main` -/

namespace Producer
section Submitting
variable [Zero Score]

/-- One `scheduler.submit`, which may end `main`. -/
def submit (env : ProducerEnv Score Ranker) (p : Producer Score Ranker) (job : ProducerJob) :
    Producer Score Ranker × Option PyException :=
  let ended := p.scheduler.submitIn env.predict
    (fun job sw => ((sw.1, (env.apply job sw.2).1), (env.apply job sw.2).2))
    p.sent env.uuid job.taskType job.payloadSize job (some job.taskId)
  (⟨ended.1.1, ended.1.2⟩, raisedBy ended.2)

def submitAll (env : ProducerEnv Score Ranker) (p : Producer Score Ranker) :
    List ProducerJob → Producer Score Ranker × Option PyException
  | [] => (p, none)
  | job :: jobs =>
    match p.submit env job with
    | (p, some exc) => (p, some exc)
    | (p, none) => submitAll env p jobs

end Submitting

variable [LinearOrder Score]

/-- `while scheduler.dispatch_next(): pass`; `none` if the fuel does not suffice. -/
def flush (env : ProducerEnv Score Ranker) :
    ℕ → Producer Score Ranker → Option (Producer Score Ranker × Option PyException)
  | 0, _ => none
  | fuel + 1, p =>
    let (handled, sent) := dispatchHeldIn env.apply p.scheduler p.sent
    match handled.raised with
    | some exc => some (⟨handled.scheduler, sent⟩, some exc)
    | none =>
      match handled.dispatched with
      | none => some (⟨handled.scheduler, sent⟩, none)
      | some _ => flush env fuel ⟨handled.scheduler, sent⟩

/-- `main` up to the end of the flush, from the scheduler of `_build_scheduler` on: the jobs sent, and the
exception that ends it, if one does. -/
def main [Zero Score] (env : ProducerEnv Score Ranker) (mode : SchedulerMode) (ranker : Ranker)
    (stats : TypeStatsTracker) (fuel : ℕ) (jobs : List ProducerJob) :
    Option (List ProducerJob × Option PyException) :=
  match submitAll env ⟨.new mode ranker stats, []⟩ jobs with
  | (p, some exc) => some (p.sent, some exc)
  | (p, none) =>
    if mode = .active then (p.flush env fuel).map fun ended => (ended.1.sent, ended.2)
    else some (p.sent, none)

end Producer

/-! ## What is to be sent -/

/-- Send the jobs in turn until one cannot be sent. -/
def sendAll (send : List ProducerJob → ProducerJob → Except PyException Unit) (sent : List ProducerJob) :
    List ProducerJob → List ProducerJob × Option PyException
  | [] => (sent, none)
  | job :: jobs =>
    match send sent job with
    | .error exc => (sent, some exc)
    | .ok _ => sendAll send (sent ++ [job]) jobs

def ProducerJob.candidate (job : ProducerJob) (size : ExtFloat) : TaskCandidate :=
  ⟨job.taskId, job.taskType, Finmap.singleton "payload_size" (.float size)⟩

/-- The queue as a job finds it that is submitted behind the jobs `held`. -/
def contextBehind (stats : TypeStatsTracker) (held : List ProducerJob) (taskType : String) :
    QueueContext where
  queueDepth := held.length
  queueDepthSameType := held.countP fun job => job.taskType = taskType
  recentMeanMsThisType := (stats.snapshot taskType).mean
  recentP95MsThisType := (stats.snapshot taskType).p95
  recentCountThisType := (stats.snapshot taskType).count

namespace ProducerEnv
variable (env : ProducerEnv Score Ranker) (ranker : Ranker) (stats : TypeStatsTracker)

def scoreJob (job : ProducerJob) (ctx : QueueContext) : Except PyException Score := do
  let size ← floatOfInt job.payloadSize
  env.predict ranker (job.candidate size) ctx

/-- The jobs with their scores, each scored behind those before it. -/
def scoreAll (held : List ProducerJob) : List ProducerJob → Except PyException (List (Score × ProducerJob))
  | [] => .ok []
  | job :: jobs =>
    match env.scoreJob ranker job (contextBehind stats held job.taskType) with
    | .error exc => .error exc
    | .ok score => (scoreAll (held ++ [job]) jobs).map fun scored => (score, job) :: scored

/-- In shadow mode a job is scored in front of an empty heap before it is sent. -/
def sendScored (sent : List ProducerJob) (job : ProducerJob) : Except PyException Unit :=
  match env.scoreJob ranker job (contextBehind stats [] job.taskType) with
  | .error exc => .error exc
  | .ok _ => env.sendTask sent job

def sends [LinearOrder Score] (mode : SchedulerMode) (jobs : List ProducerJob) :
    List ProducerJob × Option PyException :=
  match mode with
  | .fifo => sendAll env.sendTask [] jobs
  | .shadow => sendAll (env.sendScored ranker stats) [] jobs
  | .active =>
    match env.scoreAll ranker stats [] jobs with
    | .error exc => ([], some exc)
    | .ok scored => sendAll env.sendTask [] ((sortBy Prod.fst scored).map Prod.snd)

end ProducerEnv

/-! ## Submitting -/

/-- The entry of the job that is submitted as the `x.2`-th one, with its score. -/
def entryOf (x : (Score × ProducerJob) × ℕ) : HeapEntry Score ProducerJob :=
  ⟨x.1.1, x.2, x.1.2, x.1.2.taskId⟩

/-- The scheduler holds the jobs of `scored`, and nothing is sent. -/
structure Producer.Holds (ranker : Ranker) (stats : TypeStatsTracker)
    (scored : List (Score × ProducerJob)) (p : Producer Score Ranker) : Prop where
  mode : p.scheduler.mode = .active
  ranker : p.scheduler.ranker = some ranker
  stats : p.scheduler.stats = stats
  heap : p.scheduler.heap = (scored.zipIdx.map entryOf).reverse
  counter : p.scheduler.arrivalCounter = scored.length
  registered : ∀ x ∈ scored,
    p.scheduler.registry.lookup x.2.taskId = some ⟨x.2.taskType, x.2.payloadSize, none⟩
  fresh : ∀ id, id ∉ scored.map (fun x => x.2.taskId) → id ∉ p.scheduler.registry
  sent : p.sent = []

namespace Producer
variable {ranker : Ranker} {stats : TypeStatsTracker} {scored : List (Score × ProducerJob)}
  {p : Producer Score Ranker} {job : ProducerJob}

theorem holds_new : Holds ranker stats [] (⟨.new .active ranker stats, []⟩ : Producer Score Ranker) where
  mode := rfl
  ranker := rfl
  stats := rfl
  heap := rfl
  counter := rfl
  registered := fun _ hx => by cases hx
  fresh := fun _ _ => Finmap.notMem_empty
  sent := rfl

/-- A job is scored as the one behind those that are held. -/
theorem Holds.scoreContext_eq (h : Holds ranker stats scored p) (taskType : String) :
    p.scheduler.scoreContext taskType = contextBehind stats (scored.map Prod.snd) taskType := by
  have hdepth : p.scheduler.heap.length = (scored.map Prod.snd).length := by
    rw [h.heap, List.length_reverse, List.length_map, List.length_zipIdx, List.length_map]
  have hsame : p.scheduler.sameTypeCount taskType =
      (scored.map Prod.snd).countP fun job => job.taskType = taskType := by
    rw [LearnedScheduler.sameTypeCount, h.heap, List.countP_reverse, List.countP_map, List.countP_map]
    have hfst : scored.countP ((fun job : ProducerJob => decide (job.taskType = taskType)) ∘ Prod.snd) =
        scored.zipIdx.countP (fun x => decide (x.1.2.taskType = taskType)) := by
      conv_lhs => rw [← List.zipIdx_map_fst 0 scored, List.countP_map]
      rfl
    rw [hfst]
    apply List.countP_congr
    intro x hx
    have hmem : x.1 ∈ scored := List.fst_mem_of_mem_zipIdx hx
    simp [entryOf, h.registered x.1 hmem]
  rw [LearnedScheduler.scoreContext, contextBehind, LearnedScheduler.queueDepth, hdepth, hsame, h.stats]

variable [Zero Score]

theorem Holds.score_eq (h : Holds ranker stats scored p) (env : ProducerEnv Score Ranker)
    (job : ProducerJob) : p.scheduler.score env.predict job.taskId job.taskType job.payloadSize =
      env.scoreJob ranker job (contextBehind stats (scored.map Prod.snd) job.taskType) := by
  rw [LearnedScheduler.score, h.ranker]
  dsimp only
  rw [h.scoreContext_eq]
  rfl

theorem chosenId_some {uuid id : String} (h : id ≠ "") : chosenId uuid (some id) = id := if_neg h

/-- How the scheduler answers the submission of a job. -/
theorem Holds.active_submit (h : Holds ranker stats scored p) (env : ProducerEnv Score Ranker)
    (hid : job.taskId ≠ "") :
    ∃ ended, ActiveSubmit env.predict p.scheduler job.taskId job.taskType job.payloadSize job ended ∧
      p.submit env job = (⟨ended.1, p.sent⟩, raisedBy ended.2) := by
  obtain ⟨ended, hactive, hsubmit⟩ := submitIn_active env.predict
    (fun job sw => ((sw.1, (env.apply job sw.2).1), (env.apply job sw.2).2)) h.mode p.sent env.uuid
    job.taskType job.payloadSize job (some job.taskId)
  rw [chosenId_some hid] at hactive
  exact ⟨ended, hactive, by rw [Producer.submit, hsubmit]⟩

theorem Holds.submit_unscored (h : Holds ranker stats scored p) (env : ProducerEnv Score Ranker)
    (hid : job.taskId ≠ "") {exc : PyException}
    (hscore : env.scoreJob ranker job
      (contextBehind stats (scored.map Prod.snd) job.taskType) = .error exc) :
    p.submit env job = (p, some exc) := by
  obtain ⟨ended, hactive, hsubmit⟩ := h.active_submit env hid
  have hscore' := (h.score_eq env job).trans hscore
  rw [hsubmit]
  cases hactive with
  | unscored hscored =>
    cases hscore'.symm.trans hscored
    rfl
  | refused hscored => cases hscore'.symm.trans hscored
  | accepted hscored => cases hscore'.symm.trans hscored

theorem Holds.submit_scored (h : Holds ranker stats scored p) (env : ProducerEnv Score Ranker)
    (hid : job.taskId ≠ "") (hnew : job.taskId ∉ scored.map fun x => x.2.taskId) {score : Score}
    (hscore : env.scoreJob ranker job
      (contextBehind stats (scored.map Prod.snd) job.taskType) = .ok score) :
    ∃ p', p.submit env job = (p', none) ∧ Holds ranker stats (scored ++ [(score, job)]) p' := by
  obtain ⟨ended, hactive, hsubmit⟩ := h.active_submit env hid
  have hscore' := (h.score_eq env job).trans hscore
  rw [hsubmit]
  cases hactive with
  | unscored hscored => cases hscore'.symm.trans hscored
  | refused _ hregistered => exact absurd hregistered (h.fresh _ hnew)
  | accepted hscored hfresh =>
    cases hscore'.symm.trans hscored
    refine ⟨_, rfl, ?_⟩
    exact {
      mode := h.mode
      ranker := h.ranker
      stats := h.stats
      heap := by
        rw [List.zipIdx_append, List.map_append, List.reverse_append, ← h.heap, h.counter, Nat.zero_add]
        rfl
      counter := by rw [List.length_append, h.counter]; rfl
      registered := by
        intro x hx
        rcases List.mem_append.mp hx with hx | hx
        · have hne : x.2.taskId ≠ job.taskId := fun heq =>
            hnew (List.mem_map.mpr ⟨x, hx, heq⟩)
          rw [Finmap.lookup_insert_of_ne _ hne]
          exact h.registered x hx
        · obtain rfl := List.mem_singleton.mp hx
          exact Finmap.lookup_insert _
      fresh := by
        intro id hid
        rw [List.map_append, List.mem_append, not_or] at hid
        rw [Finmap.mem_insert, not_or]
        exact ⟨fun heq => hid.2 (List.mem_singleton.mpr heq), h.fresh id hid.1⟩
      sent := h.sent }

/-- All jobs are submitted, or the first that cannot be scored ends the loop. -/
theorem Holds.submitAll (h : Holds ranker stats scored p) (env : ProducerEnv Score Ranker)
    {jobs : List ProducerJob} (hids : ∀ job ∈ jobs, job.taskId ≠ "")
    (hnd : ((scored.map Prod.snd ++ jobs).map ProducerJob.taskId).Nodup) :
    (∃ exc p', env.scoreAll ranker stats (scored.map Prod.snd) jobs = .error exc ∧
        p.submitAll env jobs = (p', some exc) ∧ p'.sent = []) ∨
      ∃ added p', env.scoreAll ranker stats (scored.map Prod.snd) jobs = .ok added ∧
        p.submitAll env jobs = (p', none) ∧ Holds ranker stats (scored ++ added) p' := by
  induction jobs generalizing p scored with
  | nil => exact .inr ⟨[], p, rfl, rfl, by rw [List.append_nil]; exact h⟩
  | cons job jobs ih =>
    have hid := hids job List.mem_cons_self
    have hnew : job.taskId ∉ scored.map fun x => x.2.taskId := by
      rw [List.map_append, List.nodup_append] at hnd
      intro hmem
      obtain ⟨x, hx, heq⟩ := List.mem_map.mp hmem
      have hold : x.2.taskId ∈ (scored.map Prod.snd).map ProducerJob.taskId :=
        List.mem_map_of_mem (List.mem_map_of_mem hx)
      exact hnd.2.2 _ hold _ List.mem_cons_self heq
    cases hscore : env.scoreJob ranker job
        (contextBehind stats (scored.map Prod.snd) job.taskType) with
    | error exc =>
      refine .inl ⟨exc, p, ?_, ?_, h.sent⟩
      · rw [ProducerEnv.scoreAll, hscore]
      · rw [Producer.submitAll, h.submit_unscored env hid hscore]
    | ok score =>
      obtain ⟨p', hsubmit, h'⟩ := h.submit_scored env hid hnew hscore
      have hheld : (scored ++ [(score, job)]).map Prod.snd = scored.map Prod.snd ++ [job] := by
        rw [List.map_append]
        rfl
      have hrest := ih h' (fun job hmem => hids job (List.mem_cons_of_mem _ hmem))
        (by rw [hheld, List.append_assoc]; exact hnd)
      rw [hheld] at hrest
      rw [ProducerEnv.scoreAll, hscore, Producer.submitAll, hsubmit]
      rcases hrest with ⟨exc, p'', hfails, hended, hsent⟩ | ⟨added, p'', hscored, hended, hholds⟩
      · exact .inl ⟨exc, p'', by rw [hfails]; rfl, hended, hsent⟩
      · refine .inr ⟨(score, job) :: added, p'', by rw [hscored]; rfl, hended, ?_⟩
        rw [List.append_cons]
        exact hholds

/-! ## Submitting out of active mode -/

/-- The producer after it tried to send a job at once. -/
def tried (s : LearnedScheduler Score ProducerJob Ranker) (sent : List ProducerJob) (job : ProducerJob) :
    Except PyException Unit → Producer Score Ranker × Option PyException
  | .error exc => (⟨s, sent⟩, some exc)
  | .ok _ => (⟨s, sent ++ [job]⟩, none)

theorem submitAll_eq_sendAll {env : ProducerEnv Score Ranker}
    {send : List ProducerJob → ProducerJob → Except PyException Unit}
    {s : LearnedScheduler Score ProducerJob Ranker} {jobs : List ProducerJob}
    (h : ∀ job ∈ jobs, ∀ sent,
      Producer.submit env ⟨s, sent⟩ job = tried s sent job (send sent job)) (sent : List ProducerJob) :
    submitAll env ⟨s, sent⟩ jobs =
      (⟨s, (sendAll send sent jobs).1⟩, (sendAll send sent jobs).2) := by
  induction jobs generalizing sent with
  | nil => rfl
  | cons job jobs ih =>
    rw [submitAll, h job List.mem_cons_self, sendAll]
    cases send sent job with
    | error exc => rfl
    | ok _ => exact ih (fun job hmem => h job (List.mem_cons_of_mem _ hmem)) (sent ++ [job])

variable (env : ProducerEnv Score Ranker) (ranker : Ranker) (stats : TypeStatsTracker)
  (sent : List ProducerJob)

theorem submit_fifo (job : ProducerJob) :
    Producer.submit env ⟨.new .fifo ranker stats, sent⟩ job =
      tried (.new .fifo ranker stats) sent job (env.sendTask sent job) := by
  rw [Producer.submit, submitIn_eq]
  simp only [LearnedScheduler.new, ProducerEnv.apply]
  cases env.sendTask sent job with
  | error exc => rfl
  | ok _ => rfl

theorem submit_shadow {job : ProducerJob} (hid : job.taskId ≠ "") :
    Producer.submit env ⟨.new .shadow ranker stats, sent⟩ job =
      tried (.new .shadow ranker stats) sent job (env.sendScored ranker stats sent job) := by
  have hscore : (LearnedScheduler.new .shadow ranker stats : LearnedScheduler Score ProducerJob Ranker).score
      env.predict job.taskId job.taskType job.payloadSize =
      env.scoreJob ranker job (contextBehind stats [] job.taskType) := rfl
  rw [Producer.submit, submitIn_eq, chosenId_some hid, ProducerEnv.sendScored]
  simp only [LearnedScheduler.new] at hscore ⊢
  rw [hscore]
  cases env.scoreJob ranker job (contextBehind stats [] job.taskType) with
  | error exc => rfl
  | ok score =>
    dsimp only [ProducerEnv.apply]
    cases env.sendTask sent job with
    | error exc => rfl
    | ok _ => rfl

end Producer

/-! ## Flushing -/

section Flushing
variable [LinearOrder Score]

theorem Producer.flush_eq (env : ProducerEnv Score Ranker) {fuel : ℕ} {p : Producer Score Ranker}
    (hfuel : p.scheduler.heap.length < fuel) :
    (p.flush env fuel).map (fun ended => (ended.1.sent, ended.2)) =
      some (sendAll env.sendTask p.sent
        ((sortBy HeapEntry.key p.scheduler.heap).map HeapEntry.applyFn)) := by
  induction fuel generalizing p with
  | zero => exact absurd hfuel (Nat.not_lt_zero _)
  | succ fuel ih =>
    rw [Producer.flush, dispatchHeldIn, LearnedScheduler.pop]
    cases hleast : extractLeast HeapEntry.key p.scheduler.heap with
    | none =>
      rw [(extractLeast_eq_none_iff _).mp hleast]
      rfl
    | some least =>
      obtain ⟨e, rest⟩ := least
      have hlength := (extractLeast_perm _ hleast).length_eq
      rw [List.length_cons] at hlength
      rw [sortBy_extractLeast _ hleast, List.map_cons, sendAll]
      dsimp only [Option.map_some, ProducerEnv.apply]
      cases env.sendTask p.sent e.applyFn with
      | error exc => rfl
      | ok _ => exact ih (by dsimp only; omega)

/-- The entries of the heap come out in stable order of the scores. -/
theorem map_applyFn_sortBy (scored : List (Score × ProducerJob)) :
    (sortBy HeapEntry.key (scored.zipIdx.map entryOf).reverse).map HeapEntry.applyFn =
      (sortBy Prod.fst scored).map Prod.snd := by
  have hnumbered : scored.zipIdx.Pairwise fun x y => x.2 < y.2 := by
    have hrange : (scored.zipIdx.map Prod.snd).Pairwise (· < ·) := by
      rw [List.zipIdx_map_snd]
      exact List.pairwise_lt_range'
    exact List.pairwise_map.mp hrange
  have hkeys : ((scored.zipIdx.map entryOf).reverse.map HeapEntry.key).Nodup := by
    rw [List.map_reverse, List.nodup_reverse, List.map_map, List.nodup_iff_pairwise_ne,
      List.pairwise_map]
    refine hnumbered.imp fun {x y} hlt heq => ?_
    have hseq : x.2 = y.2 := congrArg (fun k : Score ×ₗ ℕ => (ofLex k).2) heq
    omega
  rw [sortBy_eq_of_perm HeapEntry.key (List.reverse_perm _) hkeys, ← map_sortBy]
  have hlex : sortBy (fun x : (Score × ProducerJob) × ℕ => (entryOf x).key) scored.zipIdx =
      sortBy (fun x => x.1.1) scored.zipIdx :=
    sortBy_numbered (fun x : (Score × ProducerJob) × ℕ => x.1.1) hnumbered
  have hjobs := map_sortBy (Prod.fst : Score × ProducerJob → Score) Prod.fst scored.zipIdx
  rw [List.zipIdx_map_fst] at hjobs
  rw [hlex, ← hjobs, List.map_map, List.map_map]
  rfl

end Flushing

/-! ## What the producer sends -/

theorem scoreAll_map_snd {env : ProducerEnv Score Ranker} {ranker : Ranker} {stats : TypeStatsTracker}
    {held jobs : List ProducerJob} {scored : List (Score × ProducerJob)}
    (h : env.scoreAll ranker stats held jobs = .ok scored) : scored.map Prod.snd = jobs := by
  induction jobs generalizing held scored with
  | nil =>
    cases h
    rfl
  | cons job jobs ih =>
    rw [ProducerEnv.scoreAll] at h
    cases hscore : env.scoreJob ranker job (contextBehind stats held job.taskType) with
    | error exc =>
      rw [hscore] at h
      cases h
    | ok score =>
      rw [hscore] at h
      cases hrest : env.scoreAll ranker stats (held ++ [job]) jobs with
      | error exc =>
        rw [hrest] at h
        cases h
      | ok rest =>
        rw [hrest] at h
        cases h
        rw [List.map_cons, ih hrest]

theorem sendAll_all {send : List ProducerJob → ProducerJob → Except PyException Unit}
    {sent jobs sent' : List ProducerJob} (h : sendAll send sent jobs = (sent', none)) :
    sent' = sent ++ jobs := by
  induction jobs generalizing sent with
  | nil =>
    cases h
    rw [List.append_nil]
  | cons job jobs ih =>
    rw [sendAll] at h
    cases hsend : send sent job with
    | error exc =>
      rw [hsend] at h
      cases h
    | ok _ =>
      rw [hsend] at h
      rw [ih h, List.append_assoc]
      rfl

variable [LinearOrder Score]

theorem sends_perm {env : ProducerEnv Score Ranker} {ranker : Ranker} {stats : TypeStatsTracker}
    {mode : SchedulerMode} {jobs sent : List ProducerJob}
    (h : env.sends ranker stats mode jobs = (sent, none)) : sent.Perm jobs := by
  cases mode with
  | fifo => exact List.Perm.of_eq (sendAll_all h)
  | shadow => exact List.Perm.of_eq (sendAll_all h)
  | active =>
    rw [ProducerEnv.sends] at h
    cases hscored : env.scoreAll ranker stats [] jobs with
    | error exc =>
      rw [hscored] at h
      cases h
    | ok scored =>
      rw [hscored] at h
      rw [sendAll_all h, List.nil_append, ← scoreAll_map_snd hscored]
      exact (sortBy_perm Prod.fst scored).map Prod.snd

theorem main_eq_sends [Zero Score] (env : ProducerEnv Score Ranker) (mode : SchedulerMode)
    (ranker : Ranker) (stats : TypeStatsTracker) {jobs : List ProducerJob}
    (hids : ∀ job ∈ jobs, job.taskId ≠ "") (hnd : (jobs.map ProducerJob.taskId).Nodup) {fuel : ℕ}
    (hfuel : jobs.length < fuel) :
    Producer.main env mode ranker stats fuel jobs = some (env.sends ranker stats mode jobs) := by
  rw [Producer.main]
  cases mode with
  | fifo =>
    rw [Producer.submitAll_eq_sendAll fun job _ sent => Producer.submit_fifo env ranker stats sent job,
      ProducerEnv.sends]
    cases sendAll env.sendTask [] jobs with
    | mk sent raised =>
      cases raised with
      | none => rfl
      | some exc => rfl
  | shadow =>
    rw [Producer.submitAll_eq_sendAll fun job hjob sent =>
      Producer.submit_shadow env ranker stats sent (hids job hjob), ProducerEnv.sends]
    cases sendAll (env.sendScored ranker stats) [] jobs with
    | mk sent raised =>
      cases raised with
      | none => rfl
      | some exc => rfl
  | active =>
    have hnew : Producer.Holds ranker stats []
        (⟨.new .active ranker stats, []⟩ : Producer Score Ranker) := Producer.holds_new
    rcases hnew.submitAll env hids hnd with
      ⟨exc, p, hfails, hended, hsent⟩ | ⟨scored, p, hscored, hended, hholds⟩
    · rw [List.map_nil] at hfails
      rw [hended, ProducerEnv.sends, hfails]
      dsimp only
      rw [hsent]
    · rw [List.map_nil] at hscored
      have hheap : p.scheduler.heap = (scored.zipIdx.map entryOf).reverse := hholds.heap
      have hlength : p.scheduler.heap.length = jobs.length := by
        rw [hheap, List.length_reverse, List.length_map, List.length_zipIdx,
          ← scoreAll_map_snd hscored, List.length_map]
      rw [hended, ProducerEnv.sends, hscored]
      dsimp only
      rw [if_pos rfl, Producer.flush_eq env (by omega), hheap, map_applyFn_sortBy, hholds.sent]

/-- In every mode the producer sends what `sends` says: in active mode in stable order of the scores, each
job scored behind those before it. A batch without an exception is sent whole, every job once. -/
theorem producer_sends [Zero Score] (env : ProducerEnv Score Ranker) (mode : SchedulerMode)
    (ranker : Ranker) (stats : TypeStatsTracker) {jobs : List ProducerJob}
    (hids : ∀ job ∈ jobs, job.taskId ≠ "") (hnd : (jobs.map ProducerJob.taskId).Nodup) {fuel : ℕ}
    (hfuel : jobs.length < fuel) :
    Producer.main env mode ranker stats fuel jobs = some (env.sends ranker stats mode jobs) ∧
      ((env.sends ranker stats mode jobs).2 = none →
        (env.sends ranker stats mode jobs).1.Perm jobs) :=
  ⟨main_eq_sends env mode ranker stats hids hnd hfuel, fun hnone => sends_perm (Prod.ext rfl hnone)⟩

/-- A transcode ahead of two resizes. -/
def threeJobs : List ProducerJob :=
  [⟨"a", "transcode", 2048, 7⟩, ⟨"b", "resize", 512, 8⟩, ⟨"c", "resize", 512, 9⟩]

/-- Scores by task type, and a broker that takes every task. -/
def byType : ProducerEnv ℕ Unit where
  predict _ candidate _ := .ok (if candidate.taskType = "resize" then 1 else 2)
  sendTask _ _ := .ok ()
  uuid := "d"

theorem producer_sends_threeJobs :
    (Producer.main byType .active () (.new 100) 4 threeJobs).map
        (fun r => (r.1.map ProducerJob.taskId, r.2)) = some (["b", "c", "a"], none) := by
  have hmain := (producer_sends byType .active () (.new 100)
    (show ∀ job ∈ threeJobs, job.taskId ≠ "" by decide) (by decide) (show threeJobs.length < 4 by decide)).1
  rw [hmain]
  decide +kernel

end Chronoq.Celery
