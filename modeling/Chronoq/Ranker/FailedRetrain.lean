import Chronoq.Ranker.ConcurrentRetrain
import Chronoq.Ranker.Versions

/-! # A `retrain` that raises

`retrain` installs what its fit returns and only then stores the reference of the drift detector: it
empties the old one and fills the new one column by column, from every record, whereas the fit has
extracted those of valid groups only. A call that raises before its swap leaves the model and the
reference alone. One that raises after it has installed a new model.

* `Unreadable`: a batch of which `setReference` cannot store every column.
* `TaskRanker.ReferenceFails`: the fit is accepted, and storing the reference raises.
* `KeepsServing`: the object that is installed, its model and the reference are the same.
* `failed_retrain_keeps_serving_iff`: a call that raises keeps them unless its reference fails.
* `unreadable_column_dropped`: the reference that is left has lost a column. -/

namespace Chronoq.Ranker
open Foundations

set_option autoImplicit false

/-! ## Storing a reference -/

namespace DriftDetector
variable {d : DriftDetector} {records : List TaskRecord}

/-- The value of a record in a column. -/
def valueOf (d : DriftDetector) (record : TaskRecord) (col : String) :
    Except PyException ExtFloat := do
  let fdict ← d.extractor.extractFromRecord record
  entryAt fdict col

/-- The batch has a record without an array entry in one of the numeric columns. -/
def Unreadable (d : DriftDetector) (records : List TaskRecord) : Prop :=
  ∃ col ∈ d.extractor.numeric, ∃ record ∈ records, ∃ exc, d.valueOf record col = .error exc

theorem columnValues_error_iff (col : String) :
    (∃ exc, d.columnValues records col = .error exc) ↔
      ∃ record ∈ records, ∃ exc, d.valueOf record col = .error exc :=
  exists_mapM_error_iff

theorem storeColumns_error_iff (cols : List String) (reference : List (String × List ExtFloat)) :
    (∃ exc, (d.storeColumns records cols reference).2 = .error exc) ↔
      ∃ col ∈ cols, ∃ exc, d.columnValues records col = .error exc := by
  induction cols generalizing reference with
  | nil => simp [storeColumns]
  | cons col cols ih =>
    rw [storeColumns, List.exists_mem_cons_iff]
    cases hvalues : d.columnValues records col with
    | error exc => exact iff_of_true ⟨exc, rfl⟩ (.inl ⟨exc, rfl⟩)
    | ok values =>
      rw [ih]
      constructor
      · exact .inr
      · rintro (⟨exc, hexc⟩ | h)
        · cases hexc
        · exact h

theorem setReference_error_iff :
    (∃ exc, (d.setReference records).2 = .error exc) ↔ d.Unreadable records := by
  unfold setReference Unreadable
  split
  · next hempty =>
    subst hempty
    simp
  · rw [storeColumns_error_iff]
    simp only [columnValues_error_iff]

/-- After a failure no later check looks at the column that could not be read. -/
theorem unreadable_column_dropped (h : d.Unreadable records) :
    ∃ col ∈ d.extractor.numeric,
      col ∉ (d.setReference records).1.reference.map Prod.fst := by
  obtain ⟨col, hcol, record, hrecord, hexc⟩ := h
  refine ⟨col, hcol, fun hmem => ?_⟩
  rw [setReference, if_neg (List.ne_nil_of_mem hrecord)] at hmem
  obtain ⟨entry, hentry, rfl⟩ := List.mem_map.mp hmem
  have hreadable := storeColumns_values records d.extractor.numeric [] (by simp) entry hentry
  exact exists_error_iff.mp (columnValues_error_iff entry.1 |>.mpr ⟨record, hrecord, hexc⟩)
    ⟨entry.2, hreadable⟩

end DriftDetector

/-! ## The swap -/

namespace TaskRanker
variable {r : TaskRanker} {env : RankerEnv}

theorem driftChecked_detector (r : TaskRanker) (env : RankerEnv) :
    (r.driftChecked env).driftDetector.reference = r.driftDetector.reference ∧
      (r.driftChecked env).driftDetector.extractor = r.driftDetector.extractor := by
  unfold driftChecked checkDrift orFault
  split
  · exact ⟨rfl, rfl⟩
  · exact r.driftDetector.check_fixed env.numpy r.store

/-- Storing the reference of this batch raises. -/
def ReferenceRaises (r : TaskRanker) (env : RankerEnv) : Prop :=
  env.faults.setReference ≠ none ∨ r.driftDetector.Unreadable r.store

/-- The call gets through its fit, which trains a LambdaRank model that is not rejected, and then cannot
store the reference. -/
structure ReferenceFails (r : TaskRanker) (env : RankerEnv) : Prop where
  accepted : ∃ l metrics, r.swapsIn env = some (.lambdarank l, metrics) ∧ metrics.rejected = false
  raises : r.ReferenceRaises env

theorem updateReference_error_iff (r : TaskRanker) (env : RankerEnv) (records : List TaskRecord)
    (rejected : Bool) :
    (∃ exc, (r.updateReference env records rejected).2 = .error exc) ↔
      (∃ l, r.estimator = .lambdarank l) ∧ rejected = false ∧
        (env.faults.setReference ≠ none ∨ r.driftDetector.Unreadable records) := by
  unfold updateReference
  split
  · next l hl =>
    cases rejected with
    | true => simp
    | false =>
      simp only [Bool.false_eq_true, if_false, hl, orFault]
      split
      · next exc hfault => simp [hfault]
      · next hfault => simp [hfault, DriftDetector.setReference_error_iff]
  · next hother =>
    constructor
    · rintro ⟨exc, hexc⟩
      cases hexc
    · rintro ⟨⟨l, hl⟩, -, -⟩
      exact absurd hl (hother l)

/-- A call swaps nothing in and raises, with the model and the reference as they were; or it swaps an
estimator in, and after that does nothing but store the reference. -/
theorem retrain_swap_cases (r : TaskRanker) (env : RankerEnv) :
    (r.swapsIn env = none ∧ (∃ exc, (r.retrain env).2 = .error exc) ∧
        r.estimator.SameModel (r.retrain env).1.estimator ∧
        (r.retrain env).1.driftDetector.reference = r.driftDetector.reference) ∨
      ∃ (r₁ : TaskRanker) (metrics : FitMetrics), r.swapsIn env = some (r₁.estimator, metrics) ∧
        (metrics.rejected = false → r.estimator.TrainedFrom env.stamp r₁.estimator) ∧
        r₁.driftDetector.extractor = r.driftDetector.extractor ∧
        r.retrain env = ((r₁.updateReference env r.store metrics.rejected).1.settle env,
          (r₁.updateReference env r.store metrics.rejected).2.map fun _ =>
            retrainResult r.estimator.modelType r₁.estimator metrics) := by
  unfold swapsIn
  obtain ⟨exc, hgetAll, hretrain⟩ | ⟨exc, hgetAll, hraises, hretrain⟩ |
    ⟨hgetAll, hraises, hretrain⟩ := r.retrain_cases env
  · rw [hretrain, hgetAll]
    exact .inl ⟨rfl, ⟨exc, rfl⟩, .refl _, rfl⟩
  · rw [hretrain, hgetAll, hraises]
    exact .inl ⟨rfl, ⟨exc, rfl⟩, .refl _, (r.driftChecked_detector env).1⟩
  · rw [hretrain, hgetAll, hraises]
    have hnames := (r.driftChecked env).newEstimator_names env r.store
    have hdetector := (r.driftChecked env).newEstimator_detector env r.store
    unfold refit
    generalize (r.driftChecked env).newEstimator env r.store = fitted at hnames hdetector ⊢
    obtain ⟨r₁, exc | ⟨e, metrics⟩⟩ := fitted
    · cases hnames with
      | failed hsame =>
        refine .inl ⟨rfl, ⟨exc, rfl⟩, hsame, ?_⟩
        exact (congrArg DriftDetector.reference hdetector).trans (r.driftChecked_detector env).1
    · refine .inr ⟨{ r₁ with estimator := e }, metrics, rfl, fun hkept => ?_, ?_, rfl⟩
      · cases hnames with
        | rejected hrejected hsame =>
          rw [hkept] at hrejected
          cases hrejected
        | accepted hrejected htrained => exact htrained
      · exact (congrArg DriftDetector.extractor hdetector).trans (r.driftChecked_detector env).2

theorem retrain_of_not_swapped (h : r.swapsIn env = none) :
    r.estimator.SameModel (r.retrain env).1.estimator ∧
      (r.retrain env).1.driftDetector.reference = r.driftDetector.reference := by
  obtain ⟨-, -, hkept⟩ | ⟨r₁, metrics, hswap, -⟩ := r.retrain_swap_cases env
  · exact hkept
  · rw [h] at hswap
    cases hswap

section Swapped
variable {e : Estimator} {metrics : FitMetrics}

theorem retrain_of_swapped (h : r.swapsIn env = some (e, metrics)) :
    ∃ r₁ : TaskRanker, r₁.estimator = e ∧
      (metrics.rejected = false → r.estimator.TrainedFrom env.stamp e) ∧
      r₁.driftDetector.extractor = r.driftDetector.extractor ∧
      r.retrain env = ((r₁.updateReference env r.store metrics.rejected).1.settle env,
        (r₁.updateReference env r.store metrics.rejected).2.map fun _ =>
          retrainResult r.estimator.modelType e metrics) := by
  obtain ⟨hnone, -⟩ | ⟨r₁, metrics', hswap, hrest⟩ := r.retrain_swap_cases env
  · rw [h] at hnone
    cases hnone
  · rw [h] at hswap
    cases hswap
    exact ⟨r₁, rfl, hrest⟩

theorem retrain_estimator_of_swapped (h : r.swapsIn env = some (e, metrics)) :
    (r.retrain env).1.estimator = e := by
  obtain ⟨r₁, rfl, -, -, hretrain⟩ := retrain_of_swapped h
  rw [hretrain]
  exact updateReference_estimator r₁ env r.store metrics.rejected

/-- It then raises exactly if it has a reference to store and cannot. -/
theorem retrain_error_iff_of_swapped (h : r.swapsIn env = some (e, metrics)) :
    (∃ exc, (r.retrain env).2 = .error exc) ↔
      (∃ l, e = .lambdarank l) ∧ metrics.rejected = false ∧ r.ReferenceRaises env := by
  obtain ⟨r₁, rfl, -, hextractor, hretrain⟩ := retrain_of_swapped h
  have hunreadable :
      r₁.driftDetector.Unreadable r.store ↔ r.driftDetector.Unreadable r.store := by
    simp only [DriftDetector.Unreadable, DriftDetector.valueOf, hextractor]
  rw [hretrain, ReferenceRaises, ← hunreadable, ← updateReference_error_iff]
  exact exists_map_error_iff

end Swapped

/-- The reference that a record without an entry in some column leaves has lost a column, so the checks
of later retrains skip it. -/
theorem ReferenceFails.column_dropped (h : r.ReferenceFails env)
    (hfault : env.faults.setReference = none) :
    ∃ col ∈ r.driftDetector.extractor.numeric,
      col ∉ (r.retrain env).1.driftDetector.reference.map Prod.fst := by
  obtain ⟨l, metrics, hswap, hkept⟩ := h.accepted
  obtain ⟨r₁, hl, -, hextractor, hretrain⟩ := retrain_of_swapped hswap
  have hunreadable : r₁.driftDetector.Unreadable r.store := by
    simpa only [DriftDetector.Unreadable, DriftDetector.valueOf, hextractor]
      using h.raises.resolve_left (not_not_intro hfault)
  rw [hretrain, ← hextractor]
  simpa only [settle, updateReference, hl, hkept, Bool.false_eq_true, if_false, orFault, hfault]
    using DriftDetector.unreadable_column_dropped hunreadable

end TaskRanker

/-- A newly trained LambdaRank model is not the model that was there. -/
theorem Estimator.TrainedFrom.not_sameModel {stamp : String} {before : Estimator}
    {l : LambdaRankEstimator} (h : before.TrainedFrom stamp (.lambdarank l)) :
    ¬ before.SameModel (.lambdarank l) := by
  intro hsame
  cases h with
  | created hbefore hname => exact hbefore hsame.modelType.symm
  | refitted hbefore hname =>
    subst hbefore
    have hcounter := hname.counter
    cases hsame with
    | refl => omega
    | refit hsame =>
      have hsame := hsame.counter
      omega

/-! ## What a call that raises leaves -/

/-- The model and the reference after a call that raises are those before it, unless the reference could
not be stored. -/
theorem TaskRanker.retrain_keeps_iff {r : TaskRanker} {env : RankerEnv}
    (h : ∃ exc, (r.retrain env).2 = .error exc) :
    (r.estimator.SameModel (r.retrain env).1.estimator ∧
        (r.retrain env).1.driftDetector.reference = r.driftDetector.reference) ↔
      ¬ r.ReferenceFails env := by
  cases hswap : r.swapsIn env with
  | none =>
    refine iff_of_true (retrain_of_not_swapped hswap) fun hfails => ?_
    obtain ⟨l, metrics, hsome, -⟩ := hfails.accepted
    rw [hswap] at hsome
    cases hsome
  | some swapped =>
    obtain ⟨e, metrics⟩ := swapped
    obtain ⟨⟨l, rfl⟩, hkept, hreference⟩ := (retrain_error_iff_of_swapped hswap).mp h
    refine iff_of_false ?_ (not_not_intro ⟨⟨l, metrics, hswap, hkept⟩, hreference⟩)
    rintro ⟨hsame, -⟩
    rw [retrain_estimator_of_swapped hswap] at hsame
    obtain ⟨-, -, htrained, -⟩ := retrain_of_swapped hswap
    exact (htrained hkept).not_sameModel hsame

namespace SharedRanker
variable {Call : Type} {s t : SharedRanker Call} {i : Call} {env : RankerEnv}

/-- What predictions and later drift checks are served from: the installed object, its model and the
reference. A failed fit of an installed LambdaRank estimator may still have changed its encoder. -/
structure KeepsServing (s t : SharedRanker Call) : Prop where
  object : t.installed = s.installed
  model : (s.objects s.installed).estimator.SameModel (t.objects t.installed).estimator
  reference : t.driftDetector.reference = s.driftDetector.reference

variable [DecidableEq Call]

/-- A call that has returned or raised takes no further step. -/
theorem not_steps_of_outcome {result : Except PyException RetrainResult}
    (h : (s.calls i).outcome = some result) : ¬ Steps s (.advance i env) t := by
  unfold Steps step
  cases hphase : s.calls i with
  | raised exc => simp [hphase]
  | ended records metrics result => simp [hphase]
  | ready => simp [hphase, Phase.outcome] at h
  | fetched records => simp [hphase, Phase.outcome] at h
  | holding records source previousType => simp [hphase, Phase.outcome] at h
  | checked records source previousType => simp [hphase, Phase.outcome] at h
  | fitted records target metrics previousType => simp [hphase, Phase.outcome] at h
  | swapped records target metrics previousType => simp [hphase, Phase.outcome] at h

/-- A call has one end. -/
theorem Alone.unique {u : SharedRanker Call} {result result' : Except PyException RetrainResult}
    (h : Alone i env s t) (h' : Alone i env s u) (ht : (t.calls i).outcome = some result)
    (hu : (u.calls i).outcome = some result') : t = u := by
  obtain ⟨n, hrun⟩ := h
  obtain ⟨m, hrun'⟩ := h'
  induction n generalizing s m with
  | zero =>
    cases hrun
    cases m with
    | zero =>
      cases hrun'
      rfl
    | succ m =>
      cases hrun' with
      | cons hstep hrest => exact absurd hstep (not_steps_of_outcome ht)
  | succ n ih =>
    cases hrun with
    | cons hstep hrest =>
      cases m with
      | zero =>
        cases hrun'
        exact absurd hstep (not_steps_of_outcome hu)
      | succ m =>
        cases hrun' with
        | cons hstep' hrest' =>
          obtain rfl := Steps.unique _ _ _ _ hstep hstep'
          exact ih hrest m hrest'

/-- A call that raises keeps the installed object, its model and the reference, unless the reference
could not be stored: then it has installed a new model. -/
theorem failed_retrain_keeps_serving_iff {exc : PyException} (hready : s.calls i = .ready)
    (halone : Alone i env s t) (hraised : (t.calls i).outcome = some (.error exc)) :
    KeepsServing s t ↔ ¬ (s.view s.store s.installed).ReferenceFails env := by
  obtain ⟨t', halone', hview, houtcome, hinstalled⟩ := retrain_alone_installed env hready
  obtain rfl := halone.unique halone' hraised houtcome
  rw [hraised, Option.some.injEq] at houtcome
  have hkeeps := TaskRanker.retrain_keeps_iff ⟨exc, houtcome.symm⟩
  rw [← hview] at hkeeps
  constructor
  · rintro ⟨-, hmodel, hreference⟩
    exact hkeeps.mp ⟨hmodel, hreference⟩
  · intro hfails
    obtain ⟨hmodel, hreference⟩ := hkeeps.mpr hfails
    refine ⟨?_, hmodel, hreference⟩
    rw [hinstalled]
    cases hswap : (s.view s.store s.installed).swapsIn env with
    | none => rfl
    | some swapped =>
      -- a call that gets through its swap raises in nothing but the reference
      obtain ⟨e, metrics⟩ := swapped
      obtain ⟨⟨l, rfl⟩, hkept, hreference⟩ :=
        (TaskRanker.retrain_error_iff_of_swapped hswap).mp ⟨exc, houtcome.symm⟩
      exact absurd ⟨⟨l, metrics, hswap, hkept⟩, hreference⟩ hfails

/-! ## A record that training skips -/

open TaskRanker (fresh sampleEnv)

/-- An extractor that hands on the queue depth of a record as it is. -/
def legacyExtractor : FeatureExtractor :=
  { plainExtractor with
    numeric := ["payload_size", "hour_of_day", "queue_depth"]
    extractFromRecord := fun record => .ok (legacyExtractTrainingFeatures record) }

/-- The only record of its group. -/
def loneRecord : TaskRecord :=
  { sampleRecord "resize" "solo" 3 with metadata := Finmap.singleton "queue_depth" (.str "n/a") }

def smallGroups : RankerConfig := { coldStartThreshold := 3, minGroups := 1 }

/-- A group of two records and the lone one. -/
def mixedStore : List TaskRecord := labelled "batch" "resize" "resize" ++ [loneRecord]

/-- A ranker that has never been retrained. -/
def coldRanker : TaskRanker := fresh smallGroups legacyExtractor mixedStore

/-- The same ranker before the one call that there is. -/
def coldCall : SharedRanker Unit := start coldRanker 0

theorem readable_legacyFeatures (taskType : String) {payloadSize : ℤ}
    (hsmall : payloadSize.natAbs < 2 ^ 53) (t : Instant) :
    Readable (legacyFeatures taskType payloadSize (hourOf t) none) := by
  intro col hcol
  refine floatAt_dictOf ?_
  simp only [List.forall_mem_cons, List.not_mem_nil, false_implies, implies_true, and_true]
  refine ⟨?_, ?_, ?_, ?_⟩ <;> intro heq <;> subst heq
  · exact absurd hcol (show "task_type" ∉ numericCols by decide)
  · exact ⟨_, floatOfInt_small hsmall⟩
  · exact ⟨_, floatOfInt_hourOf t⟩
  · exact ⟨_, floatOfInt_small (n := 0) (by decide)⟩

/-- The fit reads the group of two. -/
theorem prepares_mixedStore : Prepares legacyExtractor mixedStore := by
  have hrows : (rowRecords mixedStore).flatten = labelled "batch" "resize" "resize" := by decide
  intro r hr
  rw [hrows] at hr
  obtain ⟨hmetadata, hsmall⟩ := plain_labelled _ _ _ r hr
  refine ⟨legacyExtractTrainingFeatures r, rfl, ?_⟩
  rw [legacyExtractTrainingFeatures, hmetadata, Finmap.lookup_empty]
  exact readable_legacyFeatures _ hsmall _

/-- The text is no number. -/
theorem lone_queueDepth {d : DriftDetector} (h : d.extractor = legacyExtractor) :
    d.valueOf loneRecord "queue_depth" = .error (.raised "ValueError") := by
  rw [DriftDetector.valueOf, h]
  rfl

/-- The first fit is accepted, and the lone record has no number under `queue_depth`. -/
theorem coldRanker_referenceFails : coldRanker.ReferenceFails (sampleEnv {}) where
  accepted := by
    obtain ⟨metrics, hfit⟩ := fitOrDegrade_of_groups smallGroups TaskRanker.sampleEnv_trains
      (l := .new smallGroups legacyExtractor) prepares_mixedStore (by decide)
    have htrained := congrArg Prod.snd hfit
    have hnew : (coldRanker.newEstimator (sampleEnv {}) mixedStore).2 = _ := htrained
    have hswap : coldRanker.swapsIn (sampleEnv {}) =
        (coldRanker.newEstimator (sampleEnv {}) mixedStore).2.toOption := rfl
    rw [hnew] at hswap
    have hheuristic : (Estimator.heuristic {}).modelType ≠ .lambdarank := by decide
    exact ⟨_, metrics, hswap, (fitOrDegrade_new_names hheuristic htrained).1⟩
  raises := .inr ⟨"queue_depth", by decide, loneRecord, List.mem_append_right _ (by simp), _,
    lone_queueDepth rfl⟩

/-- What is stored of the reference before the column that cannot be read. -/
theorem setReference_mixedStore {d : DriftDetector} (h : d.extractor = legacyExtractor) :
    (d.setReference mixedStore).1.reference.map Prod.fst = ["payload_size", "hour_of_day"] := by
  have hsmall : ∀ r ∈ mixedStore, r.payloadSize.natAbs < 2 ^ 53 := by decide
  obtain ⟨sizes, hsizes⟩ : ∃ values, d.columnValues mixedStore "payload_size" = .ok values := by
    refine exists_mapM_ok fun r hr => ?_
    have hsize : floatAt (legacyExtractTrainingFeatures r) "payload_size" = _ :=
      (legacy_floatAt_payloadSize ..).trans (floatOfInt_small (hsmall r hr))
    rw [h]
    exact ⟨_, entryAt_of_floatAt hsize⟩
  obtain ⟨hours, hhours⟩ : ∃ values, d.columnValues mixedStore "hour_of_day" = .ok values := by
    refine exists_mapM_ok fun r hr => ?_
    have hhour : floatAt (legacyExtractTrainingFeatures r) "hour_of_day" = _ :=
      (legacy_floatAt_hourOfDay ..).trans (floatOfInt_hourOf _)
    rw [h]
    exact ⟨_, entryAt_of_floatAt hhour⟩
  obtain ⟨exc, hdepths⟩ : ∃ exc, d.columnValues mixedStore "queue_depth" = .error exc :=
    (d.columnValues_error_iff "queue_depth").mpr ⟨loneRecord, List.mem_append_right _ (by simp), _, lone_queueDepth h⟩
  rw [DriftDetector.setReference, if_neg (by decide), h]
  simp only [legacyExtractor, DriftDetector.storeColumns, hsizes, hhours, hdepths]
  rfl

theorem failed_retrain_keeps_serving_iff_lone_record :
    ∃ t, Alone () (sampleEnv {}) coldCall t ∧
      (KeepsServing coldCall t ↔ ¬ coldRanker.ReferenceFails (sampleEnv {})) := by
  obtain ⟨t, halone, -, houtcome⟩ := retrain_alone (s := coldCall) (i := ()) (sampleEnv {}) rfl
  obtain ⟨l, metrics, hswap, hkept⟩ := coldRanker_referenceFails.accepted
  obtain ⟨exc, hraised⟩ := (TaskRanker.retrain_error_iff_of_swapped hswap).mpr
    ⟨⟨l, rfl⟩, hkept, coldRanker_referenceFails.raises⟩
  exact ⟨t, halone, failed_retrain_keeps_serving_iff rfl halone (houtcome.trans (congrArg some hraised))⟩

/-- The first fit is accepted, the lone record has no number under `queue_depth`: the call raises with
the new object installed and a reference that lacks this column. -/
theorem lone_record_installs_model :
    ∃ t exc, Alone () (sampleEnv {}) coldCall t ∧ (t.calls ()).outcome = some (.error exc) ∧
      t.installed ≠ coldCall.installed ∧
      t.driftDetector.reference.map Prod.fst = ["payload_size", "hour_of_day"] ∧
      ¬ KeepsServing coldCall t := by
  obtain ⟨t, halone, hview, houtcome, hinstalled⟩ :=
    retrain_alone_installed (s := coldCall) (i := ()) (sampleEnv {}) rfl
  have hcall : coldCall.view coldCall.store coldCall.installed = coldRanker := rfl
  obtain ⟨l, metrics, hswap, hkept⟩ := coldRanker_referenceFails.accepted
  obtain ⟨exc, hraised⟩ := (TaskRanker.retrain_error_iff_of_swapped hswap).mpr
    ⟨⟨l, rfl⟩, hkept, coldRanker_referenceFails.raises⟩
  obtain ⟨r₁, hl, -, hextractor, hretrain⟩ := TaskRanker.retrain_of_swapped hswap
  rw [hcall] at hview houtcome hinstalled
  have hmoved : t.installed ≠ coldCall.installed := by
    rw [hinstalled, hswap]
    exact Option.some_ne_none ()
  refine ⟨t, exc, halone, houtcome.trans (congrArg some hraised), hmoved, ?_,
    fun hkeeps => hmoved hkeeps.object⟩
  have hdetector : t.driftDetector = (r₁.driftDetector.setReference mixedStore).1 := by
    have hview := congrArg TaskRanker.driftDetector hview
    rw [hretrain] at hview
    simp only [TaskRanker.settle, TaskRanker.updateReference, hl, hkept, Bool.false_eq_true,
      if_false] at hview
    exact hview
  rw [hdetector]
  exact setReference_mixedStore hextractor

end SharedRanker

end Chronoq.Ranker
