import Chronoq.Ranker.ConcurrentPredict

/-! # Is a prediction atomic with respect to a concurrent refit?

The class says that a concurrent prediction sees the previous model until the new one is swapped in.
The model is one pointer, but a prediction reads three things of the instance (the model, the
category codes and the version) and a fit changes them in three steps.

* `PredictInterleaving k`: the eleven steps of a retrain and those of a prediction that reads `k`
  versions, in any order.
* `CodesChange`: what a refit does to the codes that a call reads. A full refit rebuilds the encoder,
  an incremental one extends it, and an extension leaves the codes of known values alone.
* `IsAtomic`: for each of these, the model is read after the new one is installed, or the codes are
  read in time and all versions before the new model is installed.
* `result_of_late`, `result_of_early`: then the call returns what it returns entirely after or
  entirely before the retrain. -/

namespace Chronoq.Ranker
open Foundations

set_option autoImplicit false

/-! ## Interleavings -/

/-- Left steps are those of the retrain. -/
structure PredictInterleaving (k : ℕ) where
  steps : List Side
  retrain_steps : steps.count .left = 11
  predict_steps : steps.count .right = 5 + k

namespace PredictInterleaving
variable {k : ℕ}

/-- How many steps the retrain has taken when the prediction takes its step `n`. -/
def retrainedBefore (w : PredictInterleaving k) (n : ℕ) : ℕ := takenBefore .left w.steps n

def result (w : PredictInterleaving k) (e : LambdaRankEstimator) (i : FitInput)
    (call : PredictCall) : Except PyException Response :=
  call.answer (execFrom (retrainStep i) (predictStep (call.featureDicts e.extractor)) 0 0 w.steps
    (call.start e)).predict

end PredictInterleaving

/-- What a refit does to the codes that a call reads. -/
inductive CodesChange
  /-- The extractor raises, and nothing of the instance is changed. -/
  | untouched
  /-- The values of the refit have codes already, or those of the call do. -/
  | kept
  | extended
  | rebuilt
  deriving DecidableEq, Repr

def LambdaRankEstimator.codesChange (e : LambdaRankEstimator) (i : FitInput) (call : PredictCall) :
    CodesChange :=
  match featureRows e.extractor i.records with
  | .error _ => .untouched
  | .ok fdicts =>
    if e.fullRefitDue then .rebuilt
    else if e.encoder.Knows fdicts ∨ e.encoder.Knows (call.featureDicts e.extractor) then .kept
    else .extended

namespace PredictInterleaving
variable {k : ℕ}

/-- Step `2` of a prediction gives codes to its new values and step `3` reads them; the encoder is
rebuilt in step `3` of a retrain and extended in step `4`. -/
def CodesInTime (w : PredictInterleaving k) : CodesChange → Prop
  | .untouched => True
  | .kept => True
  | .extended => w.retrainedBefore 2 ≤ 4
  | .rebuilt => w.retrainedBefore 3 ≤ 3

instance (w : PredictInterleaving k) : (change : CodesChange) → Decidable (w.CodesInTime change)
  | .untouched => inferInstanceAs (Decidable True)
  | .kept => inferInstanceAs (Decidable True)
  | .extended => inferInstanceAs (Decidable (_ ≤ _))
  | .rebuilt => inferInstanceAs (Decidable (_ ≤ _))

/-- Step `1` of a prediction reads the model and the last one a version; a retrain installs the new
model in step `8`. -/
def IsAtomic (w : PredictInterleaving k) (change : CodesChange) : Prop :=
  change = .untouched ∨ k = 0 ∨ 8 < w.retrainedBefore 1 ∨
    (w.CodesInTime change ∧ w.retrainedBefore (4 + k) ≤ 8)

instance (w : PredictInterleaving k) (change : CodesChange) : Decidable (w.IsAtomic change) :=
  inferInstanceAs (Decidable (_ ∨ _))

end PredictInterleaving

/-- The retrain calls `fit` on the instance and does not install another estimator in its place. -/
def Refits (e : LambdaRankEstimator) (i : FitInput) : Prop :=
  e.config.coldStartThreshold ≤ i.records.length ∧
    ¬ (e.config.allowDegrade = true ∧
      ∃ exc, (e.fit i.env i.records).2 = .error exc ∧ exc.isInsufficientGroupsError = true)

/-! ## What a prediction reads and writes -/

/-- Everything of the instance that a prediction uses. -/
def SameView (e e' : LambdaRankEstimator) : Prop :=
  e.model = e'.model ∧ e.encoder = e'.encoder ∧ e.versionStr = e'.versionStr

theorem SameView.refl (e : LambdaRankEstimator) : SameView e e := ⟨rfl, rfl, rfl⟩

theorem SameView.trans {e e' e'' : LambdaRankEstimator} (h : SameView e e') (h' : SameView e' e'') :
    SameView e e'' :=
  ⟨h.1.trans h'.1, h.2.1.trans h'.2.1, h.2.2.trans h'.2.2⟩

section Predict
variable {features : List FeatureDict}

theorem predictStep_congr {s s' : Shared} (hview : SameView s.est s'.est)
    (ht : s.predict = s'.predict) (n : ℕ) :
    SameView (predictStep features n s).est (predictStep features n s').est ∧
      (predictStep features n s).predict = (predictStep features n s').predict := by
  obtain ⟨hmodel, hencoder, hversion⟩ := hview
  cases hraised : s.predict.raised with
  | some exc =>
    have hraised' : s'.predict.raised = some exc := by rw [← ht, hraised]
    rw [predictStep_of_raised (by rw [hraised]; rfl), predictStep_of_raised (by rw [hraised']; rfl)]
    exact ⟨⟨hmodel, hencoder, hversion⟩, ht⟩
  | none =>
    have hraised' : s'.predict.raised = none := by rw [← ht, hraised]
    rw [predictStep_of_ok hraised, predictStep_of_ok hraised', ht]
    cases predictAction n with
    | readEstimator => exact ⟨⟨hmodel, hencoder, hversion⟩, rfl⟩
    | readModel => exact ⟨⟨hmodel, hencoder, hversion⟩, by simp only [PredictThread.effect, hmodel]⟩
    | extendEncoder =>
      refine ⟨?_, rfl⟩
      simp only [PredictThread.effect]
      split
      · exact ⟨hmodel, by rw [hencoder], hversion⟩
      · exact ⟨hmodel, hencoder, hversion⟩
    | encodeRows =>
      refine ⟨⟨hmodel, hencoder, hversion⟩, ?_⟩
      simp only [PredictThread.effect, PredictThread.encodeRows, hencoder]
    | score => exact ⟨⟨hmodel, hencoder, hversion⟩, rfl⟩
    | readVersion =>
      refine ⟨⟨hmodel, hencoder, hversion⟩, ?_⟩
      simp only [PredictThread.effect, LambdaRankEstimator.version, hversion]

/-- Up to the reading of the codes a prediction depends on the model, and then on the rows. -/
theorem predictStep_congr_early {s s' : Shared} (hmodel : s.est.model = s'.est.model)
    (ht : s.predict = s'.predict) {n : ℕ} (hn : n < 4)
    (hrows : n = 3 → s.predict.raised = none → s.predict.model.isSome →
      s.est.encoder.rows features = s'.est.encoder.rows features) :
    (predictStep features n s).predict = (predictStep features n s').predict := by
  cases hraised : s.predict.raised with
  | some exc =>
    have hraised' : s'.predict.raised = some exc := by rw [← ht, hraised]
    rw [predictStep_of_raised (by rw [hraised]; rfl), predictStep_of_raised (by rw [hraised']; rfl)]
    exact ht
  | none =>
    have hraised' : s'.predict.raised = none := by rw [← ht, hraised]
    rw [predictStep_of_ok hraised, predictStep_of_ok hraised', ← ht]
    match n, hn with
    | 0, _ => rfl
    | 1, _ => simp only [predictAction, PredictThread.effect, hmodel]
    | 2, _ => rfl
    | 3, _ =>
      simp only [predictAction, PredictThread.effect]
      split
      · next hsome => rw [PredictThread.encodeRows, PredictThread.encodeRows, hrows rfl hraised hsome]
      · rfl

/-- After the codes have been read a prediction depends on the version only. -/
theorem predictStep_congr_late {s s' : Shared} (hversion : s.est.versionStr = s'.est.versionStr)
    (ht : s.predict = s'.predict) {n : ℕ} (hn : 4 ≤ n) :
    (predictStep features n s).predict = (predictStep features n s').predict := by
  cases hraised : s.predict.raised with
  | some exc =>
    have hraised' : s'.predict.raised = some exc := by rw [← ht, hraised]
    rw [predictStep_of_raised (by rw [hraised]; rfl), predictStep_of_raised (by rw [hraised']; rfl)]
    exact ht
  | none =>
    have hraised' : s'.predict.raised = none := by rw [← ht, hraised]
    rw [predictStep_of_ok hraised, predictStep_of_ok hraised', ht]
    match n, hn with
    | 4, _ => rfl
    | n + 5, _ => simp only [predictAction, PredictThread.effect, LambdaRankEstimator.version, hversion]

/-- A prediction changes nothing of the instance but its encoder, and extends that at most. -/
theorem predictStep_est (features : List FeatureDict) (n : ℕ) (s : Shared) :
    ∃ encoder, (predictStep features n s).est = { s.est with encoder := encoder } ∧
      (encoder = s.est.encoder ∨ encoder = s.est.encoder.extend features) := by
  unfold predictStep
  split
  · exact ⟨_, rfl, .inl rfl⟩
  · cases predictAction n with
    | extendEncoder =>
      simp only [PredictThread.effect]
      split
      · exact ⟨_, rfl, .inr rfl⟩
      · exact ⟨_, rfl, .inl rfl⟩
    | _ => exact ⟨_, rfl, .inl rfl⟩

theorem predictStep_model (features : List FeatureDict) (n : ℕ) (s : Shared) :
    (predictStep features n s).est.model = s.est.model ∧
      (predictStep features n s).est.versionStr = s.est.versionStr := by
  obtain ⟨encoder, hest, -⟩ := predictStep_est features n s
  rw [hest]
  exact ⟨rfl, rfl⟩

end Predict

/-! ## What a retrain changes -/

section Retrain
variable {i : FitInput}

/-- Every action of the retrain is one step of it. -/
theorem retrainProgram_inj {m n : ℕ} {a : RetrainAction} (h : retrainProgram[m]? = some a)
    (h' : retrainProgram[n]? = some a) : m = n := by
  obtain ⟨hm, -⟩ := List.getElem?_eq_some_iff.mp h
  exact (List.getElem?_inj hm (by decide)).mp (h.trans h'.symm)

theorem retrainStep_model {m : ℕ} (hm : m ≠ 8) (s : Shared) :
    (retrainStep i m s).est.model = s.est.model ∧
      (retrainStep i m s).est.versionStr = s.est.versionStr := by
  unfold retrainStep
  split
  · exact ⟨rfl, rfl⟩
  · next a ha =>
    split
    · exact ⟨rfl, rfl⟩
    · cases a with
      | installModel => exact absurd (retrainProgram_inj ha rfl) hm
      | rebuildEncoder =>
        simp only [RetrainThread.effect]
        split <;> exact ⟨rfl, rfl⟩
      | _ => exact ⟨rfl, rfl⟩

theorem install_encoder (i : FitInput) (e : LambdaRankEstimator) (t : RetrainThread) :
    (t.install i e).encoder = e.encoder := by
  unfold RetrainThread.install
  split
  · split <;> rfl
  · rfl

theorem retrainStep_encoder {m : ℕ} (hm : m ≠ 3) (hm' : m ≠ 4) (s : Shared) :
    (retrainStep i m s).est.encoder = s.est.encoder := by
  unfold retrainStep
  split
  · rfl
  · next a ha =>
    split
    · rfl
    · cases a with
      | rebuildEncoder => exact absurd (retrainProgram_inj ha rfl) hm
      | extendEncoder => exact absurd (retrainProgram_inj ha rfl) hm'
      | installModel => exact install_encoder i _ _
      | _ => rfl

/-- Before the installation the retrain changes nothing of the instance but its encoder. -/
theorem retrainStep_est {m : ℕ} (hm : m < 8) (s : Shared) :
    ∃ encoder, (retrainStep i m s).est = { s.est with encoder := encoder } := by
  unfold retrainStep
  split
  · exact ⟨_, rfl⟩
  · next a ha =>
    split
    · exact ⟨_, rfl⟩
    · cases a with
      | installModel => exact absurd (retrainProgram_inj ha rfl) (show m ≠ 8 by omega)
      | countFit => exact absurd (retrainProgram_inj ha rfl) (show m ≠ 9 by omega)
      | rebuildEncoder =>
        simp only [RetrainThread.effect]
        split <;> exact ⟨_, rfl⟩
      | _ => exact ⟨_, rfl⟩

/-- Up to the extraction it changes nothing at all. -/
theorem retrainStep_est_early {m : ℕ} (hm : m < 3) (s : Shared) :
    (retrainStep i m s).est = s.est := by
  unfold retrainStep
  split
  · rfl
  · next a ha =>
    split
    · rfl
    · interval_cases m <;> (cases ha; rfl)

theorem retrainStep_view {m : ℕ} (hm : 9 ≤ m) (s : Shared) :
    SameView (retrainStep i m s).est s.est := by
  obtain ⟨hmodel, hversion⟩ := retrainStep_model (i := i) (m := m) (by omega) s
  exact ⟨hmodel, retrainStep_encoder (by omega) (by omega) s, hversion⟩

/-- Once the new model is installed the retrain changes nothing that a prediction uses. -/
theorem retrain_alone_view {m : ℕ} (hm : 9 ≤ m) (s : Shared) :
    SameView (runAlone (retrainStep i) m s).est (runAlone (retrainStep i) 9 s).est := by
  induction m, hm using Nat.le_induction with
  | base => exact .refl _
  | succ m hm ih => exact (retrainStep_view hm _).trans ih

/-- The retrain does not look at the prediction's local variables. -/
theorem retrainStep_congr (m : ℕ) {s s' : Shared} (hest : s.est = s'.est)
    (ht : s.retrain = s'.retrain) :
    (retrainStep i m s).est = (retrainStep i m s').est ∧
      (retrainStep i m s).retrain = (retrainStep i m s').retrain := by
  unfold retrainStep
  rw [hest, ht]
  split
  · exact ⟨hest, ht⟩
  · split
    · exact ⟨hest, ht⟩
    · exact ⟨rfl, rfl⟩

end Retrain

/-! ## Atomic interleavings -/

section Atomic
variable {k : ℕ} {w : PredictInterleaving k} {e : LambdaRankEstimator} {i : FitInput}
  {call : PredictCall} {features : List FeatureDict} {s s' : Shared} {m n : ℕ}

theorem PredictInterleaving.lt_retrainedBefore (w : PredictInterleaving k) (hm : m < 11)
    (hn : n < 5 + k) (h : takenBefore .right w.steps m ≤ n) : m < w.retrainedBefore n := by
  have hiff := lt_takenBefore_iff (w := w.steps) (m := m) (n := n)
    (by rw [w.retrain_steps]; exact hm) (by rw [w.predict_steps]; exact hn)
  rw [PredictInterleaving.retrainedBefore]
  omega

/-- The local variables of the retrain until it reads the rows, whatever else happens. -/
def RetrainThread.early (i : FitInput) (e : LambdaRankEstimator) : ℕ → RetrainThread
  | 0 => {}
  | 1 => {}
  | 2 => { full := e.fullRefitDue }
  | _ => RetrainThread.snapshot { full := e.fullRefitDue } i e

/-- Where a retrain of `e` is after `m` steps beside a prediction, which changes at most the encoder. -/
structure RefitUnderWay (i : FitInput) (e : LambdaRankEstimator) (m : ℕ) (s : Shared) : Prop where
  est : m ≤ 8 → ∃ encoder, s.est = { e with encoder := encoder }
  thread : m ≤ 5 → s.retrain = RetrainThread.early i e m

theorem RefitUnderWay.afterPredict (h : RefitUnderWay i e m s) (features : List FeatureDict) (n : ℕ) :
    RefitUnderWay i e m (predictStep features n s) := by
  refine ⟨fun hm => ?_, fun hm => (predictStep_retrain n s).trans (h.thread hm)⟩
  obtain ⟨encoder, hest⟩ := h.est hm
  obtain ⟨encoder', hest', -⟩ := predictStep_est features n s
  exact ⟨encoder', by rw [hest', hest]⟩

theorem RefitUnderWay.afterRetrain (h : RefitUnderWay i e m s) :
    RefitUnderWay i e (m + 1) (retrainStep i m s) := by
  refine ⟨fun hm => ?_, fun hm => ?_⟩
  · obtain ⟨encoder, hest⟩ := h.est (by omega)
    obtain ⟨encoder', hest'⟩ := retrainStep_est (i := i) (m := m) (by omega) s
    exact ⟨encoder', by rw [hest', hest]⟩
  · have hthread := h.thread (by omega)
    obtain ⟨encoder, hest⟩ := h.est (by omega)
    match m, hm with
    | 0, _ => rw [retrainStep_of_ok (a := .readEstimator) rfl (by rw [hthread]; rfl), hthread]; rfl
    | 1, _ =>
      rw [retrainStep_of_ok (a := .decide) rfl (by rw [hthread]; rfl), hthread, hest]
      rfl
    | 2, _ =>
      rw [retrainStep_of_ok (a := .snapshot) rfl (by rw [hthread]; rfl), hthread, hest]
      rfl
    | 3, _ =>
      cases hraised : s.retrain.raised with
      | some exc => rw [retrainStep_of_raised (by rw [hraised]; rfl), hthread]; rfl
      | none => rw [retrainStep_of_ok (a := .rebuildEncoder) rfl hraised]; exact hthread
    | 4, _ =>
      cases hraised : s.retrain.raised with
      | some exc => rw [retrainStep_of_raised (by rw [hraised]; rfl), hthread]; rfl
      | none => rw [retrainStep_of_ok (a := .extendEncoder) rfl hraised]; exact hthread

theorem early_snapshot (hm : 3 ≤ m) : RetrainThread.early i e m =
    RetrainThread.snapshot { full := e.fullRefitDue } i e := by
  match m, hm with
  | m + 3, _ => rfl

theorem early_three {fdicts : List FeatureDict} (hrows : featureRows e.extractor i.records = .ok fdicts)
    (hm : 3 ≤ m) : (RetrainThread.early i e m).raised = none ∧
      (RetrainThread.early i e m).fdicts = fdicts ∧
      (RetrainThread.early i e m).prevModel = if e.fullRefitDue then none else e.model := by
  rw [early_snapshot hm, snapshot_ok hrows]
  exact ⟨rfl, rfl, rfl⟩

/-! ### The codes of the call -/

/-- Both encoders give the same codes to the values of the call. -/
def SameCodes (features : List FeatureDict) (encoder encoder' : Encoder) : Prop :=
  ∀ fdict ∈ features, ∀ col ∈ catCols,
    encoder.codeOf col (textAt fdict col) = encoder'.codeOf col (textAt fdict col)

/-- After `n` steps of a prediction that started from `s`: the codes that it still has to read are
those it would read alone. -/
structure CodesHeld (features : List FeatureDict) (s : Shared) (n : ℕ) (s' : Shared) : Prop where
  keeps : s.est.fullRefitDue = false → s'.est.encoder.Keeps s.est.encoder
  unread : n ≤ 2 → SameCodes features (s'.est.encoder.extend features) (s.est.encoder.extend features)
  coded : n = 3 → s'.predict.raised = none → s'.predict.model.isSome →
    s'.est.encoder.Knows features ∧
      SameCodes features s'.est.encoder (runAlone (predictStep features) 3 s).est.encoder

/-- After `n` steps of a prediction that started from `s`, beside a retrain: the prediction is where it
would be alone, and what it still has to read is as it would be alone. -/
structure FollowsPredict (features : List FeatureDict) (k : ℕ) (s : Shared) (n : ℕ) (s' : Shared) :
    Prop where
  predict : s'.predict = (runAlone (predictStep features) n s).predict
  old : n ≤ 4 + k → s'.est.model = s.est.model ∧ s'.est.versionStr = s.est.versionStr
  codes : n ≤ 3 → CodesHeld features s n s'

theorem FollowsPredict.start (features : List FeatureDict) (k : ℕ) (s : Shared) :
    FollowsPredict features k s 0 s :=
  ⟨rfl, fun _ => ⟨rfl, rfl⟩, fun _ => ⟨fun _ => .refl _, fun _ _ _ _ _ => rfl, fun h => by omega⟩⟩

theorem predict_alone_model (features : List FeatureDict) (s : Shared) (n : ℕ) :
    (runAlone (predictStep features) n s).est.model = s.est.model ∧
      (runAlone (predictStep features) n s).est.versionStr = s.est.versionStr := by
  induction n with
  | zero => exact ⟨rfl, rfl⟩
  | succ n ih =>
    obtain ⟨hmodel, hversion⟩ :=
      predictStep_model features n (runAlone (predictStep features) n s)
    exact ⟨hmodel.trans ih.1, hversion.trans ih.2⟩

/-- Up to its extension a prediction leaves the instance alone. -/
theorem predictStep_est_early (hn : n < 2) (s : Shared) : (predictStep features n s).est = s.est := by
  unfold predictStep
  split
  · rfl
  · interval_cases n <;> rfl

theorem predict_alone_early (hn : n ≤ 2) (s : Shared) :
    (runAlone (predictStep features) n s).est = s.est := by
  induction n with
  | zero => rfl
  | succ n ih => exact (predictStep_est_early (by omega) _).trans (ih (by omega))

/-- The step that extends the encoder by the values of the call. -/
theorem predictStep_two (hok : s.predict.raised = none) (hmodel : s.predict.model.isSome) :
    (predictStep features 2 s).est.encoder = s.est.encoder.extend features := by
  rw [predictStep_of_ok hok]
  simp only [predictAction, PredictThread.effect, hmodel, if_true]

theorem predictStep_two_thread (s : Shared) :
    (predictStep features 2 s).predict = s.predict := by
  unfold predictStep
  split <;> rfl

theorem CodesHeld.afterPredict (h : CodesHeld features s n s') (hn : n ≤ 2)
    (hpredict : s'.predict = (runAlone (predictStep features) n s).predict) :
    CodesHeld features s (n + 1) (predictStep features n s') := by
  refine ⟨fun hdue => ?_, fun hsmall => ?_, fun hthree hok hmodel => ?_⟩
  · obtain ⟨encoder, hest, hencoder⟩ := predictStep_est features n s'
    rw [hest]
    obtain rfl | rfl := hencoder
    · exact h.keeps hdue
    · exact (h.keeps hdue).extend features
  · rw [predictStep_est_early (by omega)]
    exact h.unread (by omega)
  · obtain rfl : n = 2 := by omega
    rw [predictStep_two_thread] at hok hmodel
    have halone : (runAlone (predictStep features) 3 s).est.encoder = s.est.encoder.extend features := by
      rw [runAlone_succ, predictStep_two (by rw [← hpredict]; exact hok) (by rw [← hpredict]; exact hmodel),
        predict_alone_early (le_refl 2)]
    rw [halone, predictStep_two hok hmodel]
    exact ⟨s'.est.encoder.knows_extend features, h.unread (le_refl 2)⟩

theorem FollowsPredict.afterPredict (h : FollowsPredict features k s n s') (hn : n < 5 + k) :
    FollowsPredict features k s (n + 1) (predictStep features n s') := by
  obtain ⟨hmodel, hversion⟩ := h.old (by omega)
  have halone := predict_alone_model features s n
  have hframe := predictStep_model features n s'
  refine ⟨?_, fun _ => ⟨hframe.1.trans hmodel, hframe.2.trans hversion⟩,
    fun hsmall => (h.codes (by omega)).afterPredict (by omega) h.predict⟩
  by_cases hlate : 4 ≤ n
  · exact predictStep_congr_late (hversion.trans halone.2.symm) h.predict hlate
  · refine predictStep_congr_early (hmodel.trans halone.1.symm) h.predict (by omega) ?_
    rintro rfl hok hsome
    exact Encoder.rows_congr ((h.codes (le_refl 3)).coded rfl hok hsome).2

/-- Before the installation, a step of the retrain that holds the codes of the call. -/
theorem FollowsPredict.afterRetrain (h : FollowsPredict features k s n s')
    (hmodel : n ≤ 4 + k → m < 8)
    (hcodes : n ≤ 3 → CodesHeld features s n s' → CodesHeld features s n (retrainStep i m s')) :
    FollowsPredict features k s n (retrainStep i m s') := by
  refine ⟨(retrainStep_predict m s').trans h.predict, fun hn => ?_, fun hn => hcodes hn (h.codes hn)⟩
  have hm := hmodel hn
  obtain ⟨hmodel', hversion'⟩ := retrainStep_model (i := i) (m := m) (by omega) s'
  exact ⟨hmodel'.trans (h.old hn).1, hversion'.trans (h.old hn).2⟩

/-- A step of the retrain that leaves the encoder alone holds the codes of the call. -/
theorem CodesHeld.of_encoder {s'' : Shared} (h : CodesHeld features s n s')
    (hencoder : s''.est.encoder = s'.est.encoder) (hpredict : s''.predict = s'.predict) :
    CodesHeld features s n s'' := by
  refine ⟨?_, ?_, ?_⟩
  · rw [hencoder]
    exact h.keeps
  · rw [hencoder]
    exact h.unread
  · rw [hencoder, hpredict]
    exact h.coded

/-- An extension by values that have codes, or beside a call whose values have, holds its codes. -/
theorem CodesHeld.extend {s'' : Shared} {fdicts : List FeatureDict} (h : CodesHeld features s n s')
    (hdue : s.est.fullRefitDue = false)
    (hunread : n ≤ 2 → s.est.encoder.Knows fdicts ∨ s.est.encoder.Knows features)
    (hencoder : s''.est.encoder = s'.est.encoder.extend fdicts)
    (hpredict : s''.predict = s'.predict) : CodesHeld features s n s'' := by
  have hkeeps := h.keeps hdue
  refine ⟨fun _ => ?_, fun hn fdict hmem col hcol => ?_, fun hn hok hmodel => ?_⟩
  · rw [hencoder]
    exact hkeeps.extend fdicts
  · rw [hencoder]
    obtain hknown | hknown := hunread hn
    · have hcodes : ((s'.est.encoder.extend fdicts).extend features).codesOf col =
          (s'.est.encoder.extend features).codesOf col := by
        rw [Encoder.codesOf_extend (s'.est.encoder.extend fdicts) _ hcol,
          (hknown.of_keeps hkeeps).codesOf_extend hcol, Encoder.codesOf_extend _ _ hcol]
      rw [Encoder.codeOf_eq_lookup, hcodes, ← Encoder.codeOf_eq_lookup]
      exact h.unread hn fdict hmem col hcol
    · rw [hknown.codeOf_eq ((hkeeps.extend fdicts).extend features) hmem hcol,
        hknown.codeOf_eq ((Encoder.Keeps.refl _).extend features) hmem hcol]
  · rw [hpredict] at hok hmodel
    obtain ⟨hknows, hsame⟩ := h.coded hn hok hmodel
    rw [hencoder]
    refine ⟨hknows.of_keeps ((Encoder.Keeps.refl _).extend fdicts), fun fdict hmem col hcol => ?_⟩
    rw [hknows.codeOf_eq ((Encoder.Keeps.refl _).extend fdicts) hmem hcol]
    exact hsame fdict hmem col hcol

/-- A refit whose rows are extracted holds the codes of a call that reads them in time. -/
theorem CodesHeld.afterRetrain {fdicts : List FeatureDict}
    (hrows : featureRows e.extractor i.records = .ok fdicts)
    (hchange : e.fullRefitDue = false → 3 < m → n ≤ 2 →
      e.encoder.Knows fdicts ∨ e.encoder.Knows features)
    (hfull : e.fullRefitDue = true → m < 3) (hs : s.est = e) (hrefit : RefitUnderWay i e m s')
    (h : CodesHeld features s n s') : CodesHeld features s n (retrainStep i m s') := by
  subst hs
  have hincremental (hm : 3 ≤ m) : s.est.fullRefitDue = false :=
    Bool.eq_false_iff.mpr fun hdue => absurd (hfull hdue) (by omega)
  by_cases hthree : m = 3
  · subst hthree
    have hdue := hincremental (le_refl 3)
    obtain ⟨hok, -, hprev⟩ := early_three hrows (le_refl 3)
    rw [← hrefit.thread (by omega)] at hok hprev
    have hsome : s'.retrain.prevModel.isNone = false := by
      rw [hprev, hdue]
      simp only [LambdaRankEstimator.fullRefitDue, Bool.or_eq_false_iff] at hdue
      exact hdue.1
    refine h.of_encoder ?_ (retrainStep_predict _ _)
    rw [retrainStep_of_ok (a := .rebuildEncoder) rfl hok]
    simp only [RetrainThread.effect, hsome]
    rfl
  · by_cases hfour : m = 4
    · subst hfour
      have hdue := hincremental (by omega)
      obtain ⟨hok, hdicts, -⟩ := early_three hrows (show 3 ≤ 4 by omega)
      rw [← hrefit.thread (by omega)] at hok hdicts
      refine h.extend hdue (hchange hdue (by omega)) ?_ (retrainStep_predict _ _)
      rw [retrainStep_of_ok (a := .extendEncoder) rfl hok]
      simp only [RetrainThread.effect, hdicts]
    · exact h.of_encoder (retrainStep_encoder hthree hfour s') (retrainStep_predict _ _)

/-- The codes are read in time and the versions before the installation. -/
theorem result_of_early {fdicts : List FeatureDict} (hk : call.versionReads = k)
    (hrows : featureRows e.extractor i.records = .ok fdicts)
    (hcodes : w.CodesInTime (e.codesChange i call)) (hversions : w.retrainedBefore (4 + k) ≤ 8) :
    w.result e i call = (call.run e.extractor (.lambdarank e)).2 := by
  have hfollows := exec_invariant (w := w.steps) (l := retrainStep i)
    (s := call.start e) (P := fun m n s' => RefitUnderWay i e m s' ∧
      FollowsPredict (call.featureDicts e.extractor) k (call.start e) n s')
    ⟨⟨fun _ => ⟨_, rfl⟩, fun _ => rfl⟩, .start _ _ _⟩
    (fun m hm s' ⟨hrefit, h⟩ => by
      rw [w.retrain_steps] at hm
      refine ⟨hrefit.afterRetrain, h.afterRetrain (fun hn => ?_) fun hn hheld => ?_⟩
      · have hlt := w.lt_retrainedBefore hm (by omega) hn
        omega
      · refine hheld.afterRetrain hrows (fun hdue hthree htwo => ?_) (fun hdue => ?_) rfl hrefit
        · by_cases hknown : e.encoder.Knows fdicts ∨ e.encoder.Knows (call.featureDicts e.extractor)
          · exact hknown
          · have hchange : e.codesChange i call = .extended := by
              rw [LambdaRankEstimator.codesChange, hrows]
              simp [hdue, hknown]
            rw [hchange] at hcodes
            have hlt := w.lt_retrainedBefore hm (by omega) htwo
            exact absurd hcodes (by simp only [PredictInterleaving.CodesInTime]; omega)
        · have hchange : e.codesChange i call = .rebuilt := by
            rw [LambdaRankEstimator.codesChange, hrows]
            simp [hdue]
          rw [hchange] at hcodes
          have hlt := w.lt_retrainedBefore hm (by omega) hn
          simp only [PredictInterleaving.CodesInTime] at hcodes
          omega)
    (fun n hn s' ⟨hrefit, h⟩ =>
      ⟨hrefit.afterPredict _ n, h.afterPredict (by rw [← w.predict_steps]; exact hn)⟩)
  rw [w.predict_steps] at hfollows
  rw [PredictInterleaving.result, hfollows.2.predict, ← call.predict_alone, hk]

/-- A retrain that cannot read its records does not touch the instance. -/
theorem result_of_untouched (hk : call.versionReads = k)
    (hchange : e.codesChange i call = .untouched) :
    w.result e i call = (call.run e.extractor (.lambdarank e)).2 := by
  obtain ⟨exc, hrows⟩ : ∃ exc, featureRows e.extractor i.records = .error exc := by
    unfold LambdaRankEstimator.codesChange at hchange
    split at hchange
    · next exc hrows => exact ⟨exc, hrows⟩
    · split at hchange
      · cases hchange
      · split at hchange <;> cases hchange
  have hfollows := exec_invariant (w := w.steps) (l := retrainStep i) (s := call.start e)
    (r := predictStep (call.featureDicts e.extractor))
    (P := fun m n s' => (m ≤ 3 → RefitUnderWay i e m s') ∧ (3 ≤ m → s'.retrain.raised.isSome) ∧
      SameView s'.est (runAlone (predictStep (call.featureDicts e.extractor)) n (call.start e)).est ∧
      s'.predict = (runAlone (predictStep (call.featureDicts e.extractor)) n (call.start e)).predict)
    ⟨fun _ => ⟨fun _ => ⟨_, rfl⟩, fun _ => rfl⟩, by omega, .refl _, rfl⟩
    (fun m hm s' ⟨hrefit, hraised, hview, hpredict⟩ => by
      by_cases hthree : 3 ≤ m
      · rw [retrainStep_of_raised (hraised hthree)]
        exact ⟨by omega, fun _ => hraised hthree, hview, hpredict⟩
      · have hnext := (hrefit (by omega)).afterRetrain
        rw [retrainStep_est_early (by omega), retrainStep_predict]
        refine ⟨fun _ => hnext, fun hlast => ?_, hview, hpredict⟩
        obtain rfl : m = 2 := by omega
        rw [hnext.thread (by omega), early_snapshot (by omega), RetrainThread.snapshot, hrows]
        rfl)
    (fun n hn s' ⟨hrefit, hraised, hview, hpredict⟩ =>
      ⟨fun hm => (hrefit hm).afterPredict _ n, by rw [predictStep_retrain]; exact hraised,
        predictStep_congr hview hpredict n⟩)
  rw [w.predict_steps] at hfollows
  rw [PredictInterleaving.result, hfollows.2.2.2, ← call.predict_alone, hk]

/-- Beside a prediction that has not yet read the model the retrain is where it would be alone, and a
prediction that has reads what the whole retrain leaves. -/
def FollowsRetrain (features : List FeatureDict) (i : FitInput) (s final : Shared) (m n : ℕ)
    (s' : Shared) : Prop :=
  (n ≤ 1 → s'.est = (runAlone (retrainStep i) m s).est ∧
    s'.retrain = (runAlone (retrainStep i) m s).retrain ∧ s'.predict = s.predict) ∧
  (1 < n → 9 ≤ m ∧ SameView s'.est (runAlone (predictStep features) n final).est ∧
    s'.predict = (runAlone (predictStep features) n final).predict)

theorem FollowsRetrain.afterRetrain {final : Shared} (h : FollowsRetrain features i s final m n s') :
    FollowsRetrain features i s final (m + 1) n (retrainStep i m s') := by
  refine ⟨fun hn => ?_, fun hn => ?_⟩
  · obtain ⟨hest, hretrain, hpredict⟩ := h.1 hn
    obtain ⟨hest', hretrain'⟩ := retrainStep_congr (i := i) m hest hretrain
    exact ⟨hest', hretrain', (retrainStep_predict m s').trans hpredict⟩
  · obtain ⟨hm, hview, hpredict⟩ := h.2 hn
    exact ⟨by omega, (retrainStep_view hm s').trans hview, (retrainStep_predict m s').trans hpredict⟩

theorem predictStep_zero (features : List FeatureDict) (s : Shared) : predictStep features 0 s = s := by
  unfold predictStep
  split <;> rfl

theorem FollowsRetrain.afterPredict {final : Shared} (h : FollowsRetrain features i s final m n s')
    (hstart : s.predict = final.predict)
    (hfinal : (runAlone (retrainStep i) 11 s).est = final.est) (hm : 1 ≤ n → 9 ≤ m) :
    FollowsRetrain features i s final m (n + 1) (predictStep features n s') := by
  by_cases hn : 1 < n
  · obtain ⟨-, hview, hpredict⟩ := h.2 hn
    refine ⟨fun hsmall => ?_, fun _ => ⟨hm (by omega), predictStep_congr hview hpredict n⟩⟩
    omega
  · obtain ⟨hest, hretrain, hpredict⟩ := h.1 (by omega)
    by_cases hzero : n = 0
    · subst hzero
      rw [predictStep_zero]
      refine ⟨fun _ => ⟨hest, hretrain, hpredict⟩, fun hlarge => ?_⟩
      omega
    · obtain rfl : n = 1 := by omega
      have hinstalled := hm (by omega)
      refine ⟨fun hsmall => ?_, fun _ => ⟨hinstalled, ?_⟩⟩
      · omega
      · have hview : SameView s'.est final.est := by
          have hnine := retrain_alone_view (i := i) hinstalled s
          have hend := retrain_alone_view (i := i) (m := 11) (by omega) s
          rw [hest, ← hfinal]
          exact hnine.trans ⟨hend.1.symm, hend.2.1.symm, hend.2.2.symm⟩
        have hone : runAlone (predictStep features) 1 final = final := predictStep_zero _ _
        rw [runAlone_succ, hone]
        exact predictStep_congr hview (hpredict.trans hstart) 1

/-- The model is read after the installation. -/
theorem result_of_late (hk : call.versionReads = k) (hmodel : 8 < w.retrainedBefore 1) :
    w.result e i call = (call.run e.extractor (.lambdarank (e.afterFit i))).2 := by
  have hextractor := (e.afterFit_fixed i).2
  have hstart : (call.start e).predict = (call.start (e.afterFit i)).predict := by
    rw [PredictCall.start, PredictCall.start, hextractor]
  have hfinal : (runAlone (retrainStep i) 11 (call.start e)).est = (call.start (e.afterFit i)).est :=
    retrain_alone i e _
  have hfollows := exec_invariant (w := w.steps) (s := call.start e)
    (P := FollowsRetrain (call.featureDicts e.extractor) i (call.start e)
      (call.start (e.afterFit i)))
    ⟨fun _ => ⟨rfl, rfl, rfl⟩, fun h => absurd h (by omega)⟩
    (fun m hm s' h => h.afterRetrain)
    (fun n hn s' h => by
      refine h.afterPredict hstart hfinal fun hpos => ?_
      have hmono := takenBefore_mono .left w.steps hpos
      rw [PredictInterleaving.retrainedBefore] at hmodel
      omega)
  rw [w.retrain_steps, w.predict_steps] at hfollows
  have hanswer := call.predict_alone (e.afterFit i)
  rw [hextractor, hk] at hanswer
  rw [PredictInterleaving.result, (hfollows.2 (by omega)).2.2, hanswer]

end Atomic

end Chronoq.Ranker
