import Chronoq.Ranker.FitRuns

/-! # The rho gate over whole runs

`_incremental_fit` installs a model only if its held-out rho is at most 0.1 below the one recorded
for the installed model. `_full_fit` has no such test: a full refit that falls on an installed model
replaces it by whatever LightGBM returns. So the gate holds along every run in which no full refit
falls on an installed model (`quality_gate_of_no_refit`); with at least ten valid groups every trained
model is measured on at least two held-out rows. -/

namespace Chronoq.Ranker
open Foundations

set_option autoImplicit false

namespace LambdaRankEstimator

/-! ## The rho of a trained model -/

/-- The data that the call prepares. -/
def preparedBy (e : LambdaRankEstimator) (i : FitInput) : Except PyException Prepared :=
  (prepareData e.extractor e.encoder i.records e.fullRefitDue).2

/-- The rho, on the rows that the call holds out, of the model that it leaves installed. -/
def heldOutRho (e : LambdaRankEstimator) (i : FitInput) : Option ℚ :=
  match e.preparedBy i, (e.afterFit i).model with
  | .ok d, some booster => some (validate i.env booster d).rho
  | _, _ => none

/-- The gate: a model that replaces an installed one has a held-out rho of at least the recorded rho
minus the allowed delta. -/
def KeepsQuality (e : LambdaRankEstimator) (i : FitInput) : Prop :=
  e.model.isSome = true → e.Installs i →
    ∃ rho, e.heldOutRho i = some rho ∧ e.lastRho - rhoRejectionDelta ≤ rho

/-- A full refit falls on an installed model. -/
def RefitsInstalled (e : LambdaRankEstimator) : Prop := e.model.isSome = true ∧ e.fullRefitDue = true

/-! ## One call -/

/-- With ten valid groups both fit paths measure the model they have trained. -/
theorem fullFitValidation_eq {env : FitEnv} {booster : Booster} {records : List TaskRecord}
    {x : List Row} (hx : x.length = (groupSizes records).sum)
    (hten : 10 ≤ (validGroupIds records).length) :
    fullFitValidation env booster (assemble records x) =
      validate env booster (assemble records x) := by
  have hrows := two_le_xVal_length hx hten
  have hval : 0 < (assemble records x).groupsVal.length := by
    rw [assemble_groupsVal_length]
    unfold nVal
    split <;> omega
  rw [fullFitValidation, if_pos ⟨hval, hrows⟩]

theorem incrementalFitValidation_eq {env : FitEnv} {booster : Booster} {records : List TaskRecord}
    {x : List Row} (hx : x.length = (groupSizes records).sum)
    (hten : 10 ≤ (validGroupIds records).length) :
    incrementalFitValidation env booster (assemble records x) =
      validate env booster (assemble records x) := by
  rw [incrementalFitValidation, if_pos (two_le_xVal_length hx hten)]

/-- An installation records the rho it has measured. -/
theorem heldOutRho_of_installs {e : LambdaRankEstimator} {i : FitInput}
    (hten : 10 ≤ (validGroupIds i.records).length) (h : e.Installs i) :
    e.heldOutRho i = some (e.afterFit i).lastRho := by
  unfold Installs at h
  unfold heldOutRho preparedBy
  obtain ⟨result, hspec⟩ := e.afterFit_spec i
  generalize e.afterFit i = e' at h hspec ⊢
  cases hspec with
  | unextracted hrows => exact absurd rfl h
  | fullFailed hdue hrows hwhy => exact absurd rfl h
  | fullInstalled hdue hrows hx hgroups hfit =>
    rw [hdue, prepareData_ok hrows]
    simp only [if_true, hx, Except.map, install]
    rw [fullFitValidation_eq (rows_length hrows hx) hten]
  | incrementalFailed hdue hmodel hrows hwhy => exact absurd rfl h
  | rejected hdue hmodel hrows hx hfit hgate => exact absurd rfl h
  | accepted hdue hmodel hrows hx hfit hgate =>
    rw [hdue, prepareData_ok hrows]
    simp only [Bool.false_eq_true, if_false, hx, Except.map, install]
    rw [incrementalFitValidation_eq (rows_length hrows hx) hten]

/-- What the gate comes to for the rho recorded by the call. -/
theorem keepsQuality_iff_lastRho {e : LambdaRankEstimator} {i : FitInput}
    (hten : 10 ≤ (validGroupIds i.records).length) :
    e.KeepsQuality i ↔ (e.model.isSome = true → e.Installs i →
      e.lastRho - rhoRejectionDelta ≤ (e.afterFit i).lastRho) := by
  constructor
  · intro h hmodel hinst
    obtain ⟨rho, hrho, hle⟩ := h hmodel hinst
    rw [heldOutRho_of_installs hten hinst] at hrho
    cases hrho
    exact hle
  · intro h hmodel hinst
    exact ⟨_, heldOutRho_of_installs hten hinst, h hmodel hinst⟩

theorem le_rho_of_not_gateRejects {e : LambdaRankEstimator} {env : FitEnv} {booster : Booster}
    {d : Prepared} (hrows : 2 ≤ d.xVal.length) (h : ¬ e.gateRejects env booster d) :
    e.lastRho - rhoRejectionDelta ≤ (incrementalFitValidation env booster d).rho := by
  by_contra hlt
  exact h ⟨hrows, not_le.mp hlt⟩

/-- A call keeps the gate unless it is a full refit of an installed model. -/
theorem keepsQuality_of_not_refits {e : LambdaRankEstimator} {i : FitInput}
    (hten : 10 ≤ (validGroupIds i.records).length) (h : ¬ e.RefitsInstalled) : e.KeepsQuality i := by
  rw [keepsQuality_iff_lastRho hten]
  unfold Installs
  intro hmodel hinst
  have hnot : e.fullRefitDue ≠ true := fun hdue => h ⟨hmodel, hdue⟩
  obtain ⟨result, hspec⟩ := e.afterFit_spec i
  generalize e.afterFit i = e' at hspec hinst ⊢
  cases hspec with
  | unextracted hrows => exact absurd rfl hinst
  | fullFailed hdue hrows hwhy => exact absurd rfl hinst
  | fullInstalled hdue hrows hx hgroups hfit => exact absurd hdue hnot
  | incrementalFailed hdue hmodel hrows hwhy => exact absurd rfl hinst
  | rejected hdue hmodel hrows hx hfit hgate => exact absurd rfl hinst
  | accepted hdue hmodel hrows hx hfit hgate =>
    exact le_rho_of_not_gateRejects (two_le_xVal_length (rows_length hrows hx) hten) hgate

/-! ## Whole runs -/

/-- Along a run of fits on at least ten valid groups each the gate holds at every call that is not a full
refit of an installed model, whatever came before; so it holds throughout where there is no such refit. -/
theorem quality_gate_of_no_refit (config : RankerConfig) (extractor : FeatureExtractor)
    {inputs : List FitInput} {e : LambdaRankEstimator}
    (h : Run (Guarded (fun _ i => 10 ≤ (validGroupIds i.records).length) FitSteps)
      (.new config extractor) inputs e) :
    EveryStep FitSteps (fun e i => ¬ e.RefitsInstalled → e.KeepsQuality i) (.new config extractor)
        inputs ∧
      (EveryStep FitSteps (fun e _ => ¬ e.RefitsInstalled) (.new config extractor) inputs →
        EveryStep FitSteps KeepsQuality (.new config extractor) inputs) := by
  have hten := h.everyStep (I := fun _ => True) FitSteps.unique (fun _ _ _ _ _ _ => trivial) trivial
  have hgate : EveryStep FitSteps (fun e i => ¬ e.RefitsInstalled → e.KeepsQuality i)
      (.new config extractor) inputs := fun before i after e' hsplit hrun hrefit =>
    keepsQuality_of_not_refits (hten before i after e' hsplit hrun).2 hrefit
  exact ⟨hgate, fun hnone before i after e' hsplit hrun =>
    hgate before i after e' hsplit hrun (hnone before i after e' hsplit hrun)⟩

/-! ## Ten pairs -/

/-- Ten groups of two records each. -/
def tenPairs : List TaskRecord :=
  (List.range 10).flatMap fun g =>
    [sampleRecord "resize" ("batch" ++ toString g) 1, sampleRecord "resize" ("batch" ++ toString g) 2]

theorem prepares_tenPairs : Prepares plainExtractor tenPairs := by
  refine prepares_plain (List.forall_mem_flatMap.mpr fun g _ => ?_)
  simp [plain_sampleRecord]

/-- LightGBM returns a model that ranks the held-out pair rightly. -/
def rightModel : FitInput := sampleInput (positionBooster fun i => -i) tenPairs

/-- The second fit is an incremental one. -/
def refitSeldom : LambdaRankEstimator := .new { minGroups := 10 } plainExtractor

theorem quality_gate_of_no_refit_twice :
    EveryStep FitSteps KeepsQuality refitSeldom [rightModel, rightModel] := by
  obtain ⟨fdicts, x, -, -, hfirst⟩ := afterFit_full (e := refitSeldom) (i := rightModel)
    prepares_tenPairs rfl (by decide) fun _ => rfl
  have hdue : (refitSeldom.afterFit rightModel).fullRefitDue = false := by
    rw [hfirst]
    rfl
  have hrun : Run (Guarded (fun _ i => 10 ≤ (validGroupIds i.records).length) FitSteps) refitSeldom
      [rightModel, rightModel] ((refitSeldom.afterFit rightModel).afterFit rightModel) :=
    .cons ⟨rfl, by decide⟩ (.single ⟨rfl, by decide⟩)
  refine (quality_gate_of_no_refit _ _ hrun).2 ?_
  refine (everyStep_cons_iff FitSteps.unique rfl).mpr ⟨?_, (everyStep_cons_iff FitSteps.unique rfl).mpr
    ⟨?_, everyStep_nil⟩⟩
  · rintro ⟨hmodel, -⟩
    cases hmodel
  · rintro ⟨-, hrefit⟩
    cases hdue.symm.trans hrefit

/-! ## A full refit that ranks the other way round -/

/-- Every fit after the first is a full refit. -/
def refitAlways : LambdaRankEstimator :=
  .new { minGroups := 10, fullRefitEveryNIncrementals := 0 } plainExtractor

/-- LightGBM returns a model that ranks the held-out pair the other way. -/
def wrongModel : FitInput := sampleInput (positionBooster fun i => i) tenPairs

theorem validate_tenPairs {score : ℕ → ℚ} {x : List Row}
    (hx : x.length = (groupSizes tenPairs).sum) :
    (fullFitValidation (sampleInput (positionBooster score) tenPairs).env (positionBooster score)
      (assemble tenPairs x)).rho = spearmanRhoGrouped sortPositions [score 0, score 1] [1, 0] [2] := by
  rw [fullFitValidation_eq hx (by decide)]
  have hval : (assemble tenPairs x).xVal.length = 2 := by
    rw [assemble_xVal_length, hx]
    decide
  have hy : (assemble tenPairs x).yVal = [1, 0] := by
    change (rowLabels tenPairs).drop (valStart tenPairs) = [1, 0]
    decide
  have hgroups : (assemble tenPairs x).groupsVal = [2] := by
    change (groupSizes tenPairs).drop (nTrain (groupSizes tenPairs).length) = [2]
    decide
  rw [validate, hy, hgroups]
  simp [positionBooster, hval, sampleInput, List.range_succ]

theorem upsideDown_run :
    Run (Guarded (fun _ i => 10 ≤ (validGroupIds i.records).length) FitSteps) refitAlways
      [rightModel, wrongModel] ((refitAlways.afterFit rightModel).afterFit wrongModel) :=
  .cons ⟨rfl, by decide⟩ (.single ⟨rfl, by decide⟩)

theorem afterFit_rightModel : ∃ fdicts, refitAlways.afterFit rightModel =
    { refitAlways.install rightModel.env (positionBooster fun i => -i) 1 with
      encoder := Encoder.fresh.extend fdicts
      incrementalCount := 0 } := by
  have hfull := afterFit_full (e := refitAlways) (i := rightModel)
    prepares_tenPairs rfl (by decide) fun _ => rfl
  obtain ⟨fdicts, x, hrows, hx, hafter⟩ := hfull
  have hrho : (fullFitValidation rightModel.env (positionBooster fun i => -i)
      (assemble rightModel.records x)).rho = 1 := by
    refine (validate_tenPairs (rows_length hrows hx)).trans ?_
    decide +kernel
  rw [hrho] at hafter
  exact ⟨fdicts, hafter⟩

theorem afterFit_wrongModel {e : LambdaRankEstimator} (hextractor : e.extractor = plainExtractor)
    (hdue : e.fullRefitDue = true) (hgroups : e.config.minGroups ≤ 10) :
    (e.afterFit wrongModel).lastRho = -1 ∧ e.Installs wrongModel := by
  have hprepares : Prepares e.extractor wrongModel.records := hextractor ▸ prepares_tenPairs
  have hfull := afterFit_full hprepares hdue hgroups fun _ => rfl
  obtain ⟨fdicts, x, hrows, hx, hafter⟩ := hfull
  rw [Installs, hafter]
  refine ⟨?_, Nat.succ_ne_self _⟩
  refine (validate_tenPairs (rows_length hrows hx)).trans ?_
  decide +kernel

/-- A full refit replaces a model of rho `1` by one of rho `-1`. -/
theorem full_refit_ignores_gate :
    ¬ ∀ (inputs : List FitInput) (e : LambdaRankEstimator),
      Run (Guarded (fun _ i => 10 ≤ (validGroupIds i.records).length) FitSteps) refitAlways inputs e →
      EveryStep FitSteps KeepsQuality refitAlways inputs := by
  intro hall
  have hkeeps := hall _ _ upsideDown_run [rightModel] wrongModel [] _ rfl (.single rfl)
  rw [keepsQuality_iff_lastRho (by decide)] at hkeeps
  obtain ⟨fdicts, hfirst⟩ := afterFit_rightModel
  have hsecond : ((refitAlways.afterFit rightModel).afterFit wrongModel).lastRho = -1 ∧
      (refitAlways.afterFit rightModel).Installs wrongModel := by
    rw [hfirst]
    exact afterFit_wrongModel rfl rfl (le_refl 10)
  have hle := hkeeps (by rw [hfirst]; rfl) hsecond.2
  rw [hsecond.1, hfirst, rhoRejectionDelta] at hle
  norm_num [install] at hle

end LambdaRankEstimator

end Chronoq.Ranker
