import Chronoq.Ranker.ModelChoice

/-! # Versions as names of models

A trained model is to have a version of its own. A LambdaRank estimator keeps its counter through all
its fits, so the versions of one instance differ whatever the clock shows (`makeVersion_counter`).
A heuristic or a gradient estimator is created anew at every retrain and counts from zero each time:
every trained one of them is "heuristic-v1" or "gradient-v1".

* `TrainedFrom`: the newly trained models that a retrain can put in place of an estimator.
* `Versioned`: a ranker with the models installed so far and the records saved so far, each record with
  the number of models installed before it.
* `CreatesAgain`: the retrain installs a new instance of a class that has been installed before.
* `versions_identify_models`: nothing else makes two models share a version, and for a heuristic or a
  gradient estimator this does. -/

namespace Chronoq.Ranker
open Foundations

set_option autoImplicit false

/-! ## Version strings -/

/-- The text behind the last separator. -/
theorem eq_of_append_cons {α : Type*} {x : α} {l l' r r' : List α} (h : l ++ x :: r = l' ++ x :: r')
    (hr : x ∉ r) (hr' : x ∉ r') : r = r' := by
  rcases List.append_eq_append_iff.mp h with ⟨as, -, has⟩ | ⟨as, -, has⟩
  · cases as with
    | nil => exact (List.cons.inj has).2
    | cons a as =>
      rw [List.cons_append, List.cons.injEq] at has
      exact absurd (has.2 ▸ List.mem_append_right as List.mem_cons_self) hr
  · cases as with
    | nil => exact (List.cons.inj has).2.symm
    | cons a as =>
      rw [List.cons_append, List.cons.injEq] at has
      exact absurd (has.2 ▸ List.mem_append_right as List.mem_cons_self) hr'

def paddedDigits (counter : ℕ) : List Char :=
  List.replicate (4 - (toString counter).length) '0' ++ Nat.toDigits 10 counter

theorem toList_makeVersion (stamp : String) (counter : ℕ) :
    (makeVersion stamp counter).toList =
      ("lambdarank-v" ++ stamp).toList ++ '-' :: paddedDigits counter := by
  have hdigits : (toString counter).toList = Nat.toDigits 10 counter := Nat.toList_repr
  unfold makeVersion paddedDigits
  simp only [String.toList_append, String.toList_ofList, List.append_assoc, hdigits]
  rfl

theorem dash_notMem_paddedDigits (counter : ℕ) : '-' ∉ paddedDigits counter := by
  intro hmem
  rcases List.mem_append.mp hmem with hzero | hdigit
  · cases List.eq_of_mem_replicate hzero
  · exact absurd (Nat.isDigit_of_mem_toDigits (by decide) (by decide) hdigit) (by decide)

theorem ofDigitChars_paddedDigits (counter : ℕ) :
    Nat.ofDigitChars 10 (paddedDigits counter) 0 = counter := by
  rw [paddedDigits, Nat.ofDigitChars_append, Nat.ofDigitChars_replicate_zero, Nat.mul_zero,
    Nat.ofDigitChars_ten_toDigits]

/-- The counter can be read off a version string, whatever the stamps are. -/
theorem makeVersion_counter {stamp stamp' : String} {n n' : ℕ}
    (h : makeVersion stamp n = makeVersion stamp' n') : n = n' := by
  have hchars := congrArg String.toList h
  rw [toList_makeVersion, toList_makeVersion] at hchars
  have hdigits := eq_of_append_cons hchars (dash_notMem_paddedDigits n) (dash_notMem_paddedDigits n')
  rw [← ofDigitChars_paddedDigits n, hdigits, ofDigitChars_paddedDigits]

theorem head_makeVersion (stamp : String) (n : ℕ) :
    (makeVersion stamp n).toList.head? = some 'l' := by
  rw [toList_makeVersion, String.toList_append]
  rfl

theorem makeVersion_ne {v : String} (stamp : String) (n : ℕ) (h : v.toList.head? ≠ some 'l') :
    makeVersion stamp n ≠ v := by
  rintro rfl
  exact h (head_makeVersion stamp n)

/-! ## The models a fit gives -/

/-- The name of the model of an instance is the same. -/
structure LambdaRankEstimator.SameName (l l' : LambdaRankEstimator) : Prop where
  counter : l'.versionCounter = l.versionCounter
  version : l'.versionStr = l.versionStr

/-- The instance has been given a new model. -/
structure LambdaRankEstimator.NextName (stamp : String) (l l' : LambdaRankEstimator) : Prop where
  counter : l'.versionCounter = l.versionCounter + 1
  version : l'.versionStr = makeVersion stamp (l.versionCounter + 1)

theorem LambdaRankEstimator.NextName.estimator_version {stamp : String} {l l' : LambdaRankEstimator}
    (h : l.NextName stamp l') :
    (Estimator.lambdarank l').version = makeVersion stamp (l.versionCounter + 1) := by
  rw [Estimator.version, LambdaRankEstimator.version, h.version]
  exact if_neg (makeVersion_ne stamp _ (by decide))

namespace Estimator

/-- The installed model is the same. A failed or rejected fit may still have changed the encoder of a
LambdaRank estimator. -/
inductive SameModel : Estimator → Estimator → Prop
  | refl (e : Estimator) : SameModel e e
  | refit {l l' : LambdaRankEstimator} (hname : l.SameName l') :
    SameModel (.lambdarank l) (.lambdarank l')

theorem SameModel.version {e e' : Estimator} (h : e.SameModel e') : e'.version = e.version := by
  cases h with
  | refl e => rfl
  | refit hname => simp only [Estimator.version, LambdaRankEstimator.version, hname.version]

theorem SameModel.modelType {e e' : Estimator} (h : e.SameModel e') : e'.modelType = e.modelType := by
  cases h with
  | refl e => rfl
  | refit hname => rfl

/-- The newly trained models that can be put in place of an estimator. -/
inductive TrainedFrom (stamp : String) (before : Estimator) : Estimator → Prop
  | heuristic {h : HeuristicEstimator} (hversion : h.version = "heuristic-v1") :
    TrainedFrom stamp before (.heuristic h)
  | gradient {g : GradientEstimator} (hversion : g.version = "gradient-v1") :
    TrainedFrom stamp before (.gradient g)
  | created {l₀ l : LambdaRankEstimator} (hbefore : before.modelType ≠ .lambdarank)
    (hname : l₀.NextName stamp l) : TrainedFrom stamp before (.lambdarank l)
  | refitted {l₀ l : LambdaRankEstimator} (hbefore : before = .lambdarank l₀)
    (hname : l₀.NextName stamp l) : TrainedFrom stamp before (.lambdarank l)

end Estimator

section Fit
variable {config : RankerConfig} {env : RankerEnv} {records : List TaskRecord}

/-- What a LambdaRank fit does to the name of its model. -/
inductive FitNames (stamp : String) (l : LambdaRankEstimator) :
    LambdaRankEstimator → Except PyException FitMetrics → Prop
  | failed {l' : LambdaRankEstimator} {exc : PyException} (hname : l.SameName l') :
    FitNames stamp l l' (.error exc)
  | rejected {l' : LambdaRankEstimator} {metrics : FitMetrics} (hrejected : metrics.rejected = true)
    (hdue : l.fullRefitDue = false) (hname : l.SameName l') : FitNames stamp l l' (.ok metrics)
  | accepted {l' : LambdaRankEstimator} {metrics : FitMetrics} (hrejected : metrics.rejected = false)
    (hname : l.NextName stamp l') : FitNames stamp l l' (.ok metrics)

theorem fit_names (l : LambdaRankEstimator) (env : FitEnv) (records : List TaskRecord) :
    FitNames env.stamp l (l.fit env records).1 (l.fit env records).2 := by
  have hspec := l.fit_spec env records
  generalize (l.fit env records).1 = l', (l.fit env records).2 = result at hspec ⊢
  cases hspec with
  | unextracted hrows => exact .failed ⟨rfl, rfl⟩
  | fullFailed hdue hrows hwhy => exact .failed ⟨rfl, rfl⟩
  | fullInstalled hdue hrows hx hgroups hfit => exact .accepted rfl ⟨rfl, rfl⟩
  | incrementalFailed hdue hmodel hrows hwhy => exact .failed ⟨rfl, rfl⟩
  | rejected hdue hmodel hrows hx hfit hgate => exact .rejected rfl hdue ⟨rfl, rfl⟩
  | accepted hdue hmodel hrows hx hfit hgate => exact .accepted rfl ⟨rfl, rfl⟩

theorem gradient_fit_version {env : TrainEnv} {fitted : GradientEstimator × FitMetrics}
    (h : GradientEstimator.fit {} env records = .ok fitted) :
    fitted.1.version = "gradient-v1" ∧ fitted.2.rejected = false := by
  obtain ⟨-, -, hversion, hrejected⟩ := gradient_fit_spec h
  refine ⟨hversion.trans ?_, hrejected⟩
  show "gradient-v" ++ toString 1 = "gradient-v1"
  decide

/-- What is trained, what becomes of the instance `l` that is fitted first, and the name it has. -/
inductive DegradeNames (stamp : String) (l : LambdaRankEstimator) :
    LambdaRankEstimator → Except PyException (Estimator × FitMetrics) → Prop
  | failed {l' : LambdaRankEstimator} {exc : PyException} (hname : l.SameName l') :
    DegradeNames stamp l l' (.error exc)
  | rejected {l' : LambdaRankEstimator} {metrics : FitMetrics} (hrejected : metrics.rejected = true)
    (hdue : l.fullRefitDue = false) (hname : l.SameName l') :
    DegradeNames stamp l l' (.ok (.lambdarank l', metrics))
  | accepted {l' : LambdaRankEstimator} {metrics : FitMetrics} (hrejected : metrics.rejected = false)
    (hname : l.NextName stamp l') : DegradeNames stamp l l' (.ok (.lambdarank l', metrics))
  | degraded {l' : LambdaRankEstimator} {g : GradientEstimator} {metrics : FitMetrics}
    (hrejected : metrics.rejected = false) (hversion : g.version = "gradient-v1") :
    DegradeNames stamp l l' (.ok (.gradient g, metrics))

theorem fitOrDegrade_names (config : RankerConfig) (env : RankerEnv) (l : LambdaRankEstimator)
    (records : List TaskRecord) :
    DegradeNames env.stamp l (fitOrDegrade config env l records).1
      (fitOrDegrade config env l records).2 := by
  have hfit : FitNames env.stamp l (orFault env.faults.fit l (l.fit env.toFitEnv records)).1
      (orFault env.faults.fit l (l.fit env.toFitEnv records)).2 := by
    cases env.faults.fit with
    | some exc => exact .failed ⟨rfl, rfl⟩
    | none => exact fit_names l env.toFitEnv records
  unfold fitOrDegrade
  generalize orFault env.faults.fit l (l.fit env.toFitEnv records) = fitted at hfit ⊢
  obtain ⟨l', result⟩ := fitted
  cases hfit with
  | rejected hrejected hdue hname => exact .rejected hrejected hdue hname
  | accepted hrejected hname => exact .accepted hrejected hname
  | failed hname =>
    dsimp only
    split
    · cases hgradient : GradientEstimator.fit {} env.toTrainEnv records with
      | error exc => exact .failed hname
      | ok fitted =>
        obtain ⟨hversion, hrejected⟩ := gradient_fit_version hgradient
        exact .degraded hrejected hversion
    · exact .failed hname

/-- What a retrain makes of the estimator that was installed before. -/
inductive TrainNames (stamp : String) (before : Estimator) :
    Estimator → Except PyException (Estimator × FitMetrics) → Prop
  | failed {after : Estimator} {exc : PyException} (hsame : before.SameModel after) :
    TrainNames stamp before after (.error exc)
  | rejected {after e : Estimator} {metrics : FitMetrics} (hrejected : metrics.rejected = true)
    (hsame : before.SameModel e) : TrainNames stamp before after (.ok (e, metrics))
  | accepted {after e : Estimator} {metrics : FitMetrics} (hrejected : metrics.rejected = false)
    (htrained : before.TrainedFrom stamp e) : TrainNames stamp before after (.ok (e, metrics))

theorem fitHeuristic_names {e before : Estimator} {metrics : FitMetrics}
    (h : fitHeuristic env records = .ok (e, metrics)) :
    metrics.rejected = false ∧ before.TrainedFrom env.stamp e := by
  unfold fitHeuristic at h
  split at h
  · cases h
  · cases h
    exact ⟨rfl, .heuristic rfl⟩

/-- Where no LambdaRank estimator is installed, a new one is fitted; its first fit is a full one, which
no gate rejects. -/
theorem fitOrDegrade_new_names {extractor : FeatureExtractor} {e before : Estimator}
    {metrics : FitMetrics} (hbefore : before.modelType ≠ .lambdarank)
    (h : (fitOrDegrade config env (.new config extractor) records).2 = .ok (e, metrics)) :
    metrics.rejected = false ∧ before.TrainedFrom env.stamp e := by
  have hfit := fitOrDegrade_names config env (.new config extractor) records
  rw [h] at hfit
  generalize (fitOrDegrade config env (.new config extractor) records).1 = l' at hfit
  cases hfit with
  | rejected hrejected hdue hname => cases hdue
  | accepted hrejected hname => exact ⟨hrejected, .created hbefore hname⟩
  | degraded hrejected hversion => exact ⟨hrejected, .gradient hversion⟩

theorem trained_names {extractor : FeatureExtractor} {e before : Estimator} {metrics : FitMetrics}
    (hbefore : before.modelType ≠ .lambdarank)
    (h : trained config extractor env records = .ok (e, metrics)) :
    metrics.rejected = false ∧ before.TrainedFrom env.stamp e := by
  unfold trained at h
  split at h
  · exact fitOrDegrade_new_names hbefore h
  · exact fitHeuristic_names h

/-- Training an estimator from scratch gives a new model or raises. -/
theorem TrainNames.of_created {stamp : String} {before : Estimator}
    {result : Except PyException (Estimator × FitMetrics)}
    (h : ∀ e metrics, result = .ok (e, metrics) →
      metrics.rejected = false ∧ before.TrainedFrom stamp e) :
    TrainNames stamp before before result := by
  cases result with
  | error exc => exact .failed (.refl before)
  | ok fitted =>
    obtain ⟨hrejected, htrained⟩ := h fitted.1 fitted.2 rfl
    exact .accepted hrejected htrained

end Fit

namespace TaskRanker

theorem newEstimator_names (r : TaskRanker) (env : RankerEnv) (records : List TaskRecord) :
    TrainNames env.stamp r.estimator (r.newEstimator env records).1.estimator
      (r.newEstimator env records).2 := by
  unfold newEstimator
  split
  · split
    · next l hl =>
      have hfit := fitOrDegrade_names r.config env l records
      rw [hl]
      dsimp only
      generalize (fitOrDegrade r.config env l records).1 = l',
        (fitOrDegrade r.config env l records).2 = result at hfit ⊢
      cases hfit with
      | failed hname => exact .failed (.refit hname)
      | rejected hrejected hdue hname => exact .rejected hrejected (.refit hname)
      | accepted hrejected hname => exact .accepted hrejected (.refitted rfl hname)
      | degraded hrejected hversion => exact .accepted hrejected (.gradient hversion)
    · next hother =>
      have hbefore : r.estimator.modelType ≠ .lambdarank := by
        cases hestimator : r.estimator with
        | lambdarank l => exact absurd hestimator (hother l)
        | heuristic h => exact ModelType.noConfusion
        | gradient g => exact ModelType.noConfusion
      exact .of_created fun e metrics hfit => fitOrDegrade_new_names hbefore hfit
  · exact .of_created fun e metrics hfit => fitHeuristic_names hfit

/-- The newly trained model that a retrain puts in place; `none` if it raises before, or is rejected. -/
def installs (r : TaskRanker) (env : RankerEnv) : Option Estimator :=
  match env.faults.getAll, driftCheckRaises (r.checkDrift env).2 with
  | none, none =>
    match ((r.driftChecked env).newEstimator env r.store).2 with
    | .ok (estimator, metrics) => if metrics.rejected then none else some estimator
    | .error _ => none
  | _, _ => none

theorem refit_estimator (r : TaskRanker) (env : RankerEnv) (records : List TaskRecord)
    (previousType : ModelType) :
    (r.refit env records previousType).1.estimator =
      match (r.newEstimator env records).2 with
      | .ok (estimator, _) => estimator
      | .error _ => (r.newEstimator env records).1.estimator := by
  unfold refit
  generalize r.newEstimator env records = fitted
  obtain ⟨r₁, exc | ⟨estimator, metrics⟩⟩ := fitted
  · rfl
  · exact updateReference_estimator _ env records metrics.rejected

/-- A retrain leaves the model as it is, or puts a newly trained one in its place. -/
theorem retrain_installs (r : TaskRanker) (env : RankerEnv) :
    (r.installs env = none ∧ r.estimator.SameModel (r.retrain env).1.estimator) ∨
      ∃ e, r.installs env = some e ∧ r.estimator.TrainedFrom env.stamp e ∧
        (r.retrain env).1.estimator = e := by
  unfold installs
  obtain ⟨exc, hgetAll, hretrain⟩ | ⟨exc, hgetAll, hraises, hretrain⟩ |
    ⟨hgetAll, hraises, hretrain⟩ := r.retrain_cases env
  · rw [hretrain, hgetAll]
    exact .inl ⟨rfl, .refl _⟩
  · rw [hretrain, hgetAll, hraises]
    exact .inl ⟨rfl, .refl _⟩
  · rw [hretrain, hgetAll, hraises]
    have hnames := (r.driftChecked env).newEstimator_names env r.store
    have hrefit := (r.driftChecked env).refit_estimator env r.store r.estimator.modelType
    simp only [settle]
    rw [hrefit]
    generalize ((r.driftChecked env).newEstimator env r.store).1.estimator = after,
      ((r.driftChecked env).newEstimator env r.store).2 = result at hnames ⊢
    cases hnames with
    | failed hsame => exact .inl ⟨rfl, hsame⟩
    | rejected hrejected hsame => exact .inl ⟨by simp only [hrejected, if_true], hsame⟩
    | accepted hrejected htrained =>
      exact .inr ⟨_, by simp only [hrejected, Bool.false_eq_true, if_false], htrained, rfl⟩

theorem installs_of_result {r : TaskRanker} {env : RankerEnv} {result : RetrainResult}
    (h : (r.retrain env).2 = .ok result) : r.installs env = none ↔ result.rejected = true := by
  obtain ⟨exc, -, hretrain⟩ | ⟨exc, -, -, hretrain⟩ | ⟨hgetAll, hraises, hretrain⟩ :=
    r.retrain_cases env
  · rw [hretrain] at h
    cases h
  · rw [hretrain] at h
    cases h
  · rw [hretrain] at h
    unfold installs
    rw [hgetAll, hraises]
    unfold refit at h
    generalize (r.driftChecked env).newEstimator env r.store = fitted at h ⊢
    obtain ⟨r₁, exc | ⟨estimator, metrics⟩⟩ := fitted
    · cases h
    · obtain ⟨-, -, rfl⟩ := exists_of_map_ok h
      dsimp only [retrainResult]
      split
      · next hrejected => exact iff_of_true rfl hrejected
      · next hkept => exact iff_of_false (Option.some_ne_none _) hkept

def installedBy (r : TaskRanker) (a : RankerStep) : Option Estimator :=
  (r.attempt a).bind fun attempted => attempted.1.installs attempted.2

def savedBy (r : TaskRanker) : RankerStep → List TaskRecord
  | .record env call => if env.faults.save = none then [r.recordOf call env.now] else []
  | .retrain _ => []

theorem step_of_no_attempt {r : TaskRanker} {a : RankerStep} (h : r.attempt a = none) :
    (r.step a).1.estimator = r.estimator := by
  obtain ⟨env, call, -, -, hstep⟩ | ⟨env, call, -, -, -, hstep⟩ |
    ⟨env, call, rfl, hsave, hdue, -⟩ | ⟨env, rfl, -⟩ := r.step_cases a
  · rw [hstep]
  · rw [hstep]
    rfl
  · rw [attempt, if_pos ⟨hsave, hdue⟩] at h
    cases h
  · cases h

theorem attempt_estimator {r r' : TaskRanker} {a : RankerStep} {env : RankerEnv}
    (h : r.attempt a = some (r', env)) : r'.estimator = r.estimator := by
  cases a with
  | retrain env₀ =>
    cases h
    rfl
  | record env₀ call =>
    rw [attempt] at h
    split at h
    · cases h
      rfl
    · cases h

theorem step_installs (r : TaskRanker) (a : RankerStep) :
    (r.installedBy a = none ∧ r.estimator.SameModel (r.step a).1.estimator) ∨
      ∃ e stamp, r.installedBy a = some e ∧ r.estimator.TrainedFrom stamp e ∧
        (r.step a).1.estimator = e := by
  obtain ⟨hnone, -⟩ | ⟨r', env, hattempt, hstep⟩ := r.step_attempt a
  · refine .inl ⟨by rw [installedBy, hnone]; rfl, ?_⟩
    rw [step_of_no_attempt hnone]
    exact .refl _
  · rw [installedBy, hattempt, hstep, ← attempt_estimator hattempt]
    obtain ⟨hnone, hsame⟩ | ⟨e, hsome, htrained, hinstalled⟩ := r'.retrain_installs env
    · exact .inl ⟨hnone, hsame⟩
    · exact .inr ⟨e, env.stamp, hsome, htrained, hinstalled⟩

theorem savedBy_version {r : TaskRanker} {a : RankerStep} {record : TaskRecord}
    (h : record ∈ r.savedBy a) : record.modelVersionAtRecord = r.estimator.version := by
  cases a with
  | retrain env => cases h
  | record env call =>
    rw [savedBy] at h
    split at h
    · rw [List.mem_singleton.mp h]
      rfl
    · cases h

end TaskRanker

/-! ## Runs -/

/-- A ranker, the class and the version of each newly trained model installed so far, and the records
saved so far, each with the number of models installed before it. -/
structure Versioned where
  ranker : TaskRanker
  installed : List (ModelType × String)
  recorded : List (TaskRecord × ℕ)

namespace Versioned

/-- Before the first call; a warm start has installed a model. -/
def start (config : RankerConfig) (extractor : FeatureExtractor) (store : List TaskRecord)
    (env : RankerEnv) : Except PyException Versioned :=
  (TaskRanker.construct config extractor store env).map fun r =>
    { ranker := r
      installed := if store = [] then [] else [(r.estimator.modelType, r.estimator.version)]
      recorded := [] }

def after (v : Versioned) (a : RankerStep) : Versioned where
  ranker := (v.ranker.step a).1
  installed := v.installed ++
    ((v.ranker.installedBy a).map fun e => (e.modelType, e.version)).toList
  recorded := v.recorded ++ (v.ranker.savedBy a).map fun record => (record, v.installed.length)

abbrev Steps : Versioned → RankerStep → Versioned → Prop := fun v a v' => v.after a = v'

theorem Steps.unique (v : Versioned) (a : RankerStep) (v' v'' : Versioned) (h : Steps v a v')
    (h' : Steps v a v'') : v' = v'' :=
  h.symm.trans h'

/-- The versions of all models of the run; the first is the untrained heuristic. -/
def versions (v : Versioned) : List String :=
  HeuristicEstimator.version {} :: v.installed.map Prod.snd

/-- No two models have a version in common, and neither have two records of different models. -/
structure VersionLaws (v : Versioned) : Prop where
  installed : v.versions.Nodup
  recorded : ∀ p ∈ v.recorded, ∀ q ∈ v.recorded,
    p.1.modelVersionAtRecord = q.1.modelVersionAtRecord → p.2 = q.2

/-- A call that installs no model leaves the version as it is, and a rejected fit installs none. -/
structure KeepsVersion (v : Versioned) (a : RankerStep) : Prop where
  version : v.ranker.installedBy a = none →
    (v.after a).ranker.estimator.version = v.ranker.estimator.version
  rejected : ∀ result, (v.ranker.step a).2 = some (.ok result) → result.rejected = true →
    v.ranker.installedBy a = none

/-- The call installs a model of a class of which the run has installed one before. -/
def TrainsAgain (v : Versioned) (a : RankerStep) (t : ModelType) : Prop :=
  t ∈ v.installed.map Prod.fst ∧ ∃ e, v.ranker.installedBy a = some e ∧ e.modelType = t

/-- The model is of a new instance: only a LambdaRank estimator that is installed is fitted again. -/
def CreatesAgain (v : Versioned) (a : RankerStep) : Prop :=
  v.TrainsAgain a .heuristic ∨ v.TrainsAgain a .gradientBoosting ∨
    (v.TrainsAgain a .lambdarank ∧ v.ranker.estimator.modelType ≠ .lambdarank)

/-! ## The names of a run -/

/-- The version that a newly trained model of a class can have. -/
inductive Name : ModelType → String → Prop
  | heuristic : Name .heuristic "heuristic-v1"
  | gradient : Name .gradientBoosting "gradient-v1"
  | lambdarank (stamp : String) (n : ℕ) : Name .lambdarank (makeVersion stamp n)

theorem Name.of_trained {before e : Estimator} {stamp : String} (h : before.TrainedFrom stamp e) :
    Name e.modelType e.version := by
  cases h with
  | heuristic hversion =>
    show Name .heuristic _
    rw [Estimator.version, hversion]
    exact .heuristic
  | gradient hversion =>
    show Name .gradientBoosting _
    rw [Estimator.version, hversion]
    exact .gradient
  | created hbefore hname =>
    show Name .lambdarank _
    rw [hname.estimator_version]
    exact .lambdarank _ _
  | refitted hbefore hname =>
    show Name .lambdarank _
    rw [hname.estimator_version]
    exact .lambdarank _ _

def initialOf : ModelType → Char
  | .heuristic => 'h'
  | .gradientBoosting => 'g'
  | .lambdarank => 'l'

theorem Name.head {t : ModelType} {version : String} (h : Name t version) :
    version.toList.head? = some (initialOf t) := by
  cases h with
  | heuristic => decide
  | gradient => decide
  | lambdarank stamp n => exact head_makeVersion stamp n

/-- The class can be read off the version. -/
theorem Name.class_eq {t t' : ModelType} {version : String} (h : Name t version)
    (h' : Name t' version) : t = t' := by
  have hinitial := Option.some.inj (h.head.symm.trans h'.head)
  cases t <;> cases t' <;> first | rfl | cases hinitial

theorem Name.ne_untrained {t : ModelType} {version : String} (h : Name t version) :
    version ≠ HeuristicEstimator.version {} := by
  cases h with
  | heuristic => decide
  | gradient => decide
  | lambdarank stamp n => exact makeVersion_ne stamp n (by decide)

/-- Holds throughout every run: the last version is the one of the installed model, a record has the
version of its own, and every version is a name of its class. -/
structure Named (v : Versioned) : Prop where
  current : v.versions[v.installed.length]? = some v.ranker.estimator.version
  recorded : ∀ p ∈ v.recorded, v.versions[p.2]? = some p.1.modelVersionAtRecord
  names : ∀ m ∈ v.installed, Name m.1 m.2

theorem length_versions (v : Versioned) : v.versions.length = v.installed.length + 1 := by
  simp [versions]

theorem after_of_installs {v : Versioned} {a : RankerStep} {e : Estimator}
    (h : v.ranker.installedBy a = some e) :
    (v.after a).installed = v.installed ++ [(e.modelType, e.version)] := by
  simp only [after, h, Option.map_some, Option.toList_some]

theorem after_of_installs_none {v : Versioned} {a : RankerStep}
    (h : v.ranker.installedBy a = none) : (v.after a).installed = v.installed := by
  simp only [after, h, Option.map_none, Option.toList_none, List.append_nil]

theorem versions_after_of_installs {v : Versioned} {a : RankerStep} {e : Estimator}
    (h : v.ranker.installedBy a = some e) : (v.after a).versions = v.versions ++ [e.version] := by
  rw [versions, versions, after_of_installs h, List.map_append]
  rfl

theorem versions_extend (v : Versioned) (a : RankerStep) : v.versions <+: (v.after a).versions := by
  cases h : v.ranker.installedBy a with
  | none => rw [versions, versions, after_of_installs_none h]
  | some e =>
    rw [versions_after_of_installs h]
    exact List.prefix_append _ _

/-- A model keeps its version. -/
theorem version_after {v : Versioned} {k : ℕ} {version : String} (h : v.versions[k]? = some version)
    (a : RankerStep) : (v.after a).versions[k]? = some version := by
  obtain ⟨hk, rfl⟩ := List.getElem?_eq_some_iff.mp h
  exact List.prefix_iff_getElem?.mp (v.versions_extend a) k hk

theorem Named.step {v : Versioned} (h : v.Named) (a : RankerStep) : (v.after a).Named := by
  refine ⟨?_, ?_, ?_⟩
  · obtain ⟨hnone, hsame⟩ | ⟨e, stamp, hsome, -, hinstalled⟩ := v.ranker.step_installs a
    · rw [versions, after_of_installs_none hnone]
      exact h.current.trans (congrArg some hsame.version.symm)
    · rw [versions_after_of_installs hsome, after_of_installs hsome, List.length_append,
        List.length_singleton, ← length_versions, List.getElem?_concat_length]
      exact congrArg (some ·.version) hinstalled.symm
  · intro p hp
    rcases List.mem_append.mp hp with hold | hnew
    · exact version_after (h.recorded p hold) a
    · obtain ⟨record, hrecord, rfl⟩ := List.mem_map.mp hnew
      rw [TaskRanker.savedBy_version hrecord]
      exact version_after h.current a
  · obtain ⟨hnone, -⟩ | ⟨e, stamp, hsome, htrained, -⟩ := v.ranker.step_installs a
    · rw [after_of_installs_none hnone]
      exact h.names
    · rw [after_of_installs hsome]
      intro m hm
      rcases List.mem_append.mp hm with hold | hnew
      · exact h.names m hold
      · rw [List.mem_singleton.mp hnew]
        exact Name.of_trained htrained

theorem Named.start {config : RankerConfig} {extractor : FeatureExtractor}
    {store : List TaskRecord} {env : RankerEnv} {v : Versioned}
    (h : start config extractor store env = .ok v) : v.Named := by
  obtain ⟨r, hr, rfl⟩ := exists_of_map_ok h
  by_cases hstore : store = []
  · subst hstore
    cases hr
    exact ⟨rfl, by simp, by simp⟩
  · rw [if_neg hstore]
    refine ⟨rfl, by simp, ?_⟩
    rw [TaskRanker.construct_eq hstore] at hr
    obtain ⟨⟨e, metrics⟩, htrained, rfl⟩ := exists_of_map_ok hr
    have huntrained : (Estimator.heuristic {}).modelType ≠ .lambdarank := ModelType.noConfusion
    intro m hm
    rw [List.mem_singleton.mp hm]
    exact Name.of_trained (trained_names huntrained htrained).2

/-- Models with different versions, and no version of the installed LambdaRank estimator to come. -/
structure Distinct (v : Versioned) : Prop where
  nodup : v.versions.Nodup
  counters : ∀ l, v.ranker.estimator = .lambdarank l →
    ∀ stamp n, (ModelType.lambdarank, makeVersion stamp n) ∈ v.installed → n ≤ l.versionCounter

theorem Named.laws {v : Versioned} (h : v.Named) (hnodup : v.versions.Nodup) : v.VersionLaws := by
  refine ⟨hnodup, fun p hp q hq hversion => ?_⟩
  have hp' := h.recorded p hp
  have hq' := h.recorded q hq
  rw [← hversion] at hq'
  obtain ⟨hk, -⟩ := List.getElem?_eq_some_iff.mp hp'
  exact (List.getElem?_inj hk hnodup).mp (hp'.trans hq'.symm)

/-- A version is new if its class is, or if it has a counter that none of its class had. -/
theorem Named.version_notMem {v : Versioned} (h : v.Named) {t : ModelType} {version : String}
    (hname : Name t version) (hnew : (t, version) ∉ v.installed) : version ∉ v.versions := by
  intro hmem
  rcases List.mem_cons.mp hmem with huntrained | hinstalled
  · exact hname.ne_untrained huntrained
  · obtain ⟨m, hm, rfl⟩ := List.mem_map.mp hinstalled
    obtain rfl := hname.class_eq (h.names m hm)
    exact hnew hm

theorem nodup_after {v : Versioned} {a : RankerStep} {e : Estimator} (hnamed : v.Named)
    (hnodup : v.versions.Nodup) (hsome : v.ranker.installedBy a = some e)
    (hname : Name e.modelType e.version) (hnew : (e.modelType, e.version) ∉ v.installed) :
    (v.after a).versions.Nodup := by
  rw [versions_after_of_installs hsome, ← List.concat_eq_append]
  exact hnodup.concat (hnamed.version_notMem hname hnew)

theorem installed_name {v : Versioned} {a : RankerStep} {e : Estimator}
    (hsome : v.ranker.installedBy a = some e) : Name e.modelType e.version := by
  obtain ⟨hnone, -⟩ | ⟨e', stamp, hsome', htrained, -⟩ := v.ranker.step_installs a
  · rw [hnone] at hsome
    cases hsome
  · rw [hsome'] at hsome
    cases hsome
    exact Name.of_trained htrained

theorem not_trainsAgain {v : Versioned} {a : RankerStep} {e : Estimator}
    (h : ¬ v.TrainsAgain a e.modelType) (hsome : v.ranker.installedBy a = some e)
    (version : String) : (e.modelType, version) ∉ v.installed := by
  intro hmem
  exact h ⟨List.mem_map.mpr ⟨_, hmem, rfl⟩, e, hsome, rfl⟩

/-- A call that installs no model of a class the run has installed before, except by fitting the
LambdaRank instance again. -/
theorem Distinct.step {v : Versioned} (h : v.Distinct) (hnamed : v.Named) {a : RankerStep}
    (hguard : ¬ v.CreatesAgain a) : (v.after a).Distinct := by
  unfold CreatesAgain at hguard
  push Not at hguard
  obtain ⟨hheuristic, hgradient, hlambdarank⟩ := hguard
  obtain ⟨hnone, hsame⟩ | ⟨e, stamp, hsome, htrained, hinstalled⟩ := v.ranker.step_installs a
  · have hinstalled := after_of_installs_none hnone
    refine ⟨by rw [versions, hinstalled]; exact h.nodup, ?_⟩
    rw [hinstalled]
    intro l' hl'
    change (v.ranker.step a).1.estimator = _ at hl'
    rw [hl'] at hsame
    generalize hbefore : v.ranker.estimator = before at hsame
    cases hsame with
    | refl => exact h.counters l' hbefore
    | refit hname =>
      rw [hname.counter]
      exact h.counters _ hbefore
  · have hname := Name.of_trained htrained
    have hafter := after_of_installs hsome
    have hnodup := nodup_after hnamed h.nodup hsome hname
    have hcurrent : (v.after a).ranker.estimator = e := hinstalled
    cases htrained with
    | heuristic hversion =>
      refine ⟨hnodup (not_trainsAgain hheuristic hsome _), fun l hl => ?_⟩
      rw [hcurrent] at hl
      cases hl
    | gradient hversion =>
      refine ⟨hnodup (not_trainsAgain hgradient hsome _), fun l hl => ?_⟩
      rw [hcurrent] at hl
      cases hl
    | @created l₀ l hbefore hnext =>
      have hfirst := not_trainsAgain (fun hagain => hbefore (hlambdarank hagain)) hsome
      refine ⟨hnodup (hfirst _), fun l' hl' stamp' n hmem => ?_⟩
      rw [hcurrent] at hl'
      cases hl'
      rw [hafter] at hmem
      rcases List.mem_append.mp hmem with hold | hlast
      · exact absurd hold (hfirst _)
      · have hversion := congrArg Prod.snd (List.mem_singleton.mp hlast)
        rw [hnext.estimator_version] at hversion
        rw [hnext.counter, makeVersion_counter hversion]
    | @refitted l₀ l hbefore hnext =>
      have hcounters := h.counters l₀ hbefore
      refine ⟨hnodup ?_, fun l' hl' stamp' n hmem => ?_⟩
      · rw [hnext.estimator_version]
        intro hmem
        have hle := hcounters _ _ hmem
        omega
      · rw [hcurrent] at hl'
        cases hl'
        rw [hafter] at hmem
        rw [hnext.counter]
        rcases List.mem_append.mp hmem with hold | hlast
        · exact (hcounters _ _ hold).trans (Nat.le_succ _)
        · have hversion := congrArg Prod.snd (List.mem_singleton.mp hlast)
          rw [hnext.estimator_version] at hversion
          rw [makeVersion_counter hversion]

theorem Distinct.start {config : RankerConfig} {extractor : FeatureExtractor}
    {store : List TaskRecord} {env : RankerEnv} {v : Versioned}
    (h : start config extractor store env = .ok v) : v.Distinct := by
  have hnamed := Named.start h
  obtain ⟨r, hr, rfl⟩ := exists_of_map_ok h
  by_cases hstore : store = []
  · simp only [if_pos hstore] at hnamed ⊢
    exact ⟨List.nodup_singleton _, by simp⟩
  · simp only [if_neg hstore] at hnamed ⊢
    rw [TaskRanker.construct_eq hstore] at hr
    obtain ⟨⟨e, metrics⟩, htrained, rfl⟩ := exists_of_map_ok hr
    have huntrained : (Estimator.heuristic {}).modelType ≠ .lambdarank := ModelType.noConfusion
    have hnew := (trained_names huntrained htrained).2
    refine ⟨?_, fun l hl stamp n hmem => ?_⟩
    · have hne := (hnamed.names _ (List.mem_singleton_self _)).ne_untrained
      exact List.nodup_cons.mpr ⟨by simpa using hne.symm, List.nodup_singleton _⟩
    · have hversion := congrArg Prod.snd (List.mem_singleton.mp hmem)
      change e = .lambdarank l at hl
      subst hl
      cases hnew with
      | created hbefore hnext =>
        change makeVersion stamp n = (Estimator.lambdarank l).version at hversion
        rw [hnext.estimator_version] at hversion
        rw [hnext.counter, makeVersion_counter hversion]
      | refitted hbefore hnext => cases hbefore

/-- A class whose instances count from zero has one version. -/
theorem Name.unique {t : ModelType} {version version' : String} (ht : t ≠ .lambdarank)
    (h : Name t version) (h' : Name t version') : version = version' := by
  cases h with
  | heuristic =>
    cases h'
    rfl
  | gradient =>
    cases h'
    rfl
  | lambdarank stamp n => exact absurd rfl ht

theorem not_nodup_after {v : Versioned} (h : v.Named) {a : RankerStep} {t : ModelType}
    (ht : t ≠ .lambdarank) (hagain : v.TrainsAgain a t) : ¬ (v.after a).versions.Nodup := by
  obtain ⟨hbefore, e, hsome, rfl⟩ := hagain
  obtain ⟨m, hm, hclass⟩ := List.mem_map.mp hbefore
  rw [versions_after_of_installs hsome, List.nodup_append]
  rintro ⟨-, -, hdisjoint⟩
  have hmem : m.2 ∈ v.versions := List.mem_cons_of_mem _ (List.mem_map.mpr ⟨m, hm, rfl⟩)
  have hname := h.names m hm
  rw [hclass] at hname
  exact hdisjoint m.2 hmem e.version (List.mem_singleton_self _)
    (hname.unique ht (installed_name hsome))

theorem keepsVersion (v : Versioned) (a : RankerStep) : v.KeepsVersion a := by
  constructor
  · intro hnone
    obtain ⟨-, hsame⟩ | ⟨e, stamp, hsome, -⟩ := v.ranker.step_installs a
    · exact hsame.version
    · rw [hnone] at hsome
      cases hsome
  · intro result hresult hrejected
    obtain ⟨hnone, hstep⟩ | ⟨r', env, hattempt, hstep⟩ := v.ranker.step_attempt a
    · rw [TaskRanker.installedBy, hnone]
      rfl
    · rw [hstep] at hresult
      rw [TaskRanker.installedBy, hattempt]
      exact (TaskRanker.installs_of_result (Option.some.inj hresult)).mpr hrejected

theorem named_of_run {v₀ v : Versioned} {as : List RankerStep} (hrun : Run Steps v₀ as v)
    (h : v₀.Named) : v.Named := by
  refine hrun.preserves (P := Named) ?_ h
  rintro v a v' rfl hv
  exact hv.step a

theorem distinct_of_run {v₀ v : Versioned} {as : List RankerStep}
    (hrun : Run (Guarded (fun v a => ¬ v.CreatesAgain a) Steps) v₀ as v) (hnamed : v₀.Named)
    (h : v₀.Distinct) : v.Named ∧ v.Distinct := by
  refine hrun.preserves (P := fun v => v.Named ∧ v.Distinct) ?_ ⟨hnamed, h⟩
  rintro v a v' ⟨rfl, hguard⟩ ⟨hv, hd⟩
  exact ⟨hv.step a, hd.step hv hguard⟩

/-- For any records in the store and any calls after construction, with any clock, any exceptions and
any results of the fits: versions are distinct as long as no retrain installs a new instance of a class
that the run has installed before, a second heuristic or gradient estimator always repeats a version,
and a call that installs nothing keeps the version. -/
theorem versions_identify_models {config : RankerConfig} {extractor : FeatureExtractor}
    {store : List TaskRecord} {env₀ : RankerEnv} {v₀ : Versioned}
    (h₀ : start config extractor store env₀ = .ok v₀) (as : List RankerStep) :
    (EveryStep Steps (fun v a => ¬ v.CreatesAgain a) v₀ as → Throughout Steps VersionLaws v₀ as) ∧
    (Throughout Steps VersionLaws v₀ as → EveryStep Steps
      (fun v a => ¬ v.TrainsAgain a .heuristic ∧ ¬ v.TrainsAgain a .gradientBoosting) v₀ as) ∧
    EveryStep Steps KeepsVersion v₀ as := by
  have hnamed := Named.start h₀
  refine ⟨?_, ?_, fun bs a cs v _ _ => v.keepsVersion a⟩
  · intro hguard bs cs v hsplit hrun
    subst hsplit
    obtain ⟨hv, hd⟩ := distinct_of_run (hguard.of_append.guarded hrun) hnamed (Distinct.start h₀)
    exact hv.laws hd.nodup
  · intro hlaws bs a cs v hsplit hrun
    have hv := named_of_run hrun hnamed
    have hafter := hlaws (bs ++ [a]) cs _ (by simp [hsplit]) (hrun.snoc rfl)
    exact ⟨fun hagain => not_nodup_after hv ModelType.noConfusion hagain hafter.installed,
      fun hagain => not_nodup_after hv ModelType.noConfusion hagain hafter.installed⟩

/-! ## Two trained heuristics -/

def coldStart : Versioned where
  ranker := TaskRanker.fresh {} plainExtractor []
  installed := []
  recorded := []

/-- A record and a retrain, twice, far below the cold-start threshold. -/
def coldRetrains : List RankerStep :=
  [.record (TaskRanker.sampleEnv {}) TaskRanker.resizeCall, .retrain (TaskRanker.sampleEnv {}),
    .record (TaskRanker.sampleEnv {}) TaskRanker.resizeCall, .retrain (TaskRanker.sampleEnv {}),
    .record (TaskRanker.sampleEnv {}) TaskRanker.resizeCall]

theorem versions_identify_models_cold :
    (EveryStep Steps (fun v a => ¬ v.CreatesAgain a) coldStart coldRetrains →
      Throughout Steps VersionLaws coldStart coldRetrains) ∧
    (Throughout Steps VersionLaws coldStart coldRetrains → EveryStep Steps
      (fun v a => ¬ v.TrainsAgain a .heuristic ∧ ¬ v.TrainsAgain a .gradientBoosting)
      coldStart coldRetrains) ∧
    EveryStep Steps KeepsVersion coldStart coldRetrains :=
  have hstart : start {} plainExtractor [] (TaskRanker.sampleEnv {}) = .ok coldStart := rfl
  versions_identify_models hstart coldRetrains

/-- Both models are "heuristic-v1", and so are the versions of the two records made under them. -/
theorem cold_retrains_share_version :
    start {} plainExtractor [] (TaskRanker.sampleEnv {}) = .ok coldStart ∧
      (coldRetrains.foldl after coldStart).versions =
        ["heuristic-v0", "heuristic-v1", "heuristic-v1"] ∧
      (coldRetrains.foldl after coldStart).recorded.map
          (fun p => (p.1.modelVersionAtRecord, p.2)) =
        [("heuristic-v0", 0), ("heuristic-v1", 1), ("heuristic-v1", 2)] ∧
      ¬ Throughout Steps VersionLaws coldStart coldRetrains := by
  refine ⟨rfl, rfl, rfl, ?_⟩
  intro hlaws
  have hlast := hlaws coldRetrains [] _ (List.append_nil _).symm
    (.cons rfl (.cons rfl (.cons rfl (.cons rfl (.cons rfl (.nil _))))))
  have hnodup : ["heuristic-v0", "heuristic-v1", "heuristic-v1"].Nodup := hlast.installed
  revert hnodup
  decide

end Versioned

end Chronoq.Ranker
