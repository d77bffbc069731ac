import Chronoq.Ranker.FitRuns

/-! # The schedule of full refits

A fit is full while there is no model and after every `N` incremental ones. The count that decides
it is written after the work, so an attempt that raises leaves it where it was.

* `fitPath`: which of the two fits an attempt is, the fallback to a full one included; `fit_runs`
  says that the attempt is that fit.
* `Scheduled`: an estimator and the log of the attempts made on it, oldest first.
* `returnedSinceFull`: the incremental attempts of a log that returned after its last full one that
  did. `OnSchedule` ties it to the count, and the place in the cycle to the length of the log. -/

namespace Chronoq.Ranker
open Foundations

set_option autoImplicit false

/-! ## The two paths -/

inductive FitPath
  | full
  | incremental
  deriving DecidableEq, Repr

namespace LambdaRankEstimator

/-- The fit that an attempt is. An incremental fit that finds no model falls back to a full one. -/
def fitPath (e : LambdaRankEstimator) : FitPath :=
  if e.fullRefitDue then .full
  else match e.model with
    | none => .full
    | some _ => .incremental

theorem fullRefitDue_iff (e : LambdaRankEstimator) :
    e.fullRefitDue = true ↔
      e.model = none ∨ e.config.fullRefitEveryNIncrementals ≤ e.incrementalCount := by
  simp [fullRefitDue]

theorem fitPath_eq_full_iff (e : LambdaRankEstimator) :
    e.fitPath = .full ↔ e.fullRefitDue = true := by
  unfold fitPath
  cases hdue : e.fullRefitDue with
  | true => simp
  | false =>
    have hmodel : e.model ≠ none := fun hnone => by
      simp [e.fullRefitDue_iff.mpr (.inl hnone)] at hdue
    obtain ⟨model, hmodel⟩ := Option.ne_none_iff_exists'.mp hmodel
    simp [hmodel]

theorem fitPath_eq_incremental_iff (e : LambdaRankEstimator) :
    e.fitPath = .incremental ↔ e.fullRefitDue = false := by
  have hfull := e.fitPath_eq_full_iff
  cases hpath : e.fitPath <;> cases hdue : e.fullRefitDue <;> simp_all

/-- What an attempt returns or raises is what the fit on its path does. -/
theorem fit_runs (e : LambdaRankEstimator) (i : FitInput) :
    (e.fit i.env i.records).2 =
      match e.fitPath with
      | .full => (e.fullFit i.env i.records).2
      | .incremental => (e.incrementalFit i.env i.records).2 := by
  cases hpath : e.fitPath with
  | full =>
    rw [fit, if_pos (e.fitPath_eq_full_iff.mp hpath)]
    cases e.fullFit i.env i.records with
    | mk e' result => cases result <;> rfl
  | incremental =>
    rw [fit, if_neg (by simp [e.fitPath_eq_incremental_iff.mp hpath])]
    cases e.incrementalFit i.env i.records with
    | mk e' result => cases result <;> rfl

/-- The call returns, with a model accepted or rejected. -/
def returns (e : LambdaRankEstimator) (i : FitInput) : Bool := (e.fit i.env i.records).2.isOk

/-- What an attempt does to the model and the count: nothing when it raises, and otherwise the count
is set back or goes up by one. -/
theorem afterFit_schedule (e : LambdaRankEstimator) (i : FitInput) :
    (e.returns i = false ∧ (e.afterFit i).model = e.model ∧
        (e.afterFit i).incrementalCount = e.incrementalCount) ∨
      (e.returns i = true ∧ e.fitPath = .full ∧ (e.afterFit i).model ≠ none ∧
        (e.afterFit i).incrementalCount = 0) ∨
      (e.returns i = true ∧ e.fitPath = .incremental ∧ (e.afterFit i).model ≠ none ∧
        (e.afterFit i).incrementalCount = e.incrementalCount + 1) := by
  unfold returns afterFit
  have hspec := e.fit_spec i.env i.records
  generalize (e.fit i.env i.records).1 = e', (e.fit i.env i.records).2 = result at hspec ⊢
  cases hspec with
  | unextracted hrows => exact .inl ⟨rfl, rfl, rfl⟩
  | fullFailed hdue hrows hwhy => exact .inl ⟨rfl, rfl, rfl⟩
  | fullInstalled hdue hrows hx hgroups hfit =>
    exact .inr (.inl ⟨rfl, e.fitPath_eq_full_iff.mpr hdue, by simp [install], rfl⟩)
  | incrementalFailed hdue hmodel hrows hwhy => exact .inl ⟨rfl, rfl, rfl⟩
  | rejected hdue hmodel hrows hx hfit hgate =>
    exact .inr (.inr ⟨rfl, e.fitPath_eq_incremental_iff.mpr hdue, by simp [hmodel], rfl⟩)
  | accepted hdue hmodel hrows hx hfit hgate =>
    exact .inr (.inr ⟨rfl, e.fitPath_eq_incremental_iff.mpr hdue, by simp [install], rfl⟩)

/-- An attempt that raises leaves the next one on the same path. -/
theorem fitPath_of_raises {e : LambdaRankEstimator} {i : FitInput} (h : e.returns i = false) :
    (e.afterFit i).incrementalCount = e.incrementalCount ∧ (e.afterFit i).fitPath = e.fitPath := by
  rcases e.afterFit_schedule i with ⟨-, hmodel, hcount⟩ | ⟨hreturns, -⟩ | ⟨hreturns, -⟩
  · refine ⟨hcount, ?_⟩
    unfold fitPath fullRefitDue
    rw [hmodel, hcount, (e.afterFit_fixed i).1]
  · rw [hreturns] at h
    cases h
  · rw [hreturns] at h
    cases h

end LambdaRankEstimator

/-! ## Logs of attempts -/

structure Attempt where
  path : FitPath
  returned : Bool
  deriving DecidableEq, Repr

/-- A full fit that returned. -/
def Attempt.refits (a : Attempt) : Bool := a.path = .full ∧ a.returned

/-- The attempts after the last full one that returned. -/
def sinceFull (log : List Attempt) : List Attempt := log.rtakeWhile fun a => !a.refits

def returnedSinceFull (log : List Attempt) : ℕ :=
  (sinceFull log).countP fun a => a.path = .incremental ∧ a.returned

theorem returnedSinceFull_concat (log : List Attempt) (a : Attempt) :
    returnedSinceFull (log ++ [a]) =
      if a.refits then 0
      else returnedSinceFull log + if a.path = .incremental ∧ a.returned then 1 else 0 := by
  unfold returnedSinceFull sinceFull
  cases hrefits : a.refits with
  | true => rw [List.rtakeWhile_concat_neg _ _ _ (by simp [hrefits])]; rfl
  | false =>
    rw [List.rtakeWhile_concat_pos _ _ _ (by simp [hrefits])]
    simp [List.countP_append, List.countP_cons]

structure Scheduled where
  est : LambdaRankEstimator
  log : List Attempt

namespace Scheduled

def start (config : RankerConfig) (extractor : FeatureExtractor) : Scheduled :=
  ⟨.new config extractor, []⟩

def attempt (s : Scheduled) (i : FitInput) : Scheduled where
  est := s.est.afterFit i
  log := s.log ++ [⟨s.est.fitPath, s.est.returns i⟩]

abbrev Steps : Scheduled → FitInput → Scheduled → Prop := fun s i s' => s.attempt i = s'

/-- The count is that of the log and at most `N`; and when every attempt so far returned, the log is
a number of whole cycles of `N + 1`, a full fit and `count` incremental ones. -/
structure OnSchedule (config : RankerConfig) (s : Scheduled) : Prop where
  config_eq : s.est.config = config
  count_eq : s.est.incrementalCount = returnedSinceFull s.log
  count_le : (s.est.incrementalCount : ℤ) ≤ config.fullRefitEveryNIncrementals
  cycle : (∀ a ∈ s.log, a.returned = true) →
    (s.est.model = none ∧ s.log = []) ∨
      (s.est.model ≠ none ∧ ∃ cycles : ℕ, s.log.length =
        cycles * (config.fullRefitEveryNIncrementals.toNat + 1) + s.est.incrementalCount + 1)

theorem OnSchedule.fitPath_iff {config : RankerConfig} {s : Scheduled} (hs : s.OnSchedule config) :
    s.est.fitPath = .full ↔
      s.est.model = none ∨
        (returnedSinceFull s.log : ℤ) = config.fullRefitEveryNIncrementals := by
  rw [LambdaRankEstimator.fitPath_eq_full_iff, LambdaRankEstimator.fullRefitDue_iff, hs.config_eq,
    ← hs.count_eq]
  have hle := hs.count_le
  refine or_congr_right ⟨fun hdue => ?_, fun heq => ?_⟩ <;> omega

theorem onSchedule_start {config : RankerConfig} (extractor : FeatureExtractor)
    (hN : 0 ≤ config.fullRefitEveryNIncrementals) : (start config extractor).OnSchedule config where
  config_eq := rfl
  count_eq := rfl
  count_le := hN
  cycle := fun _ => .inl ⟨rfl, rfl⟩

/-- Every attempt keeps the schedule. -/
theorem onSchedule_step {config : RankerConfig} (hN : 0 ≤ config.fullRefitEveryNIncrementals)
    {s s' : Scheduled} {i : FitInput} (h : Steps s i s') (hs : s.OnSchedule config) :
    s'.OnSchedule config := by
  obtain rfl := h
  have hlog : (s.attempt i).log = s.log ++ [⟨s.est.fitPath, s.est.returns i⟩] := rfl
  have hest : (s.attempt i).est = s.est.afterFit i := rfl
  have hconfig := (s.est.afterFit_fixed i).1.trans hs.config_eq
  have hpath := hs.fitPath_iff
  have hle := hs.count_le
  have hcount := hs.count_eq
  rcases s.est.afterFit_schedule i with ⟨hreturns, hmodel, hsame⟩ |
    ⟨hreturns, hfull, hmodel, hzero⟩ | ⟨hreturns, hinc, hmodel, hsucc⟩
  · -- it raised: neither side of the schedule moves
    refine ⟨hconfig, ?_, ?_, fun hall => ?_⟩
    · rw [hlog, returnedSinceFull_concat, hest, hsame, hreturns]
      simpa [Attempt.refits] using hcount
    · rw [hest, hsame]
      exact hle
    · have hlast := hall ⟨s.est.fitPath, s.est.returns i⟩ (by simp [hlog])
      rw [hreturns] at hlast
      cases hlast
  · -- a full fit returned: a new cycle begins
    refine ⟨hconfig, ?_, ?_, fun hall => .inr ⟨hmodel, ?_⟩⟩
    · rw [hlog, returnedSinceFull_concat, hest, hzero, hreturns, hfull]
      rfl
    · rw [hest, hzero]
      exact_mod_cast hN
    · have hbefore : ∀ a ∈ s.log, a.returned = true := fun a ha => hall a (by simp [hlog, ha])
      rw [hlog, hest, hzero, List.length_append, List.length_singleton]
      rcases hs.cycle hbefore with ⟨-, hnil⟩ | ⟨hsome, cycles, hlen⟩
      · exact ⟨0, by simp [hnil]⟩
      · have hN' := (hpath.mp hfull).resolve_left hsome
        refine ⟨cycles + 1, ?_⟩
        rw [hlen, add_mul]
        omega
  · -- an incremental fit returned: one further in the cycle
    have hnot : ¬ s.est.fitPath = .full := by simp [hinc]
    rw [hpath, not_or] at hnot
    refine ⟨hconfig, ?_, ?_, fun hall => .inr ⟨hmodel, ?_⟩⟩
    · rw [hlog, returnedSinceFull_concat, hest, hsucc, hreturns, hinc, hcount]
      simp [Attempt.refits]
    · rw [hest, hsucc]
      have hne := hnot.2
      rw [← hcount] at hne
      omega
    · have hbefore : ∀ a ∈ s.log, a.returned = true := fun a ha => hall a (by simp [hlog, ha])
      obtain ⟨-, cycles, hlen⟩ := (hs.cycle hbefore).resolve_left fun hnone => hnot.1 hnone.1
      refine ⟨cycles, ?_⟩
      rw [hlog, hest, hsucc, List.length_append, List.length_singleton, hlen]
      omega

theorem OnSchedule.dvd_iff {config : RankerConfig} (hN : 0 ≤ config.fullRefitEveryNIncrementals)
    {s : Scheduled} (hs : s.OnSchedule config) (hall : ∀ a ∈ s.log, a.returned = true) :
    s.est.fitPath = .full ↔
      config.fullRefitEveryNIncrementals.toNat + 1 ∣ s.log.length := by
  rw [hs.fitPath_iff, ← hs.count_eq]
  have hle := hs.count_le
  rcases hs.cycle hall with ⟨hnone, hnil⟩ | ⟨hsome, cycles, hlen⟩
  · simp [hnone, hnil]
  · rw [hlen, add_assoc, Nat.dvd_add_right (Dvd.intro_left cycles rfl)]
    simp only [hsome, false_or]
    constructor
    · intro heq
      rw [show s.est.incrementalCount = config.fullRefitEveryNIncrementals.toNat by omega]
    · intro hdvd
      have hge := Nat.le_of_dvd (Nat.succ_pos _) hdvd
      omega

theorem log_length {s s' : Scheduled} {inputs : List FitInput} (h : Run Steps s inputs s') :
    s'.log.length = s.log.length + inputs.length := by
  induction h with
  | nil => rfl
  | cons hstep _ ih =>
    obtain rfl := hstep
    rw [ih, attempt, List.length_append, List.length_singleton, List.length_cons]
    omega

/-- Full refits happen on schedule. After any run of attempts the count is between `0` and `N`. The
next attempt is the fit on its path, and that is the full one exactly when there is no model or `N`
incremental attempts have returned since the last full one that did. If it raises, the attempt after
it is on the same path with the same count. And if none has raised so far, it is full exactly when
the number of attempts before it is a multiple of `N + 1`. -/
theorem refits_on_schedule {config : RankerConfig} (extractor : FeatureExtractor)
    (hN : 0 ≤ config.fullRefitEveryNIncrementals) {inputs : List FitInput} {s : Scheduled}
    (h : Run Steps (start config extractor) inputs s) :
    s.log.length = inputs.length ∧
      (0 ≤ (s.est.incrementalCount : ℤ) ∧
        (s.est.incrementalCount : ℤ) ≤ config.fullRefitEveryNIncrementals) ∧
      (∀ i : FitInput, (s.est.fit i.env i.records).2 =
        match s.est.fitPath with
        | .full => (s.est.fullFit i.env i.records).2
        | .incremental => (s.est.incrementalFit i.env i.records).2) ∧
      (s.est.fitPath = .full ↔ s.est.model = none ∨
        (returnedSinceFull s.log : ℤ) = config.fullRefitEveryNIncrementals) ∧
      (∀ i, s.est.returns i = false →
        (s.est.afterFit i).incrementalCount = s.est.incrementalCount ∧
          (s.est.afterFit i).fitPath = s.est.fitPath) ∧
      ((∀ a ∈ s.log, a.returned = true) →
        (s.est.fitPath = .full ↔
          config.fullRefitEveryNIncrementals.toNat + 1 ∣ inputs.length)) := by
  have hs : s.OnSchedule config := by
    refine h.preserves (P := OnSchedule config) ?_ (onSchedule_start extractor hN)
    intro s i s' hstep hs
    exact onSchedule_step hN hstep hs
  have hlen : s.log.length = inputs.length := (log_length h).trans (Nat.zero_add _)
  refine ⟨hlen, ⟨Int.natCast_nonneg _, hs.count_le⟩, s.est.fit_runs, hs.fitPath_iff, ?_,
    fun hall => ?_⟩
  · intro i hraises
    exact LambdaRankEstimator.fitPath_of_raises hraises
  · rw [← hlen]
    exact hs.dvd_iff hN hall

/-! ## Two incremental fits between full ones -/

def everyThird : RankerConfig := { minGroups := 1, fullRefitEveryNIncrementals := 2 }

def oneGroupFit : FitInput :=
  sampleInput (positionBooster fun i => -i) (labelled "batch_1" "resize" "ocr")

def afterThreeFits : Scheduled :=
  [oneGroupFit, oneGroupFit, oneGroupFit].foldl attempt (start everyThird plainExtractor)

/-- The fourth of these fits is full if two incremental ones have returned since the first. -/
theorem refits_on_schedule_every_third :
    afterThreeFits.log.length = 3 ∧
      (afterThreeFits.est.fitPath = .full ↔ afterThreeFits.est.model = none ∨
        (returnedSinceFull afterThreeFits.log : ℤ) = 2) := by
  have h := @refits_on_schedule everyThird plainExtractor (by decide)
    [oneGroupFit, oneGroupFit, oneGroupFit] afterThreeFits (.cons rfl (.cons rfl (.single rfl)))
  exact ⟨h.1, h.2.2.2.1⟩

end Scheduled

end Chronoq.Ranker
