import Chronoq.Ranker.FitRuns
import Chronoq.Ranker.TaskRanker

/-! # How often `record` retrains

`record` retrains when `_records_since_last_retrain` reaches `retrain_every_n`, and the `finally` of
`retrain` resets that counter, on every retrain attempt as its comment says. The store is read and the
drift checked before the `try`, so an attempt that raises there leaves the counter as it is: at its
threshold, after a retrain of `record`, so that every later record retrains again.

* `SkipsReset`: the call is such an attempt, at a counter that is not zero.
* `savedSince`: the records saved since the last retrain attempt of a run, whatever the counter is.
* `retrain_cadence_iff`: the cadence of a run is exact exactly when no call of it skips the reset. -/

namespace Chronoq.Ranker
open Foundations

set_option autoImplicit false

/-- The call saves a record. -/
def RankerStep.saves : RankerStep → Bool
  | .record env _ => env.faults.save.isNone
  | .retrain _ => false

namespace TaskRanker

/-! ## One retrain -/

/-- The attempt raises before the `try` whose `finally` resets the counter. -/
def RaisesEarly (r : TaskRanker) (env : RankerEnv) : Prop :=
  env.faults.getAll ≠ none ∨ driftCheckRaises (r.checkDrift env).2 ≠ none

instance (r : TaskRanker) (env : RankerEnv) : Decidable (r.RaisesEarly env) :=
  inferInstanceAs (Decidable (_ ∨ _))

theorem retrain_counter (r : TaskRanker) (env : RankerEnv) :
    (r.retrain env).1.recordsSinceLastRetrain =
      if r.RaisesEarly env then r.recordsSinceLastRetrain else 0 := by
  obtain ⟨exc, hgetAll, hretrain⟩ | ⟨exc, -, hraises, hretrain⟩ | ⟨hgetAll, hraises, hretrain⟩ :=
    r.retrain_cases env
  · have hearly : r.RaisesEarly env := .inl (by simp [hgetAll])
    rw [if_pos hearly, hretrain]
  · have hearly : r.RaisesEarly env := .inr (by simp [hraises])
    rw [if_pos hearly, hretrain]
    rfl
  · have hlate : ¬ r.RaisesEarly env := by simp [RaisesEarly, hgetAll, hraises]
    rw [if_neg hlate, hretrain]
    rfl

theorem retrain_resets_iff (r : TaskRanker) (env : RankerEnv) :
    (r.retrain env).1.recordsSinceLastRetrain = 0 ↔
      ¬ (r.RaisesEarly env ∧ r.recordsSinceLastRetrain ≠ 0) := by
  rw [retrain_counter]
  split
  · next hearly => simp [hearly]
  · next hlate => simp [hlate]

/-! ## One call -/

/-- After the call's retrain attempt, returned or raised, the counter is zero. -/
def ResetsCounter (r : TaskRanker) (a : RankerStep) : Prop :=
  (r.step a).2.isSome → (r.step a).1.recordsSinceLastRetrain = 0

/-- The call makes a retrain attempt that raises before its `try` at a counter that is not zero. -/
def SkipsReset (r : TaskRanker) (a : RankerStep) : Prop :=
  ∃ r' env, r.attempt a = some (r', env) ∧ r'.RaisesEarly env ∧ r'.recordsSinceLastRetrain ≠ 0

theorem resetsCounter_iff (r : TaskRanker) (a : RankerStep) :
    r.ResetsCounter a ↔ ¬ r.SkipsReset a := by
  unfold ResetsCounter SkipsReset
  obtain ⟨hnone, hstep⟩ | ⟨r', env, hattempt, hstep⟩ := r.step_attempt a
  · simp [hnone, hstep]
  · rw [hstep, hattempt]
    have hresets := r'.retrain_resets_iff env
    constructor
    · intro h hskips
      obtain ⟨r'', env', heq, hearly, hcounter⟩ := hskips
      cases heq
      exact hresets.mp (h rfl) ⟨hearly, hcounter⟩
    · intro h _
      refine hresets.mpr fun hskips => h ⟨r', env, rfl, hskips.1, hskips.2⟩

/-! ## The records of a run since its last retrain attempt -/

/-- A run so far, with the number of records saved since its last retrain attempt. -/
def tally (sofar : TaskRanker × ℕ) (a : RankerStep) : TaskRanker × ℕ :=
  ((sofar.1.step a).1,
    if (sofar.1.step a).2.isSome then 0
    else if a.saves then sofar.2 + 1
    else sofar.2)

/-- The records that the run `as` from `r` has saved since its last retrain attempt. -/
def savedSince (r : TaskRanker) (as : List RankerStep) : ℕ := (as.foldl tally (r, 0)).2

/-- `record` retrains exactly if it saves the record that makes `retrain_every_n` of them. -/
def RetrainsOnNth (r₀ : TaskRanker) (before : List RankerStep) (r : TaskRanker) :
    RankerStep → Prop
  | .record env call =>
    (r.step (.record env call)).2.isSome ↔
      env.faults.save = none ∧ (savedSince r₀ before + 1 : ℕ) = r₀.config.retrainEveryN
  | .retrain _ => True

/-- The cadence of the run `as` from `r₀`: after every retrain attempt the counter is zero, and every
`record` retrains exactly on the record that is due. -/
def ExactCadence (r₀ : TaskRanker) (as : List RankerStep) : Prop :=
  ∀ bs a cs r, as = bs ++ a :: cs → Run Steps r₀ bs r →
    r.ResetsCounter a ∧ RetrainsOnNth r₀ bs r a

/-! ## The counter is the tally -/

/-- A counter below the threshold stays the tally, and below, in a call that skips no reset. -/
theorem tally_step {r : TaskRanker} {a : RankerStep}
    (hlt : r.recordsSinceLastRetrain < r.config.retrainEveryN) (hreset : ¬ r.SkipsReset a) :
    tally (r, r.recordsSinceLastRetrain) a =
        ((r.step a).1, (r.step a).1.recordsSinceLastRetrain) ∧
      (r.step a).1.recordsSinceLastRetrain < (r.step a).1.config.retrainEveryN := by
  have hresets : r.ResetsCounter a := (r.resetsCounter_iff a).mpr hreset
  have hconfig := r.step_config a
  rw [hconfig]
  unfold ResetsCounter at hresets
  unfold tally
  obtain ⟨env, call, rfl, hsave, hstep⟩ | ⟨env, call, rfl, hsave, hdue, hstep⟩ |
    ⟨env, call, rfl, hsave, hdue, hstep⟩ | ⟨env, rfl, hstep⟩ := r.step_cases a
  · have hsaves : RankerStep.saves (.record env call) = false := by
      simpa [RankerStep.saves, Option.isSome_iff_ne_none] using hsave
    rw [hstep]
    simp only [Option.isSome_none, hsaves, Bool.false_eq_true, if_false]
    exact ⟨trivial, hlt⟩
  · have hsaves : RankerStep.saves (.record env call) = true := by
      simp [RankerStep.saves, hsave]
    rw [hstep]
    simp only [Option.isSome_none, hsaves, Bool.false_eq_true, if_false, if_true]
    exact ⟨rfl, hdue⟩
  · have hzero := hresets (by rw [hstep]; rfl)
    rw [hzero]
    simp only [hstep, Option.isSome_some, if_true]
    exact ⟨trivial, by omega⟩
  · have hzero := hresets (by rw [hstep]; rfl)
    rw [hzero]
    simp only [hstep, Option.isSome_some, if_true]
    exact ⟨trivial, by omega⟩

theorem tally_run {r r' : TaskRanker} {as : List RankerStep}
    (h : Run (Guarded (fun r a => ¬ r.SkipsReset a) Steps) r as r')
    (hlt : r.recordsSinceLastRetrain < r.config.retrainEveryN) :
    as.foldl tally (r, r.recordsSinceLastRetrain) = (r', r'.recordsSinceLastRetrain) ∧
      r'.recordsSinceLastRetrain < r'.config.retrainEveryN := by
  induction h with
  | nil r => exact ⟨rfl, hlt⟩
  | cons hstep _ ih =>
    obtain ⟨hone, hreset⟩ := hstep
    obtain ⟨htally, hlt'⟩ := tally_step hlt hreset
    rw [hone] at htally hlt'
    obtain ⟨hfold, hbelow⟩ := ih hlt'
    refine ⟨?_, hbelow⟩
    rw [List.foldl_cons, htally]
    exact hfold

theorem run_config {r r' : TaskRanker} {as : List RankerStep} (h : Run Steps r as r') :
    r'.config = r.config := by
  refine h.preserves (P := fun s => s.config = r.config) ?_ rfl
  rintro s a t rfl hs
  rw [step_config, hs]

/-- With the counter at the tally, `record` retrains on the record that is due. -/
theorem retrainsOnNth_of_tally {r₀ r : TaskRanker} {before : List RankerStep}
    (hconfig : r.config = r₀.config)
    (htally : savedSince r₀ before = r.recordsSinceLastRetrain)
    (hlt : r.recordsSinceLastRetrain < r.config.retrainEveryN) (a : RankerStep) :
    RetrainsOnNth r₀ before r a := by
  cases a with
  | retrain env => trivial
  | record env call =>
    show _ ↔ _
    rw [htally, ← hconfig]
    obtain ⟨env', call', heq, hsave, hstep⟩ | ⟨env', call', heq, hsave, hdue, hstep⟩ |
      ⟨env', call', heq, hsave, hdue, hstep⟩ | ⟨env', heq, hstep⟩ := r.step_cases (.record env call)
    · cases heq
      simp [hstep, hsave]
    · cases heq
      have hcount : (r.recordsSinceLastRetrain + 1 : ℕ) < r.config.retrainEveryN := hdue
      simp only [hstep, hsave, Option.isSome_none, true_and]
      constructor
      · intro h
        cases h
      · intro h
        omega
    · cases heq
      have hcount : r.config.retrainEveryN ≤ (r.recordsSinceLastRetrain + 1 : ℕ) := hdue
      simp only [hstep, hsave, Option.isSome_some, true_and, true_iff]
      push_cast at hcount ⊢
      omega
    · cases heq

/-- For every ranker with `retrain_every_n` at least one and every run of `record` and `retrain`, with
any exceptions and any clock: the cadence is exact exactly when no retrain attempt raises before its
`try` at a counter that is not zero. -/
theorem retrain_cadence_iff {config : RankerConfig} {extractor : FeatureExtractor}
    {store : List TaskRecord} {env₀ : RankerEnv} {r₀ r : TaskRanker} {as : List RankerStep}
    (hn : 1 ≤ config.retrainEveryN) (hr₀ : construct config extractor store env₀ = .ok r₀)
    (h : Run Steps r₀ as r) :
    ExactCadence r₀ as ↔ EveryStep Steps (fun r a => ¬ r.SkipsReset a) r₀ as := by
  constructor
  · intro hexact bs a cs t hsplit hrun
    exact (t.resetsCounter_iff a).mp (hexact bs a cs t hsplit hrun).1
  · intro hreset bs a cs t hsplit hrun
    have hzero : r₀.recordsSinceLastRetrain = 0 := by
      rw [construct_fixed hr₀]
      rfl
    have hlt : r₀.recordsSinceLastRetrain < r₀.config.retrainEveryN := by
      rw [hzero, construct_fixed hr₀]
      show ((0 : ℕ) : ℤ) < config.retrainEveryN
      omega
    subst hsplit
    obtain ⟨hfold, hbelow⟩ := tally_run (hreset.of_append.guarded hrun) hlt
    refine ⟨(t.resetsCounter_iff a).mpr (hreset bs a cs t rfl hrun), ?_⟩
    refine retrainsOnNth_of_tally (run_config hrun) ?_ hbelow a
    rw [hzero] at hfold
    rw [savedSince, hfold]

/-! ## A store that fails -/

/-- What a call meets if nothing but `faults` raises. -/
def sampleEnv (faults : Faults) : RankerEnv where
  toFitEnv := (sampleInput (positionBooster fun _ => 0) []).env
  sklearn := fun _ _ => .ok
    { predict := fun rows => rows.map fun _ => 1
      predict_length := fun _ => List.length_map _ }
  sqrt := id
  numpy := ⟨id, fun _ _ => []⟩
  now := 0
  faults := faults

def resizeCall : RecordCall where
  taskType := "resize"
  payloadSize := 512
  actualMs := 1
  metadata := ∅

def pairwise : RankerConfig := { retrainEveryN := 2 }

def idleRanker : TaskRanker := fresh pairwise plainExtractor []

/-- Three records; the second and the third find the store unreadable when they retrain. -/
def unreadableStore : List RankerStep :=
  [.record (sampleEnv {}) resizeCall,
    .record (sampleEnv { getAll := some (.raised "OperationalError") }) resizeCall,
    .record (sampleEnv { getAll := some (.raised "OperationalError") }) resizeCall]

theorem retrain_cadence_iff_unreadable_store :
    ExactCadence idleRanker unreadableStore ↔
      EveryStep Steps (fun r a => ¬ r.SkipsReset a) idleRanker unreadableStore :=
  have hr₀ : construct pairwise plainExtractor [] (sampleEnv {}) = .ok idleRanker := rfl
  retrain_cadence_iff (by decide) hr₀ (.cons rfl (.cons rfl (.cons rfl (.nil _))))

/-- With `retrain_every_n = 2`, a retrain on the second record and again on the third. -/
theorem unreadable_store_retrains_twice :
    construct pairwise plainExtractor [] (sampleEnv {}) = .ok idleRanker ∧
      savedSince idleRanker (unreadableStore.take 2) = 0 ∧
      ¬ ExactCadence idleRanker unreadableStore := by
  refine ⟨rfl, by decide, ?_⟩
  intro hexact
  have hlast := (hexact (unreadableStore.take 2) _ [] _ rfl (.cons rfl (.cons rfl (.nil _)))).2
  have hdue := hlast.mp rfl
  revert hdue
  decide

end TaskRanker

end Chronoq.Ranker
