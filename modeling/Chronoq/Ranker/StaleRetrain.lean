import Chronoq.Ranker.ConcurrentRetrain
import Chronoq.Ranker.Cadence

/-! # A retrain that is overtaken

The lock of `retrain` covers the reading of the pointer and the swap and nothing between them, and no
swap looks at what it replaces. A call whose snapshot is older than that of a call that has swapped
before it puts the older model back (`overtaken_retrain_installs_older`).

* `Phase.published`: a call has put its model where other calls find it, by its swap or because it has
  refitted the LambdaRank instance that they share.
* `NotOvertaken`: a call refits a shared instance, or swaps, before any call with a larger snapshot has
  published its model; a call whose fit was rejected finds its estimator still installed.
* `InOrder`: what holds while no call is overtaken. `StepEffect` lists what a step does to it.
* `retrains_in_order_keep_largest`: then no swap ever replaces the installed model by one from a smaller
  snapshot, and after all calls the installed model is from the largest. -/

namespace Chronoq.Ranker
open Foundations

set_option autoImplicit false

/-! ## Where a call is -/

namespace Phase
variable {Call : Type}

/-- The estimator that the call holds. -/
@[simp] def held : Phase Call → Option (Option Call)
  | .holding _ source _ => some source
  | .checked _ source _ => some source
  | .fitted _ target _ _ => some target
  | .swapped _ target _ _ => some target
  | _ => none

@[simp] def beforeFit : Phase Call → Bool
  | .ready => true
  | .fetched _ => true
  | .holding _ _ _ => true
  | .checked _ _ _ => true
  | _ => false

/-- The size of the snapshot. -/
@[simp] def snapshot : Phase Call → Option ℕ
  | .ready => none
  | .fetched records => some records.length
  | .holding records _ _ => some records.length
  | .checked records _ _ => some records.length
  | .fitted records _ _ _ => some records.length
  | .swapped records _ _ _ => some records.length
  | .raised _ => none
  | .ended records _ _ => some records.length

/-- The same, if the call has trained a model on it that was not rejected. -/
@[simp] def trained : Phase Call → Option ℕ
  | .fitted records _ metrics _ => if metrics.rejected then none else some records.length
  | .swapped records _ metrics _ => if metrics.rejected then none else some records.length
  | .ended records metrics _ => if metrics.rejected then none else some records.length
  | _ => none

/-- The same, if the call has swapped since. -/
@[simp] def placed : Phase Call → Option ℕ
  | .swapped records _ metrics _ => if metrics.rejected then none else some records.length
  | .ended records metrics _ => if metrics.rejected then none else some records.length
  | _ => none

/-- The same, if the call is over. -/
def completed : Phase Call → Option ℕ
  | .ended records metrics _ => if metrics.rejected then none else some records.length
  | _ => none

section
variable [DecidableEq Call]

/-- The same, if the call has swapped or has refitted an instance that is not its own. -/
@[simp] def published (i : Call) : Phase Call → Option ℕ
  | .fitted records target metrics _ =>
    if metrics.rejected ∨ target = some i then none else some records.length
  | p => p.placed

/-- No other call can have found the object of the call `i`. -/
@[simp] def hides (i : Call) : Phase Call → Bool
  | .fitted _ target _ _ => target = some i
  | p => p.beforeFit

theorem hides_of_beforeFit {i : Call} {p : Phase Call} (h : p.beforeFit = true) :
    p.hides i = true := by
  cases p with
  | fitted records target metrics previousType => cases h
  | _ => exact h

theorem trained_of_published {i : Call} {p : Phase Call} {n : ℕ}
    (h : p.published i = some n) : p.trained = some n := by
  cases p with
  | fitted records target metrics previousType =>
    simp only [published] at h
    split at h
    · cases h
    · next hnot => exact (if_neg (not_or.mp hnot).1).trans h
  | swapped records target metrics previousType => exact h
  | ended records metrics result => exact h
  | _ => cases h

end

theorem trained_of_beforeFit {p : Phase Call} (h : p.beforeFit = true) : p.trained = none := by
  cases p with
  | fitted records target metrics previousType => cases h
  | swapped records target metrics previousType => cases h
  | ended records metrics result => cases h
  | _ => rfl

end Phase

namespace SharedRanker
variable {Call : Type}

def samplesOf (s : SharedRanker Call) (held : Option Call) : ℕ := (s.objects held).samples

theorem installedSamples_eq (s : SharedRanker Call) : s.installedSamples = s.samplesOf s.installed :=
  rfl

/-! ## The laws -/

variable [DecidableEq Call]

/-- The step does not replace the installed model by one trained on a smaller snapshot. -/
def NeverShrinks (s : SharedRanker Call) (a : SharedStep Call) : Prop :=
  ∀ t, Steps s a t → s.installedSamples ≤ t.installedSamples

omit [DecidableEq Call] in
/-- Every call has returned, raised or never begun. -/
def AllReturned (s : SharedRanker Call) : Prop :=
  ∀ i, s.calls i = .ready ∨ (s.calls i).outcome.isSome

/-- The installed model was trained on the largest snapshot of the calls that completed without
rejection. -/
structure LargestInstalled (s : SharedRanker Call) : Prop where
  largest : ∀ i n, (s.calls i).completed = some n → n ≤ s.installedSamples
  attained : (∃ i n, (s.calls i).completed = some n) →
    ∃ i, (s.calls i).completed = some s.installedSamples

/-- No call with more than `n` records in its snapshot has published its model. -/
def NoneFresher (s : SharedRanker Call) (n : ℕ) : Prop :=
  ∀ j m, (s.calls j).published j = some m → m ≤ n

/-- The call is not overtaken at this step. -/
def NotOvertaken (s : SharedRanker Call) : SharedStep Call → Prop
  | .save _ => True
  | .advance i _ =>
    match s.calls i with
    | .checked records source _ =>
      (s.objects source).estimator.modelType = .lambdarank → s.NoneFresher records.length
    | .fitted records target metrics _ =>
      if metrics.rejected then target = s.installed else s.NoneFresher records.length
    | _ => True

/-! ## What a step does -/

/-- The call `i` goes on to the phase `p'` without fitting or swapping. -/
structure Quiet (s : SharedRanker Call) (i : Call) (p' : Phase Call) : Prop where
  held : p'.held = (s.calls i).held ∨ p'.held = none ∨
    (p'.held = some s.installed ∧ p'.trained = none)
  snapshot : ∀ n, p'.snapshot = some n → (s.calls i).snapshot = some n ∨ n = s.store.length
  trained : p'.trained = (s.calls i).trained
  placed : p'.placed = (s.calls i).placed
  published : p'.published i = (s.calls i).published i
  beforeFit : p'.beforeFit = true → (s.calls i).beforeFit = true
  hides : p'.hides i = p'.beforeFit
  wasHidden : (s.calls i).hides i = (s.calls i).beforeFit

inductive StepEffect (s : SharedRanker Call) : SharedStep Call → SharedRanker Call → Prop
  | save {t : SharedRanker Call} (record : TaskRecord) (hstore : t.store = s.store ++ [record])
    (hsamples : t.samplesOf = s.samplesOf) (hinstalled : t.installed = s.installed)
    (hcalls : t.calls = s.calls) : StepEffect s (.save record) t
  | quiet {t : SharedRanker Call} {i : Call} (env : RankerEnv) {p' : Phase Call}
    (hquiet : s.Quiet i p') (hstore : t.store = s.store) (hsamples : t.samplesOf = s.samplesOf)
    (hinstalled : t.installed = s.installed) (hcalls : t.calls = Function.update s.calls i p') :
    StepEffect s (.advance i env) t
  | fits {t : SharedRanker Call} {i : Call} (env : RankerEnv) {records : List TaskRecord}
    {source target : Option Call} {metrics : FitMetrics} {previousType : ModelType}
    (hphase : s.calls i = .checked records source previousType)
    (htarget : (target = source ∧ (s.objects source).estimator.modelType = .lambdarank) ∨
      target = some i)
    (hstore : t.store = s.store)
    (hsamples : t.samplesOf = Function.update s.samplesOf target
      (if metrics.rejected then s.samplesOf target else records.length))
    (hinstalled : t.installed = s.installed)
    (hcalls : t.calls = Function.update s.calls i (.fitted records target metrics previousType)) :
    StepEffect s (.advance i env) t
  | swaps {t : SharedRanker Call} {i : Call} (env : RankerEnv) {records : List TaskRecord}
    {target : Option Call} {metrics : FitMetrics} {previousType : ModelType}
    (hphase : s.calls i = .fitted records target metrics previousType) (hstore : t.store = s.store)
    (hsamples : t.samplesOf = s.samplesOf) (hinstalled : t.installed = target)
    (hcalls : t.calls = Function.update s.calls i (.swapped records target metrics previousType)) :
    StepEffect s (.advance i env) t

theorem samplesOf_refitHeld (s : SharedRanker Call) (source : Option Call) (estimator : Estimator) :
    (s.refitHeld source estimator).samplesOf = s.samplesOf := by
  funext o
  by_cases ho : o = source
  · subst ho
    simp [samplesOf, refitHeld]
  · simp [samplesOf, refitHeld, Function.update_of_ne ho]

theorem samplesOf_place (s : SharedRanker Call) (target : Option Call) (estimator : Estimator)
    (records : List TaskRecord) (rejected : Bool) :
    (s.place target estimator records rejected).samplesOf =
      Function.update s.samplesOf target
        (if rejected then s.samplesOf target else records.length) := by
  funext o
  by_cases ho : o = target
  · subst ho
    simp [samplesOf, place]
  · simp [samplesOf, place, Function.update_of_ne ho]

theorem fit_effect {s : SharedRanker Call} {i : Call} (env : RankerEnv) {records : List TaskRecord}
    {source : Option Call} {previousType : ModelType}
    (hphase : s.calls i = .checked records source previousType) :
    StepEffect s (.advance i env) (s.fit i env records source previousType) := by
  unfold SharedRanker.fit
  generalize (s.view records source).newEstimator env records = fitted
  obtain ⟨r, exc | ⟨estimator, metrics⟩⟩ := fitted
  · refine .quiet env ?_ rfl (samplesOf_refitHeld s source r.estimator) rfl rfl
    constructor <;> simp [hphase]
  · refine .fits env hphase ?_ rfl ?_ rfl rfl
    · unfold targetOf
      split
      · next hinPlace => exact .inl ⟨rfl, hinPlace.1⟩
      · exact .inr rfl
    · have hplace := samplesOf_place (s.refitHeld source r.estimator)
        (s.targetOf i source estimator) estimator records metrics.rejected
      rw [samplesOf_refitHeld] at hplace
      exact hplace

theorem step_effect {s t : SharedRanker Call} {a : SharedStep Call} (h : Steps s a t) :
    StepEffect s a t := by
  cases a with
  | save record =>
    cases h
    exact .save record rfl rfl rfl rfl
  | advance i env =>
    simp only [Steps, step] at h
    cases hphase : s.calls i with
    | ready =>
      rw [hphase] at h
      cases h
      unfold fetch
      cases env.faults.getAll with
      | some exc =>
        refine .quiet env ?_ rfl rfl rfl rfl
        constructor <;> simp [hphase]
      | none =>
        refine .quiet env ?_ rfl rfl rfl rfl
        constructor <;> simp [hphase]
    | fetched records =>
      rw [hphase] at h
      cases h
      refine .quiet env ?_ rfl rfl rfl rfl
      constructor <;> simp [hphase]
    | holding records source previousType =>
      rw [hphase] at h
      cases h
      unfold SharedRanker.checkDrift
      generalize (s.view records source).checkDrift env = checked
      obtain ⟨detector, checked⟩ := checked
      dsimp only
      cases TaskRanker.driftCheckRaises checked with
      | some exc =>
        refine .quiet env ?_ rfl rfl rfl rfl
        constructor <;> simp [hphase]
      | none =>
        refine .quiet env ?_ rfl rfl rfl rfl
        constructor <;> simp [hphase]
    | checked records source previousType =>
      rw [hphase] at h
      cases h
      exact fit_effect env hphase
    | fitted records target metrics previousType =>
      rw [hphase] at h
      cases h
      exact .swaps env hphase rfl rfl rfl rfl
    | swapped records target metrics previousType =>
      rw [hphase] at h
      cases h
      refine .quiet env ?_ rfl rfl rfl rfl
      constructor <;> simp [hphase]
    | raised exc =>
      rw [hphase] at h
      cases h
    | ended records metrics result =>
      rw [hphase] at h
      cases h

/-! ## Calls that are not overtaken -/

structure InOrder (samples : ℕ) (s : SharedRanker Call) : Prop where
  store : samples ≤ s.store.length
  snapshot : ∀ i n, (s.calls i).snapshot = some n → samples ≤ n
  /-- The object that a call may still create, or has not yet swapped in, is held by nobody else. -/
  hidden : ∀ i, (s.calls i).hides i = true →
    s.installed ≠ some i ∧ ∀ j ≠ i, (s.calls j).held ≠ some (some i)
  unborn : ∀ i, (s.calls i).beforeFit = true → (s.calls i).held ≠ some (some i)
  /-- A model that is trained and not yet installed has not been replaced by an older one. -/
  kept : ∀ i o n, (s.calls i).held = some o → (s.calls i).trained = some n → n ≤ s.samplesOf o
  placed : ∀ i n, (s.calls i).placed = some n → n ≤ s.installedSamples
  first : samples ≤ s.installedSamples
  source : ∀ o, s.samplesOf o = samples ∨
    (∃ i, (s.calls i).published i = some (s.samplesOf o)) ∨
    ∃ i, o = some i ∧ (s.calls i).hides i = true ∧ (s.calls i).trained = some (s.samplesOf o)

theorem inOrder_start (r : TaskRanker) {samples : ℕ} (hstore : samples ≤ r.store.length) :
    InOrder samples (start r samples : SharedRanker Call) where
  store := hstore
  snapshot := fun i n hn => by cases hn
  hidden := fun i _ => ⟨(Option.some_ne_none _).symm, fun j _ => (Option.some_ne_none _).symm⟩
  unborn := fun i _ => (Option.some_ne_none _).symm
  kept := fun i o n hheld => by cases hheld
  placed := fun i n hplaced => by cases hplaced
  first := le_rfl
  source := fun o => .inl rfl

section Step
variable {samples : ℕ} {s t : SharedRanker Call} {i : Call} {p' : Phase Call}

theorem calls_cases (hcalls : t.calls = Function.update s.calls i p') (j : Call) :
    (j = i ∧ t.calls j = p') ∨ (j ≠ i ∧ t.calls j = s.calls j) := by
  rw [hcalls]
  by_cases hj : j = i
  · subst hj
    exact .inl ⟨rfl, Function.update_self _ _ _⟩
  · exact .inr ⟨hj, Function.update_of_ne hj _ _⟩

theorem field_of_calls {β : Type} (f : Call → Phase Call → β)
    (hcalls : t.calls = Function.update s.calls i p') (hf : f i p' = f i (s.calls i)) (j : Call) :
    f j (t.calls j) = f j (s.calls j) := by
  obtain ⟨rfl, hj⟩ | ⟨-, hj⟩ := calls_cases hcalls j
  · rw [hj, hf]
  · rw [hj]

/-- The model in an object that another call can find is from no larger a snapshot than `n` records,
if no call with a larger one has published its model. -/
theorem InOrder.samplesOf_le (h : InOrder samples s) {o : Option Call} {n : ℕ} (hn : samples ≤ n)
    (hfresher : s.NoneFresher n) (hfound : ∀ j, (s.calls j).hides j = true → o ≠ some j) :
    s.samplesOf o ≤ n := by
  obtain hfirst | ⟨j, hj⟩ | ⟨j, ho, hhides, -⟩ := h.source o
  · rw [hfirst]
    exact hn
  · exact hfresher j _ hj
  · exact absurd ho (hfound j hhides)

theorem InOrder.save (h : InOrder samples s) {record : TaskRecord}
    (hstore : t.store = s.store ++ [record]) (hsamples : t.samplesOf = s.samplesOf)
    (hinstalled : t.installed = s.installed) (hcalls : t.calls = s.calls) : InOrder samples t := by
  obtain ⟨hlen, hsnapshot, hhidden, hunborn, hkept, hplaced, hfirst, hsource⟩ := h
  refine ⟨?_, ?_, ?_, ?_, ?_, ?_, ?_, ?_⟩
  · rw [hstore, List.length_append]
    omega
  all_goals
    simp only [installedSamples_eq, hsamples, hinstalled, hcalls]
    assumption

theorem InOrder.quiet (h : InOrder samples s) (hquiet : s.Quiet i p') (hstore : t.store = s.store)
    (hsamples : t.samplesOf = s.samplesOf) (hinstalled : t.installed = s.installed)
    (hcalls : t.calls = Function.update s.calls i p') : InOrder samples t := by
  have hcases := calls_cases hcalls
  have htrained := field_of_calls (fun _ => Phase.trained) hcalls hquiet.trained
  have hplaced := field_of_calls (fun _ => Phase.placed) hcalls hquiet.placed
  have hpublished := field_of_calls Phase.published hcalls hquiet.published
  -- a call that hides its object after the step did so before
  have hhides : ∀ k, (t.calls k).hides k = true → (s.calls k).hides k = true := by
    intro k hk
    obtain ⟨rfl, hj⟩ | ⟨-, hj⟩ := hcases k
    · rw [hj, hquiet.hides] at hk
      exact Phase.hides_of_beforeFit (hquiet.beforeFit hk)
    · exact hj ▸ hk
  -- a call holds what it held before, or what is installed
  have hheld : ∀ j o, (t.calls j).held = some o →
      (s.calls j).held = some o ∨ (o = s.installed ∧ (t.calls j).trained = none) := by
    intro j o ho
    obtain ⟨rfl, hj⟩ | ⟨-, hj⟩ := hcases j
    · rw [hj] at ho ⊢
      obtain hsame | hnone | ⟨hread, hfresh⟩ := hquiet.held
      · exact .inl (hsame ▸ ho)
      · rw [hnone] at ho
        cases ho
      · rw [hread] at ho
        exact .inr ⟨(Option.some.inj ho).symm, hfresh⟩
    · exact .inl (hj ▸ ho)
  refine ⟨hstore ▸ h.store, ?_, ?_, ?_, ?_, ?_, ?_, ?_⟩
  · intro j n hn
    obtain ⟨rfl, hj⟩ | ⟨-, hj⟩ := hcases j
    · rw [hj] at hn
      obtain hold | rfl := hquiet.snapshot n hn
      · exact h.snapshot _ n hold
      · exact h.store
    · exact h.snapshot j n (hj ▸ hn)
  · intro k hk
    obtain ⟨hne, hothers⟩ := h.hidden k (hhides k hk)
    refine ⟨hinstalled ▸ hne, fun j hjk ho => ?_⟩
    obtain hold | ⟨hread, -⟩ := hheld j _ ho
    · exact hothers j hjk hold
    · exact hne hread.symm
  · intro k hk ho
    have hhid : (t.calls k).hides k = true := Phase.hides_of_beforeFit hk
    obtain hold | ⟨hread, -⟩ := hheld k _ ho
    · refine h.unborn k ?_ hold
      obtain ⟨rfl, hj⟩ | ⟨-, hj⟩ := hcases k
      · exact hquiet.beforeFit (hj ▸ hk)
      · exact hj ▸ hk
    · exact (h.hidden k (hhides k hhid)).1 hread.symm
  · intro j o n ho hn
    rw [hsamples]
    obtain hold | ⟨-, hfresh⟩ := hheld j o ho
    · exact h.kept j o n hold ((htrained j).symm.trans hn)
    · rw [hfresh] at hn
      cases hn
  · intro j n hn
    rw [installedSamples_eq, hsamples, hinstalled]
    exact h.placed j n ((hplaced j).symm.trans hn)
  · rw [installedSamples_eq, hsamples, hinstalled]
    exact h.first
  · intro o
    rw [hsamples]
    obtain hfirst | ⟨j, hj⟩ | ⟨j, ho, hhid, hj⟩ := h.source o
    · exact .inl hfirst
    · exact .inr (.inl ⟨j, (hpublished j).trans hj⟩)
    · refine .inr (.inr ⟨j, ho, ?_, (htrained j).trans hj⟩)
      obtain ⟨rfl, -⟩ | ⟨-, hj'⟩ := hcases j
      · -- a call that has trained a model and hides it is about to swap
        rw [hquiet.wasHidden] at hhid
        rw [Phase.trained_of_beforeFit hhid] at hj
        cases hj
      · rw [hj']
        exact hhid

/-- A fit, in place on the instance that the call holds or on an object of its own. -/
theorem InOrder.fits (h : InOrder samples s) {records : List TaskRecord}
    {source target : Option Call} {metrics : FitMetrics} {previousType : ModelType}
    (hphase : s.calls i = .checked records source previousType)
    (hguard : (s.objects source).estimator.modelType = .lambdarank → s.NoneFresher records.length)
    (htarget : (target = source ∧ (s.objects source).estimator.modelType = .lambdarank) ∨
      target = some i)
    (hstore : t.store = s.store)
    (hsamples : t.samplesOf = Function.update s.samplesOf target
      (if metrics.rejected then s.samplesOf target else records.length))
    (hinstalled : t.installed = s.installed)
    (hcalls : t.calls = Function.update s.calls i (.fitted records target metrics previousType)) :
    InOrder samples t ∧ s.installedSamples ≤ t.installedSamples := by
  have hcases := calls_cases hcalls
  have hi : (s.calls i).beforeFit = true := by rw [hphase]; rfl
  obtain ⟨hne, hothers⟩ := h.hidden i (Phase.hides_of_beforeFit hi)
  have hheld : (s.calls i).held = some source := by rw [hphase]; rfl
  have hsource : source ≠ some i := fun heq => h.unborn i hi (heq ▸ hheld)
  have hfloor : samples ≤ records.length := h.snapshot i _ (by rw [hphase]; rfl)
  have hlast : t.samplesOf target =
      if metrics.rejected then s.samplesOf target else records.length := by
    rw [hsamples, Function.update_self]
  have hother : ∀ o, o ≠ target → t.samplesOf o = s.samplesOf o := by
    intro o ho
    rw [hsamples, Function.update_of_ne ho]
  -- only the call's own new object can get an older model than it had
  have hgrows : ∀ o, o ≠ some i → s.samplesOf o ≤ t.samplesOf o := by
    intro o ho
    by_cases hot : o = target
    · subst hot
      rw [hlast]
      split
      · exact le_rfl
      · obtain ⟨rfl, hlambdarank⟩ | hown := htarget
        · refine h.samplesOf_le hfloor (hguard hlambdarank) fun j hj heq => ?_
          have hji : i ≠ j := fun hij => ho (hij ▸ heq)
          exact (h.hidden j hj).2 i hji (heq ▸ hheld)
        · exact absurd hown ho
    · exact (hother o hot).ge
  have hinstalledGrows : s.installedSamples ≤ t.installedSamples := by
    rw [installedSamples_eq, installedSamples_eq, hinstalled]
    exact hgrows s.installed hne
  -- the others hide what they hid, and the call itself its own object if it has fitted that
  have hhides : ∀ k, (t.calls k).hides k = true →
      (s.calls k).hides k = true ∧ (k = i → target = some i) := by
    intro k hk
    obtain ⟨rfl, hj⟩ | ⟨hki, hj⟩ := hcases k
    · rw [hj] at hk
      exact ⟨Phase.hides_of_beforeFit hi, fun _ => of_decide_eq_true hk⟩
    · exact ⟨hj ▸ hk, fun heq => absurd heq hki⟩
  refine ⟨⟨hstore ▸ h.store, ?_, ?_, ?_, ?_, ?_, h.first.trans hinstalledGrows, ?_⟩, hinstalledGrows⟩
  · intro j n hn
    obtain ⟨rfl, hj⟩ | ⟨-, hj⟩ := hcases j
    · rw [hj] at hn
      cases hn
      exact hfloor
    · exact h.snapshot j n (hj ▸ hn)
  · intro k hk
    obtain ⟨hold, -⟩ := hhides k hk
    refine ⟨hinstalled ▸ (h.hidden k hold).1, fun j hjk ho => ?_⟩
    obtain ⟨rfl, hj⟩ | ⟨-, hj⟩ := hcases j
    · rw [hj] at ho
      cases ho
      obtain ⟨heq, -⟩ | hown := htarget
      · exact (h.hidden k hold).2 _ hjk (heq ▸ hheld)
      · exact hjk (Option.some.inj hown).symm
    · exact (h.hidden k hold).2 j hjk (hj ▸ ho)
  · intro k hk
    obtain ⟨rfl, hj⟩ | ⟨-, hj⟩ := hcases k
    · rw [hj] at hk
      cases hk
    · rw [hj] at hk ⊢
      exact h.unborn k hk
  · intro j o n ho hn
    obtain ⟨rfl, hj⟩ | ⟨hji, hj⟩ := hcases j
    · rw [hj] at ho hn
      cases ho
      rw [hlast]
      simp only [Phase.trained] at hn
      split at hn
      · cases hn
      · next hkept =>
        cases hn
        rw [if_neg hkept]
    · rw [hj] at ho hn
      have hoi : o ≠ some i := by
        rintro rfl
        exact hothers j hji ho
      exact (h.kept j o n ho hn).trans (hgrows o hoi)
  · intro j n hn
    obtain ⟨rfl, hj⟩ | ⟨-, hj⟩ := hcases j
    · rw [hj] at hn
      cases hn
    · rw [hj] at hn
      exact (h.placed j n hn).trans hinstalledGrows
  · intro o
    -- what another call has published or hides is as before
    have hrest : (s.samplesOf o = samples ∨
        (∃ j, (t.calls j).published j = some (s.samplesOf o)) ∨
        ∃ j, o = some j ∧ (t.calls j).hides j = true ∧
          (t.calls j).trained = some (s.samplesOf o)) := by
      have huntrained := Phase.trained_of_beforeFit hi
      obtain hfirst | ⟨j, hj⟩ | ⟨j, ho, hhid, hj⟩ := h.source o
      · exact .inl hfirst
      · refine .inr (.inl ⟨j, ?_⟩)
        obtain ⟨rfl, -⟩ | ⟨-, hj'⟩ := hcases j
        · rw [hphase] at hj
          cases hj
        · rw [hj', hj]
      · refine .inr (.inr ⟨j, ho, ?_⟩)
        obtain ⟨rfl, -⟩ | ⟨-, hj'⟩ := hcases j
        · rw [huntrained] at hj
          cases hj
        · rw [hj']
          exact ⟨hhid, hj⟩
    by_cases ho : o = target
    · subst ho
      rw [hlast]
      split
      · exact hrest
      · next hkept =>
        have hnow : t.calls i = .fitted records o metrics previousType := by
          rw [hcalls, Function.update_self]
        by_cases hown : o = some i
        · refine .inr (.inr ⟨i, hown, ?_, ?_⟩)
          · rw [hnow]
            exact decide_eq_true hown
          · rw [hnow]
            exact if_neg hkept
        · refine .inr (.inl ⟨i, ?_⟩)
          rw [hnow]
          exact if_neg (not_or.mpr ⟨hkept, hown⟩)
    · rw [hother o ho]
      exact hrest

theorem InOrder.swaps (h : InOrder samples s) {records : List TaskRecord} {target : Option Call}
    {metrics : FitMetrics} {previousType : ModelType}
    (hphase : s.calls i = .fitted records target metrics previousType)
    (hguard : if metrics.rejected then target = s.installed else s.NoneFresher records.length)
    (hstore : t.store = s.store) (hsamples : t.samplesOf = s.samplesOf)
    (hinstalled : t.installed = target)
    (hcalls : t.calls = Function.update s.calls i (.swapped records target metrics previousType)) :
    InOrder samples t ∧ s.installedSamples ≤ t.installedSamples := by
  have hcases := calls_cases hcalls
  have hheld : (s.calls i).held = some target := by rw [hphase]; rfl
  have hfloor : samples ≤ records.length := h.snapshot i _ (by rw [hphase]; rfl)
  have hafter : t.installedSamples = s.samplesOf target := by
    rw [installedSamples_eq, hsamples, hinstalled]
  have hown : metrics.rejected = false → records.length ≤ s.samplesOf target := by
    intro hkept
    refine h.kept i target records.length hheld ?_
    rw [hphase]
    exact if_neg (by simp [hkept])
  have hgrows : s.installedSamples ≤ t.installedSamples := by
    rw [hafter]
    cases hrejected : metrics.rejected with
    | true =>
      rw [hrejected, if_pos rfl] at hguard
      rw [hguard]
      exact le_rfl
    | false =>
      rw [hrejected, if_neg Bool.false_ne_true] at hguard
      have hinstalledLe : s.installedSamples ≤ records.length :=
        h.samplesOf_le hfloor hguard fun j hj => (h.hidden j hj).1
      exact hinstalledLe.trans (hown hrejected)
  have htrained := field_of_calls (fun _ => Phase.trained) hcalls (by rw [hphase]; rfl)
  have hheld' := field_of_calls (fun _ => Phase.held) hcalls (by rw [hphase]; rfl)
  have hsnapshot := field_of_calls (fun _ => Phase.snapshot) hcalls (by rw [hphase]; rfl)
  have hhides : ∀ k, (t.calls k).hides k = true → k ≠ i ∧ (s.calls k).hides k = true := by
    intro k hk
    obtain ⟨rfl, hj⟩ | ⟨hki, hj⟩ := hcases k
    · rw [hj] at hk
      cases hk
    · exact ⟨hki, hj ▸ hk⟩
  refine ⟨⟨hstore ▸ h.store, ?_, ?_, ?_, ?_, ?_, h.first.trans hgrows, ?_⟩, hgrows⟩
  · simp only [hsnapshot]
    exact h.snapshot
  · intro k hk
    obtain ⟨hki, hold⟩ := hhides k hk
    obtain ⟨-, hothers⟩ := h.hidden k hold
    simp only [hheld', hinstalled]
    refine ⟨fun heq => hothers i (Ne.symm hki) ?_, hothers⟩
    rw [hheld, heq]
  · intro k hk
    obtain ⟨rfl, hj⟩ | ⟨-, hj⟩ := hcases k
    · rw [hj] at hk
      cases hk
    · rw [hj] at hk ⊢
      exact h.unborn k hk
  · simp only [hheld', htrained, hsamples]
    exact h.kept
  · intro j n hn
    obtain ⟨rfl, hj⟩ | ⟨-, hj⟩ := hcases j
    · rw [hj] at hn
      simp only [Phase.placed] at hn
      split at hn
      · cases hn
      · next hkept =>
        cases hn
        rw [hafter]
        exact hown (by simpa using hkept)
    · rw [hj] at hn
      exact (h.placed j n hn).trans hgrows
  · intro o
    rw [hsamples]
    have hnow : t.calls i = .swapped records target metrics previousType := by
      rw [hcalls, Function.update_self]
    obtain hfirst | ⟨j, hj⟩ | ⟨j, ho, hhid, hj⟩ := h.source o
    · exact .inl hfirst
    · refine .inr (.inl ⟨j, ?_⟩)
      obtain ⟨rfl, -⟩ | ⟨-, hj'⟩ := hcases j
      · rw [hphase] at hj
        simp only [Phase.published] at hj
        split at hj
        · cases hj
        · next hnot =>
          rw [hnow, ← hj]
          exact if_neg (not_or.mp hnot).1
      · rw [hj', hj]
    · obtain ⟨rfl, -⟩ | ⟨-, hj'⟩ := hcases j
      · -- what the call has hidden it publishes now
        refine .inr (.inl ⟨j, ?_⟩)
        rw [hphase] at hj
        rw [hnow]
        exact hj
      · exact .inr (.inr ⟨j, ho, by rw [hj']; exact hhid, by rw [hj']; exact hj⟩)

theorem InOrder.step {a : SharedStep Call} (h : InOrder samples s) (hstep : Steps s a t)
    (hguard : s.NotOvertaken a) : InOrder samples t ∧ s.installedSamples ≤ t.installedSamples := by
  cases step_effect hstep with
  | save record hstore hsamples hinstalled hcalls =>
    refine ⟨h.save hstore hsamples hinstalled hcalls, le_of_eq ?_⟩
    rw [installedSamples_eq, installedSamples_eq, hsamples, hinstalled]
  | quiet env hquiet hstore hsamples hinstalled hcalls =>
    refine ⟨h.quiet hquiet hstore hsamples hinstalled hcalls, le_of_eq ?_⟩
    rw [installedSamples_eq, installedSamples_eq, hsamples, hinstalled]
  | fits env hphase htarget hstore hsamples hinstalled hcalls =>
    simp only [NotOvertaken, hphase] at hguard
    exact h.fits hphase hguard htarget hstore hsamples hinstalled hcalls
  | swaps env hphase hstore hsamples hinstalled hcalls =>
    simp only [NotOvertaken, hphase] at hguard
    exact h.swaps hphase hguard hstore hsamples hinstalled hcalls

omit [DecidableEq Call] in
/-- When all calls are over, a trained model is one of a completed call. -/
theorem AllReturned.completed (hall : s.AllReturned) (i : Call) :
    (s.calls i).completed = (s.calls i).trained := by
  obtain hready | hover := hall i
  · rw [hready]
    rfl
  · cases hphase : s.calls i with
    | raised exc => rfl
    | ended records metrics result => rfl
    | _ =>
      rw [hphase] at hover
      cases hover

omit [DecidableEq Call] in
theorem placed_of_completed {p : Phase Call} {n : ℕ} (h : p.completed = some n) :
    p.placed = some n := by
  cases p with
  | ended records metrics result => exact h
  | _ => cases h

theorem InOrder.largestInstalled (h : InOrder samples s) (hall : s.AllReturned) :
    s.LargestInstalled := by
  have hcompleted : ∀ i n, (s.calls i).completed = some n → n ≤ s.installedSamples :=
    fun i n hn => h.placed i n (placed_of_completed hn)
  refine ⟨hcompleted, ?_⟩
  rintro ⟨i, n, hn⟩
  obtain hfirst | ⟨j, hj⟩ | ⟨j, -, -, hj⟩ := h.source s.installed
  · -- the first model is still installed, so all snapshots have its size
    rw [← installedSamples_eq] at hfirst
    have hlo : samples ≤ n := by
      refine h.snapshot i n ?_
      cases hphase : s.calls i with
      | ended records metrics result =>
        rw [hphase] at hn
        simp only [Phase.completed] at hn
        split at hn
        · cases hn
        · exact hn
      | _ =>
        rw [hphase] at hn
        cases hn
    have hsize : n = s.installedSamples := le_antisymm (hcompleted i n hn) (hfirst.trans_le hlo)
    exact ⟨i, hsize ▸ hn⟩
  · exact ⟨j, (hall.completed j).trans (Phase.trained_of_published hj)⟩
  · exact ⟨j, (hall.completed j).trans hj⟩

end Step

/-- Any number of calls, interleaved in any way with each other and with the saving of records, with
any records, any clock and any exceptions, on a ranker whose model was trained on records of its store:
as long as no call is overtaken, no step replaces the installed model by one from a smaller snapshot,
and once all calls are over the installed model is from the largest snapshot of those that completed
without rejection. -/
theorem retrains_in_order_keep_largest {r : TaskRanker} {samples : ℕ}
    (hstore : samples ≤ r.store.length) {as : List (SharedStep Call)} {t : SharedRanker Call}
    (h : Run (Guarded NotOvertaken Steps) (start r samples) as t) :
    EveryStep Steps NeverShrinks (start r samples) as ∧ (t.AllReturned → t.LargestInstalled) := by
  have hstart : InOrder samples (start r samples : SharedRanker Call) := inOrder_start r hstore
  have hsteps : EveryStep Steps (fun s a => InOrder samples s ∧ s.NotOvertaken a)
      (start r samples) as := by
    refine h.everyStep Steps.unique ?_ hstart
    intro s a t hstep hguard hs
    exact (hs.step hstep hguard).1
  have hlast : InOrder samples t := by
    refine h.preserves (P := InOrder samples) ?_ hstart
    intro s a t hstep hs
    exact (hs.step hstep.1 hstep.2).1
  refine ⟨?_, hlast.largestInstalled⟩
  intro bs a cs s hsplit hrun s' hstep
  obtain ⟨hs, hguard⟩ := hsteps bs a cs s hsplit hrun
  exact (hs.step hstep hguard).2

/-! ## Two calls -/

open TaskRanker (sampleEnv resizeCall)

/-- A ranker without records that has just been constructed; `false` and `true` are two calls. -/
def idle : SharedRanker Bool := start (TaskRanker.fresh {} plainExtractor []) 0

def saveOne : SharedStep Bool := .save ((TaskRanker.fresh {} plainExtractor []).recordOf resizeCall 0)

/-- The next `n` steps of a call. -/
def advances (i : Bool) (n : ℕ) : List (SharedStep Bool) :=
  List.replicate n (.advance i (sampleEnv {}))

/-- The second call begins after the first has read the store, and swaps after it. -/
def overlapping : List (SharedStep Bool) :=
  advances false 1 ++ [saveOne] ++ advances true 3 ++ advances false 5 ++ advances true 3

theorem noneFresher_of_two {s : SharedRanker Bool} {n : ℕ}
    (hfirst : ((s.calls false).published false).all (· ≤ n) = true)
    (hsecond : ((s.calls true).published true).all (· ≤ n) = true) : s.NoneFresher n := by
  intro i m hm
  cases i with
  | false =>
    rw [hm] at hfirst
    exact of_decide_eq_true hfirst
  | true =>
    rw [hm] at hsecond
    exact of_decide_eq_true hsecond

theorem retrains_in_order_keep_largest_overlapping :
    ∃ t, Run Steps idle overlapping t ∧ t.installedSamples = 1 ∧
      EveryStep Steps NeverShrinks idle overlapping ∧ t.LargestInstalled := by
  -- the guard of a fit is about LambdaRank instances
  have hrun : Run (Guarded NotOvertaken Steps) idle overlapping _ :=
    .cons ⟨rfl, trivial⟩ <| .cons ⟨rfl, trivial⟩ <|
      .cons ⟨rfl, trivial⟩ <| .cons ⟨rfl, trivial⟩ <| .cons ⟨rfl, trivial⟩ <|
      .cons ⟨rfl, trivial⟩ <| .cons ⟨rfl, trivial⟩ <| .cons ⟨rfl, fun h => ModelType.noConfusion h⟩ <|
      .cons ⟨rfl, noneFresher_of_two rfl rfl⟩ <| .cons ⟨rfl, trivial⟩ <|
      .cons ⟨rfl, fun h => ModelType.noConfusion h⟩ <| .cons ⟨rfl, noneFresher_of_two rfl rfl⟩ <|
      .cons ⟨rfl, trivial⟩ <| .nil _
  obtain ⟨hsteps, hlast⟩ := retrains_in_order_keep_largest (Nat.zero_le _) hrun
  refine ⟨_, hrun.unguard, rfl, hsteps, hlast ?_⟩
  rintro (_ | _) <;> exact .inr rfl

/-- The second call takes its snapshot after the first, which has one record less, and is over before
the first has read the estimator. -/
def overtaking : List (SharedStep Bool) :=
  advances false 1 ++ [saveOne] ++ advances true 6 ++ advances false 5

/-- The first call puts the older model back. -/
theorem overtaken_retrain_installs_older :
    ∃ t, Run Steps idle overtaking t ∧ t.AllReturned ∧
      (t.calls true).completed = some 1 ∧ t.installedSamples = 0 ∧
      ¬ t.LargestInstalled ∧ ¬ EveryStep Steps NeverShrinks idle overtaking := by
  have hrun : Run Steps idle overtaking _ := run_of_exec rfl
  refine ⟨_, hrun, ?_, rfl, rfl, ?_, ?_⟩
  · rintro (_ | _) <;> exact .inr rfl
  · intro hlargest
    have hle : 1 ≤ 0 := hlargest.largest true 1 rfl
    omega
  · intro hsteps
    have hswap : Run Steps idle
        (advances false 1 ++ [saveOne] ++ advances true 6 ++ advances false 3) _ := run_of_exec rfl
    have hle : 1 ≤ 0 := hsteps _ (.advance false (sampleEnv {})) (advances false 1) _ rfl hswap _ rfl
    omega

end SharedRanker

end Chronoq.Ranker
