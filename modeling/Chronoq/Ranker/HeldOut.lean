import Chronoq.Ranker.TrainingRows

/-! # Is the validation split of an incremental fit held out from the warm-start chain?

The split is cut anew at every fit: the last tenth of the valid groups in the order of their ids.
A group that some fit trained on can therefore end up in the validation split of a later one, when
groups that sort before it become valid, or when the tenth grows.

* `InTraining`, `InValidation`: which positions of an append-only record list are in the splits;
  `trainRows_perm` and `valRows_perm` tie them to the rows that the fits see.
* `Chain`: an estimator, the record lists of the fits that its model went through, and the records
  seen last.
* `SplitsBeyond R' R`: at least as many valid groups of `R` as are held out sort after the last group
  that a fit on `R'` trained on. It is exactly what keeps the split of `R` clear of that fit. -/

namespace Chronoq.Ranker
open Foundations

set_option autoImplicit false

/-! ## The two splits -/

/-- Position `k` of `records` is a record that a fit on `records` trains on. -/
def InTraining (records : List TaskRecord) (k : ℕ) : Prop :=
  ∃ r, records[k]? = some r ∧ groupOf r ∈ trainGroups records

/-- Position `k` of `records` is a record that a fit on `records` holds out. -/
def InValidation (records : List TaskRecord) (k : ℕ) : Prop :=
  ∃ r, records[k]? = some r ∧ groupOf r ∈ valGroups records

/-! ## One earlier fit -/

/-- At least as many valid groups of `records` as are held out sort after the last group that a fit
on `earlier` trained on. -/
def SplitsBeyond (earlier records : List TaskRecord) : Prop :=
  ∀ gid ∈ (trainGroups earlier).getLast?,
    nVal (validGroupIds records).length ≤ (validGroupIds records).countP fun gid' => gid < gid'

theorem mem_valGroups_iff {records : List TaskRecord} {gid : String}
    (h : gid ∈ validGroupIds records) :
    gid ∈ valGroups records ↔
      (validGroupIds records).countP (fun gid' => gid < gid') <
        nVal (validGroupIds records).length := by
  have hsum := nTrain_add_nVal (validGroupIds records).length
  rw [valGroups, mem_drop_iff_countP_lt (validGroupIds_sorted records) h]
  omega

theorem mem_validGroupIds_of_mem_trainGroups {records : List TaskRecord} {gid : String}
    (h : gid ∈ trainGroups records) : gid ∈ validGroupIds records :=
  List.mem_of_mem_take h

/-- No group trained on sorts after the last one. -/
theorem le_getLast_trainGroups {records : List TaskRecord} {gid last : String}
    (hlast : last ∈ (trainGroups records).getLast?) (h : gid ∈ trainGroups records) :
    gid ≤ last := by
  obtain ⟨front, hfront⟩ := List.getLast?_eq_some_iff.mp hlast
  have hsorted : (trainGroups records).Pairwise (· < ·) :=
    (validGroupIds_sorted records).sublist (List.take_sublist _ _)
  rw [hfront] at hsorted h
  rcases List.mem_append.mp h with hmem | hmem
  · have hlt := (List.pairwise_append.mp hsorted).2.2 gid hmem last (List.mem_singleton_self _)
    exact hlt.le
  · rw [List.mem_singleton.mp hmem]

/-- A valid group has a record in every list that extends the one it is valid in. -/
theorem exists_position_of_valid {earlier records : List TaskRecord} {gid : String}
    (hext : earlier <+: records) (h : gid ∈ validGroupIds earlier) :
    ∃ (k : ℕ) (r : TaskRecord),
      earlier[k]? = some r ∧ records[k]? = some r ∧ groupOf r = gid := by
  have hcount := mem_validGroupIds.mp h
  obtain ⟨r, hr, hgid⟩ := List.countP_pos_iff.mp (lt_of_lt_of_le (by omega) hcount)
  obtain ⟨k, hk⟩ := List.mem_iff_getElem?.mp hr
  refine ⟨k, r, hk, ?_, decide_eq_true_eq.mp hgid⟩
  obtain ⟨more, rfl⟩ := hext
  rw [List.getElem?_append_left (List.getElem?_eq_some_iff.mp hk).1]
  exact hk

/-- A fit on `records` holds out no record that a fit on `earlier` trained on exactly when its split
lies beyond the groups of that fit. -/
theorem held_out_iff_splitsBeyond {earlier records : List TaskRecord} (hext : earlier <+: records) :
    (∀ k, InValidation records k → ¬ InTraining earlier k) ↔ SplitsBeyond earlier records := by
  constructor
  · intro hheld last hlast
    by_contra hlt
    have htrain : last ∈ trainGroups earlier := List.mem_of_mem_getLast? hlast
    have hvalid := mem_validGroupIds_of_mem_trainGroups htrain
    have hval : last ∈ valGroups records := by
      rw [mem_valGroups_iff (validGroupIds_subset_of_extends hext hvalid)]
      exact not_le.mp hlt
    obtain ⟨k, r, hk, hk', hgid⟩ := exists_position_of_valid hext hvalid
    exact hheld k ⟨r, hk', hgid ▸ hval⟩ ⟨r, hk, hgid ▸ htrain⟩
  · rintro hbeyond k ⟨r, hr, hval⟩ ⟨r', hr', htrain⟩
    obtain rfl : r = r' := by
      obtain ⟨more, rfl⟩ := hext
      rw [List.getElem?_append_left (List.getElem?_eq_some_iff.mp hr').1, hr'] at hr
      exact (Option.some.inj hr).symm
    obtain ⟨last, hlast⟩ := List.getLast?_isSome.mpr (List.ne_nil_of_mem htrain) |>
      Option.isSome_iff_exists.mp
    have hle : groupOf r ≤ last := le_getLast_trainGroups hlast htrain
    have hfew := (mem_valGroups_iff (List.mem_of_mem_drop hval)).mp hval
    have hmany := hbeyond last hlast
    have hmono : (validGroupIds records).countP (fun gid => last < gid) ≤
        (validGroupIds records).countP fun gid => groupOf r < gid := by
      refine List.countP_mono_left fun gid _ h => ?_
      rw [decide_eq_true_eq] at h ⊢
      exact hle.trans_lt h
    omega

/-! ## Runs on growing record lists -/

/-- An estimator, the record lists of the fits that its model went through since the last full one,
and the records of the last call. -/
structure Chain where
  est : LambdaRankEstimator
  chain : List (List TaskRecord)
  seen : List TaskRecord

namespace Chain

def start (config : RankerConfig) (extractor : FeatureExtractor) : Chain :=
  ⟨.new config extractor, [], []⟩

def next (s : Chain) (i : FitInput) : Chain where
  est := s.est.afterFit i
  chain :=
    if s.est.Installs i then
      if s.est.fullRefitDue then [i.records] else s.chain ++ [i.records]
    else s.chain
  seen := i.records

abbrev Steps : Chain → FitInput → Chain → Prop := fun s i s' => s.next i = s'

theorem Steps.unique (s : Chain) (i : FitInput) (s' s'' : Chain) (h : Steps s i s')
    (h' : Steps s i s'') : s' = s'' :=
  h.symm.trans h'

/-- The records of every fit in the chain are a first part of the records seen last. -/
def Grows (s : Chain) : Prop := ∀ earlier ∈ s.chain, earlier <+: s.seen

/-- The records that the call extends. -/
def Extends (s : Chain) (i : FitInput) : Prop := s.seen <+: i.records

theorem grows_step {s s' : Chain} {i : FitInput} (h : Steps s i s') (hext : s.Extends i)
    (hs : s.Grows) : s'.Grows := by
  obtain rfl := h
  intro earlier hmem
  have hold : ∀ earlier ∈ s.chain, earlier <+: i.records := fun earlier hmem =>
    (hs earlier hmem).trans hext
  simp only [next] at hmem ⊢
  split at hmem
  · split at hmem
    · rw [List.mem_singleton.mp hmem]
    · rcases List.mem_append.mp hmem with hmem | hmem
      · exact hold earlier hmem
      · rw [List.mem_singleton.mp hmem]
  · exact hold earlier hmem

/-- The validation split of an incremental fit holds out no record of any fit in the chain. -/
def HeldOut (s : Chain) (i : FitInput) : Prop :=
  s.est.fullRefitDue = false →
    ∀ earlier ∈ s.chain, ∀ k, InValidation i.records k → ¬ InTraining earlier k

/-- The split of an incremental fit lies beyond the groups of every fit in the chain. -/
def SplitsBeyondChain (s : Chain) (i : FitInput) : Prop :=
  s.est.fullRefitDue = false → ∀ earlier ∈ s.chain, SplitsBeyond earlier i.records

theorem heldOut_iff {s : Chain} {i : FitInput} (hs : s.Grows) (hext : s.Extends i) :
    s.HeldOut i ↔ s.SplitsBeyondChain i := by
  unfold HeldOut SplitsBeyondChain
  refine imp_congr_right fun _ => forall₂_congr fun earlier hmem => ?_
  exact held_out_iff_splitsBeyond ((hs earlier hmem).trans hext)

/-- Along a run on growing record lists the validation is held out at every incremental fit exactly
when the split of each lies beyond the groups of every earlier fit in its warm-start chain. -/
theorem validation_held_out_iff (config : RankerConfig) (extractor : FeatureExtractor)
    {inputs : List FitInput} {s : Chain}
    (h : Run (Guarded Extends Steps) (start config extractor) inputs s) :
    EveryStep Steps HeldOut (start config extractor) inputs ↔
      EveryStep Steps SplitsBeyondChain (start config extractor) inputs := by
  have hgrows : (start config extractor).Grows := by
    intro earlier hmem
    cases hmem
  have hevery := h.everyStep (I := Grows) Steps.unique (fun _ _ _ => grows_step) hgrows
  exact everyStep_congr hevery fun s i hsi => heldOut_iff hsi.1 hsi.2

/-! ## A late group that sorts first -/

def pair (gid : String) : List TaskRecord :=
  [sampleRecord "resize" gid 1, sampleRecord "resize" gid 2]

/-- Nine pairs, too few for a validation split. -/
def ninePairs : List TaskRecord :=
  (List.range 9).flatMap fun g => pair ("train_" ++ toString g)

theorem prepares_ninePairs : Prepares plainExtractor ninePairs := by
  refine prepares_plain (List.forall_mem_flatMap.mpr fun g _ => ?_)
  simp [pair, plain_sampleRecord]

def firstFit : FitInput := sampleInput (positionBooster fun i => -i) ninePairs

/-- With the tenth pair the last of the nine groups is held out. -/
def secondFit : FitInput :=
  sampleInput (positionBooster fun i => -i) (ninePairs ++ pair "recovery_0")

def fewGroups : RankerConfig := { minGroups := 5 }

theorem two_fits_run : Run (Guarded Extends Steps) (start fewGroups (defaultExtractor fun _ => ""))
    [firstFit, secondFit]
    (((start fewGroups (defaultExtractor fun _ => "")).next firstFit).next secondFit) :=
  .cons ⟨rfl, List.nil_prefix⟩ (.single ⟨rfl, List.prefix_append _ _⟩)

theorem validation_held_out_iff_two_fits :
    EveryStep Steps HeldOut (start fewGroups (defaultExtractor fun _ => ""))
        [firstFit, secondFit] ↔
      EveryStep Steps SplitsBeyondChain (start fewGroups (defaultExtractor fun _ => ""))
        [firstFit, secondFit] :=
  validation_held_out_iff _ _ two_fits_run

/-- The incremental fit on ten groups validates on a group that the full fit on nine trained on. -/
theorem validation_on_trained_group :
    ¬ ∀ (inputs : List FitInput) (s : Chain),
      Run (Guarded Extends Steps) (start fewGroups (defaultExtractor fun _ => "")) inputs s →
      EveryStep Steps HeldOut (start fewGroups (defaultExtractor fun _ => "")) inputs := by
  intro hall
  have hheld := hall _ _ two_fits_run [firstFit] secondFit [] _ rfl (.single rfl)
  obtain ⟨fdicts, x, -, -, hfirst⟩ := LambdaRankEstimator.afterFit_full
    (e := .new fewGroups (defaultExtractor fun _ => "")) (i := firstFit)
    prepares_ninePairs rfl (by decide) fun _ => rfl
  have hinst : (start fewGroups (defaultExtractor fun _ => "")).est.Installs firstFit := by
    rw [LambdaRankEstimator.Installs, start, hfirst]
    exact Nat.succ_ne_self _
  have hdue : ((start fewGroups (defaultExtractor fun _ => "")).next firstFit).est.fullRefitDue =
      false := by
    rw [next, start, hfirst]
    rfl
  have hnew : (start fewGroups (defaultExtractor fun _ => "")).est.fullRefitDue = true := rfl
  have hmem : ninePairs ∈ ((start fewGroups (defaultExtractor fun _ => "")).next firstFit).chain := by
    rw [next]
    dsimp only
    rw [if_pos hinst, if_pos hnew]
    exact List.mem_singleton_self _
  refine hheld hdue ninePairs hmem 16 ⟨sampleRecord "resize" "train_8" 1, ?_, ?_⟩
    ⟨sampleRecord "resize" "train_8" 1, ?_, ?_⟩ <;> decide

end Chain

end Chronoq.Ranker
