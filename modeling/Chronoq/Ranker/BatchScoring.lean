import Chronoq.Ranker.DeclaredFeatures
import Chronoq.Ranker.RefitSchedule

/-! # Does a batch score a candidate as it is scored alone?

Scoring extends the encoder, so a candidate's row depends on what is scored with it and was scored
before: a value that the encoder does not know gets the next code.

* `Warmed`: an estimator and the rows that its model was trained on, through the warm-start chain.
* `Booster.ScoresRows`: rows are scored one by one, and alike when they differ only in categorical
  cells whose codes the training rows do not hold (`DifferInUnseen`).
* `Covers`: the codes in the training rows belong to values that the encoder knows, as they do while
  every fit returns. A new value then never gets a code that the model was trained on, and
  `row_differInUnseen` follows: two encoders that extend one give a candidate two such rows. -/

namespace Chronoq.Ranker
open Foundations

set_option autoImplicit false

/-! ## Rows that a model cannot tell apart -/

/-- The rows differ only in categorical cells that are different from those of every training row. -/
def DifferInUnseen (rows : List Row) (r r' : Row) : Prop :=
  r.length = r'.length ∧ ∀ k, r[k]? ≠ r'[k]? →
    k ∈ catColIndices ∧ ∀ t ∈ rows, t[k]? ≠ r[k]? ∧ t[k]? ≠ r'[k]?

/-- `score` is the model's score of a single row, the same for rows that differ in unseen codes. -/
structure Booster.ScoresRows (model : Booster) (rows : List Row) (score : Row → ℚ) : Prop where
  predict_eq : ∀ x, model.predict x = x.map score
  score_eq : ∀ {r r'}, DifferInUnseen rows r r' → score r = score r'

namespace Encoder

/-- Every categorical cell of the rows is the code of a value that the encoder knows. -/
def Covers (encoder : Encoder) (rows : List Row) : Prop :=
  ∀ t ∈ rows, ∀ (j : ℕ) (hj : j < catCols.length),
    ∃ n < (encoder.codesOf catCols[j]).keys.card,
      t[numericCols.length + j]? = some (toFloat32 (.finite (n : ℕ)))

theorem keys_codesOf_extend (encoder : Encoder) (fdicts : List FeatureDict) {col : String}
    (hcol : col ∈ catCols) :
    ((encoder.extend fdicts).codesOf col).keys =
      (encoder.codesOf col).keys ∪ (fdicts.map fun fdict => textAt fdict col).toFinset := by
  rw [codesOf_extend encoder fdicts hcol, keys_internAll]

theorem card_extend_mono (encoder : Encoder) {fdicts fdicts' : List FeatureDict}
    (hsub : fdicts ⊆ fdicts') {col : String} (hcol : col ∈ catCols) :
    ((encoder.extend fdicts).codesOf col).keys.card ≤
      ((encoder.extend fdicts').codesOf col).keys.card := by
  rw [keys_codesOf_extend encoder fdicts hcol, keys_codesOf_extend encoder fdicts' hcol]
  refine Finset.card_le_card (Finset.union_subset_union_right fun text htext => ?_)
  rw [List.mem_toFinset] at htext ⊢
  exact List.map_subset _ hsub htext

theorem Covers.extend {encoder : Encoder} {rows : List Row} (h : encoder.Covers rows)
    (fdicts : List FeatureDict) : (encoder.extend fdicts).Covers rows := by
  intro t ht j hj
  obtain ⟨n, hn, hcell⟩ := h t ht j hj
  have hcard := encoder.card_extend_mono (List.nil_subset fdicts) (List.getElem_mem hj)
  exact ⟨n, hn.trans_le hcard, hcell⟩

theorem Covers.subset {encoder : Encoder} {rows rows' : List Row} (h : encoder.Covers rows)
    (hsub : rows' ⊆ rows) : encoder.Covers rows' := fun t ht => h t (hsub ht)

theorem Covers.append {encoder : Encoder} {rows rows' : List Row} (h : encoder.Covers rows)
    (h' : encoder.Covers rows') : encoder.Covers (rows ++ rows') := by
  intro t ht
  rcases List.mem_append.mp ht with ht | ht
  · exact h t ht
  · exact h' t ht

/-- An encoder knows the values in the rows that it has built. -/
theorem covers_rows {encoder : Encoder} (hdense : encoder.DenselyNumbered)
    {fdicts : List FeatureDict} {x : List Row} (h : (encoder.extend fdicts).rows fdicts = .ok x) :
    (encoder.extend fdicts).Covers x := by
  intro t ht j hj
  obtain ⟨fdict, hmem, hrow⟩ := exists_of_mem_mapM_ok h ht
  have hcol : catCols[j] ∈ catCols := List.getElem_mem hj
  obtain ⟨n, hn⟩ := encoder.codeOf_extend_of_mem hmem hcol
  refine ⟨n, ?_, ?_⟩
  · rw [codeOf_eq_lookup] at hn
    exact (hdense.extend fdicts _ hcol).lt_card hn
  · rw [row_getElem_cat hrow hj, cell, hn, Option.getD_some]

/-! ## One candidate in two batches -/

/-- The code of a value in an extended encoder is below the bound, and either it is the one that the
value had before or no value had it before. -/
theorem cell_extend_cases (encoder : Encoder) (hdense : encoder.DenselyNumbered)
    {fdicts : List FeatureDict} {fdict : FeatureDict} (hmem : fdict ∈ fdicts) {col : String}
    (hcol : col ∈ catCols) :
    ∃ n < ((encoder.extend fdicts).codesOf col).keys.card,
      (encoder.extend fdicts).cell col (textAt fdict col) = .finite (n : ℕ) ∧
        (encoder.codeOf col (textAt fdict col) = some n ∨
          (encoder.codeOf col (textAt fdict col) = none ∧ (encoder.codesOf col).keys.card ≤ n)) := by
  obtain ⟨n, hn⟩ := encoder.codeOf_extend_of_mem hmem hcol
  have hlookup := hn
  rw [codeOf_eq_lookup] at hlookup
  refine ⟨n, (hdense.extend fdicts col hcol).lt_card hlookup, by rw [cell, hn, Option.getD_some], ?_⟩
  cases hold : encoder.codeOf col (textAt fdict col) with
  | some m =>
    rw [codeOf_extend_of_some hold] at hn
    exact .inl hn
  | none =>
    refine .inr ⟨rfl, ?_⟩
    rw [codesOf_extend encoder fdicts hcol] at hlookup
    rw [codeOf_eq_lookup, Finmap.lookup_eq_none] at hold
    exact card_le_of_lookup_internAll hold hlookup

/-- A candidate's rows in two batches differ only where its value is new, and there in codes that no
covered row holds. -/
theorem row_differInUnseen {encoder : Encoder} (hdense : encoder.DenselyNumbered) {rows : List Row}
    (hcovers : encoder.Covers rows) {fdicts fdicts' : List FeatureDict} {fdict : FeatureDict}
    (hmem : fdict ∈ fdicts) (hmem' : fdict ∈ fdicts')
    (hfew : ∀ col ∈ catCols, ((encoder.extend fdicts).codesOf col).keys.card < 2 ^ 24)
    (hfew' : ∀ col ∈ catCols, ((encoder.extend fdicts').codesOf col).keys.card < 2 ^ 24) {r r' : Row}
    (h : (encoder.extend fdicts).row fdict = .ok r)
    (h' : (encoder.extend fdicts').row fdict = .ok r') : DifferInUnseen rows r r' := by
  have hlen := (row_length h).trans (row_length h').symm
  refine ⟨hlen, fun k hk => ?_⟩
  -- the cell is one of the categorical ones
  have hcat : numericCols.length ≤ k := by
    by_contra hlt
    exact hk (row_getElem_numeric h h' (not_le.mp hlt))
  obtain ⟨j, rfl⟩ := Nat.exists_eq_add_of_le hcat
  have hj : j < catCols.length := by
    by_contra hge
    have hlong := row_length h
    refine hk ?_
    rw [List.getElem?_eq_none (by omega), List.getElem?_eq_none (by omega)]
  have hcol : catCols[j] ∈ catCols := List.getElem_mem hj
  obtain ⟨n, hn, hcell, hcases⟩ := encoder.cell_extend_cases hdense hmem hcol
  obtain ⟨n', hn', hcell', hcases'⟩ := encoder.cell_extend_cases hdense hmem' hcol
  rw [row_getElem_cat h hj, row_getElem_cat h' hj, hcell, hcell'] at hk ⊢
  rw [toFloat32_natCast (hn.trans (hfew _ hcol)), toFloat32_natCast (hn'.trans (hfew' _ hcol))] at hk ⊢
  -- and the value is new: a known one has one code in both batches
  have hnew : (encoder.codesOf catCols[j]).keys.card ≤ n ∧
      (encoder.codesOf catCols[j]).keys.card ≤ n' := by
    rcases hcases with hold | ⟨hnone, hle⟩
    · rcases hcases' with hold' | ⟨hnone, -⟩
      · rw [hold] at hold'
        exact absurd (by rw [Option.some.inj hold']) hk
      · rw [hold] at hnone
        cases hnone
    · rcases hcases' with hold' | ⟨-, hle'⟩
      · rw [hold'] at hnone
        cases hnone
      · exact ⟨hle, hle'⟩
  refine ⟨List.mem_map.mpr ⟨j, List.mem_range.mpr hj, rfl⟩, fun t ht => ?_⟩
  obtain ⟨m, hm, hcellt⟩ := hcovers t ht j hj
  have hcard := encoder.card_extend_mono (List.nil_subset fdicts) hcol
  have hm' : m < 2 ^ 24 := (hm.trans_le hcard).trans (hfew _ hcol)
  rw [hcellt, toFloat32_natCast hm']
  constructor
  · intro heq
    have hmn : m = n := Nat.cast_injective (ExtFloat.finite.inj (Option.some.inj heq))
    omega
  · intro heq
    have hmn : m = n' := Nat.cast_injective (ExtFloat.finite.inj (Option.some.inj heq))
    omega

end Encoder

namespace LambdaRankEstimator

/-! ## Scoring -/

/-- What scoring returns for a candidate whose row is `r`. -/
def scored (score : Row → ℚ) (r : Row) : ℚ × ℚ := (-(score r), 8 / 10)

theorem predict_model (e : LambdaRankEstimator) (features : FeatureDict) :
    (e.predict features).1.model = e.model := by
  unfold predict
  split
  · rfl
  · rfl

theorem predictBatch_model (e : LambdaRankEstimator) (featureDicts : List FeatureDict) :
    (e.predictBatch featureDicts).1.model = e.model := by
  unfold predictBatch
  split
  · rfl
  · split
    · rfl
    · rfl

theorem predictBatch_eq {e : LambdaRankEstimator} {model : Booster} (hmodel : e.model = some model)
    {score : Row → ℚ} (hscore : ∀ x, model.predict x = x.map score) (fdicts : List FeatureDict) :
    (e.predictBatch fdicts).2 =
      fdicts.mapM fun fdict => ((e.encoder.extend fdicts).row fdict).map (scored score) := by
  rw [← map_mapM]
  cases fdicts with
  | nil => rfl
  | cons fdict fdicts =>
    simp only [predictBatch, hmodel, Encoder.buildMatrix, Encoder.rows, Bool.false_eq_true, if_false]
    congr 1
    funext x
    rw [hscore, List.map_map]
    rfl

theorem predict_eq {e : LambdaRankEstimator} {model : Booster} (hmodel : e.model = some model)
    {score : Row → ℚ} (hscore : ∀ x, model.predict x = x.map score) (fdict : FeatureDict) :
    (e.predict fdict).2 = ((e.encoder.extend [fdict]).row fdict).map (scored score) := by
  simp only [predict, hmodel, Encoder.buildMatrix, Encoder.rows, List.mapM_cons, List.mapM_nil,
    Bool.false_eq_true, if_false]
  cases (e.encoder.extend [fdict]).row fdict with
  | error exc => rfl
  | ok r =>
    have hone : model.predict [r] = [score r] := hscore [r]
    simp [bind, Except.bind, pure, Except.pure, Except.map, hone, scored]

theorem unfit_predictBatch {e : LambdaRankEstimator} (hmodel : e.model = none)
    (fdicts : List FeatureDict) :
    (e.predictBatch fdicts).2 = fdicts.mapM fun fdict => (e.predict fdict).2 := by
  have hpredict : ∀ fdict, (e.predict fdict).2 = .ok (0, 0) := fun fdict => by
    simp only [predict, hmodel]
  have hzeros : (e.predictBatch fdicts).2 = .ok (List.replicate fdicts.length (0, 0)) := by
    cases fdicts with
    | nil => rfl
    | cons fdict fdicts => simp only [predictBatch, hmodel]
  rw [hzeros]
  refine (mapM_eq_ok_iff.mpr ?_).symm
  simp only [hpredict, Except.ok.injEq]
  clear hzeros
  induction fdicts with
  | nil => exact .nil
  | cons fdict fdicts ih => exact .cons rfl ih

/-- Two encoders that extend one give a candidate the same result. -/
theorem scored_eq {encoder : Encoder} (hdense : encoder.DenselyNumbered) {rows : List Row}
    (hcovers : encoder.Covers rows) {model : Booster} {score : Row → ℚ}
    (hscore : model.ScoresRows rows score) {fdicts fdicts' : List FeatureDict} {fdict : FeatureDict}
    (hmem : fdict ∈ fdicts) (hmem' : fdict ∈ fdicts')
    (hfew : ∀ col ∈ catCols, ((encoder.extend fdicts).codesOf col).keys.card < 2 ^ 24)
    (hfew' : ∀ col ∈ catCols, ((encoder.extend fdicts').codesOf col).keys.card < 2 ^ 24) :
    ((encoder.extend fdicts).row fdict).map (scored score) =
      ((encoder.extend fdicts').row fdict).map (scored score) := by
  by_cases hread : Readable fdict
  · have h := Encoder.row_eq_ok hread (encoder.extend fdicts)
    have h' := Encoder.row_eq_ok hread (encoder.extend fdicts')
    have hdiffer := Encoder.row_differInUnseen hdense hcovers hmem hmem' hfew hfew' h h'
    rw [h, h']
    simp only [Except.map, scored, hscore.score_eq hdiffer]
  · -- a number that cannot be read is one in every encoder
    have hraises : ∀ encoder : Encoder, (encoder.row fdict).map (scored score) =
        (numericCols.mapM (floatAt fdict)).map fun _ => (0, 0) := by
      intro encoder
      cases hnumbers : numericCols.mapM (floatAt fdict) with
      | error exc =>
        rw [Encoder.row, hnumbers]
        rfl
      | ok numbers => exact absurd (exists_mapM_ok_iff.mp ⟨numbers, hnumbers⟩) hread
    rw [hraises, hraises]

end LambdaRankEstimator

/-! ## The rows that a model was trained on -/

structure Warmed where
  est : LambdaRankEstimator
  rows : List Row

/-- The rows that a fit hands to LightGBM for training. -/
def trainingRows (e : LambdaRankEstimator) (i : FitInput) : List Row :=
  match (prepareData e.extractor e.encoder i.records e.fullRefitDue).2 with
  | .ok d => d.xTrain
  | .error _ => []

/-- A fit that returns extends the encoder, or has rebuilt it and then installs a model; a model that
is installed was trained on rows of the encoder it is left with. -/
theorem afterFit_returns_cases {e : LambdaRankEstimator} {i : FitInput} (h : e.returns i = true) :
    (¬ e.Installs i ∧ ∃ fdicts, (e.afterFit i).encoder = e.encoder.extend fdicts) ∨
      (e.Installs i ∧ ∃ fdicts x,
        (e.afterFit i).encoder = (e.encoder.base e.fullRefitDue).extend fdicts ∧
          (e.afterFit i).encoder.rows fdicts = .ok x ∧ trainingRows e i ⊆ x) := by
  have htrain : ∀ {fdicts : List FeatureDict} {x : List Row},
      featureRows e.extractor i.records = .ok fdicts →
      ((e.encoder.base e.fullRefitDue).extend fdicts).rows fdicts = .ok x →
      trainingRows e i ⊆ x := by
    intro fdicts x hrows hx
    rw [Encoder.base] at hx
    rw [trainingRows, prepareData_ok hrows, hx]
    exact List.take_subset _ _
  unfold LambdaRankEstimator.returns at h
  unfold LambdaRankEstimator.Installs LambdaRankEstimator.afterFit
  have hspec := e.fit_spec i.env i.records
  generalize (e.fit i.env i.records).1 = e', (e.fit i.env i.records).2 = result at hspec h ⊢
  cases hspec with
  | unextracted hrows => cases h
  | fullFailed hdue hrows hwhy => cases h
  | fullInstalled hdue hrows hx hgroups hfit =>
    rw [Encoder.base, hdue, if_pos rfl] at htrain ⊢
    exact .inr ⟨Nat.succ_ne_self _, _, _, rfl, hx, htrain hrows hx⟩
  | incrementalFailed hdue hmodel hrows hwhy => cases h
  | rejected hdue hmodel hrows hx hfit hgate => exact .inl ⟨fun hne => hne rfl, _, rfl⟩
  | accepted hdue hmodel hrows hx hfit hgate =>
    rw [Encoder.base, hdue, if_neg (by decide)] at htrain ⊢
    exact .inr ⟨Nat.succ_ne_self _, _, _, rfl, hx, htrain hrows hx⟩

namespace Warmed

def start (config : RankerConfig) (extractor : FeatureExtractor) : Warmed :=
  ⟨.new config extractor, []⟩

def afterCall (s : Warmed) : EstimatorCall → Warmed
  | .fit i =>
    { est := s.est.afterFit i
      rows :=
        if s.est.Installs i then
          if s.est.fullRefitDue then trainingRows s.est i else s.rows ++ trainingRows s.est i
        else s.rows }
  | .predict features => { s with est := (s.est.predict features).1 }
  | .predictBatch featureDicts => { s with est := (s.est.predictBatch featureDicts).1 }

abbrev Steps : Warmed → EstimatorCall → Warmed → Prop := fun s call s' => s.afterCall call = s'

/-- A fit that returns normally, or a call that scores. -/
def Returns (s : Warmed) : EstimatorCall → Prop
  | .fit i => s.est.returns i = true
  | _ => True

def Scores (_ : Warmed) : EstimatorCall → Prop
  | .fit _ => False
  | _ => True

/-- The columns are densely numbered and the encoder knows what the model was trained on. -/
structure Sound (s : Warmed) : Prop where
  dense : s.est.encoder.DenselyNumbered
  covers : s.est.encoder.Covers s.rows

theorem sound_start (config : RankerConfig) (extractor : FeatureExtractor) :
    (start config extractor).Sound where
  dense := Encoder.denselyNumbered_empty
  covers := by
    intro t ht
    cases ht

theorem sound_of_encoder {s : Warmed} (hs : s.Sound) {e : LambdaRankEstimator}
    {fdicts : List FeatureDict}
    (h : e.encoder = s.est.encoder ∨ e.encoder = s.est.encoder.extend fdicts) :
    Sound { s with est := e } := by
  refine ⟨Traced.encoder_denselyNumbered hs.dense h, ?_⟩
  dsimp only
  rcases h with h | h <;> rw [h]
  · exact hs.covers
  · exact hs.covers.extend fdicts

/-- Every call that returns keeps the encoder sound. -/
theorem sound_step {s s' : Warmed} {call : EstimatorCall} (h : Steps s call s')
    (hreturns : s.Returns call) (hs : s.Sound) : s'.Sound := by
  obtain rfl := h
  cases call with
  | fit i =>
    refine ⟨Traced.afterFit_denselyNumbered hs.dense i, ?_⟩
    simp only [afterCall]
    rcases afterFit_returns_cases hreturns with ⟨hnot, fdicts, hencoder⟩ |
      ⟨hinst, fdicts, x, hencoder, hx, htrain⟩
    · rw [if_neg hnot, hencoder]
      exact hs.covers.extend fdicts
    · rw [hencoder] at hx
      rw [if_pos hinst, hencoder]
      cases hdue : s.est.fullRefitDue with
      | true =>
        rw [hdue] at hx
        exact (Encoder.covers_rows Encoder.denselyNumbered_fresh hx).subset htrain
      | false =>
        rw [hdue] at hx
        exact (hs.covers.extend fdicts).append ((Encoder.covers_rows hs.dense hx).subset htrain)
  | predict features => exact sound_of_encoder hs (Traced.predict_encoder s.est features)
  | predictBatch featureDicts =>
    exact sound_of_encoder hs (Traced.predictBatch_encoder s.est featureDicts)

/-- Scoring changes nothing but the encoder, and only extends that. -/
theorem scores_run {s s' : Warmed} {calls : List EstimatorCall}
    (h : Run (Guarded Scores Steps) s calls s') :
    ∃ fdicts, s'.est.model = s.est.model ∧ s'.rows = s.rows ∧
      s'.est.encoder = s.est.encoder.extend fdicts := by
  have hextend : ∀ {encoder e e' : Encoder} {seen fdicts : List FeatureDict},
      e = encoder.extend seen → (e' = e ∨ e' = e.extend fdicts) →
      ∃ fdicts, e' = encoder.extend fdicts := by
    rintro encoder e e' seen fdicts rfl (rfl | rfl)
    · exact ⟨seen, rfl⟩
    · exact ⟨seen ++ fdicts, (List.foldl_append ..).symm⟩
  refine h.preserves (P := fun t => ∃ fdicts, t.est.model = s.est.model ∧ t.rows = s.rows ∧
    t.est.encoder = s.est.encoder.extend fdicts) ?_ ⟨[], rfl, rfl, rfl⟩
  rintro t call t' ⟨rfl, hcall⟩ ⟨seen, hmodel, hrows, hencoder⟩
  cases call with
  | fit i => cases hcall
  | predict features =>
    obtain ⟨fdicts, h⟩ := hextend hencoder (Traced.predict_encoder t.est features)
    exact ⟨fdicts, (t.est.predict_model features).trans hmodel, hrows, h⟩
  | predictBatch featureDicts =>
    obtain ⟨fdicts, h⟩ := hextend hencoder (Traced.predictBatch_encoder t.est featureDicts)
    exact ⟨fdicts, (t.est.predictBatch_model featureDicts).trans hmodel, hrows, h⟩

/-- After any scoring, a batch and each candidate alone are scored as the candidate is alone before. -/
theorem scoring_agrees {s s' : Warmed} (hs : s.Sound)
    (hscore : ∀ model, s.est.model = some model → ∃ score, model.ScoresRows s.rows score)
    {more : List EstimatorCall} (hmore : Run (Guarded Scores Steps) s more s')
    {fdicts : List FeatureDict}
    (hfew : ∀ col ∈ catCols, ((s'.est.encoder.extend fdicts).codesOf col).keys.card < 2 ^ 24) :
    (s'.est.predictBatch fdicts).2 = fdicts.mapM (fun fdict => (s.est.predict fdict).2) ∧
      ∀ fdict ∈ fdicts, (s'.est.predict fdict).2 = (s.est.predict fdict).2 := by
  obtain ⟨seen, hmodel, -, hencoder⟩ := scores_run hmore
  have hextend : ∀ fdicts : List FeatureDict,
      s'.est.encoder.extend fdicts = s.est.encoder.extend (seen ++ fdicts) := by
    intro fdicts
    rw [hencoder]
    exact (List.foldl_append ..).symm
  cases hsome : s.est.model with
  | none =>
    rw [hsome] at hmodel
    have hzero : ∀ e : LambdaRankEstimator, e.model = none → ∀ fdict,
        (e.predict fdict).2 = .ok (0, 0) := fun e he fdict => by
      simp only [LambdaRankEstimator.predict, he]
    refine ⟨?_, fun fdict _ => by rw [hzero _ hmodel, hzero _ hsome]⟩
    rw [LambdaRankEstimator.unfit_predictBatch hmodel]
    exact mapM_congr fun fdict _ => by rw [hzero _ hmodel, hzero _ hsome]
  | some model =>
    rw [hsome] at hmodel
    obtain ⟨score, hscore⟩ := hscore model hsome
    -- every batch of these candidates keeps within the bound
    have hbound : ∀ fdicts', fdicts' ⊆ seen ++ fdicts → ∀ col ∈ catCols,
        ((s.est.encoder.extend fdicts').codesOf col).keys.card < 2 ^ 24 := by
      intro fdicts' hsub col hcol
      have hmono := s.est.encoder.card_extend_mono hsub hcol
      have hall := hfew col hcol
      rw [hextend] at hall
      exact hmono.trans_lt hall
    have halone : ∀ {fdict}, fdict ∈ fdicts → [fdict] ⊆ seen ++ fdicts := by
      intro fdict hmem fdict' hmem'
      rw [List.mem_singleton.mp hmem']
      exact List.mem_append_right _ hmem
    constructor
    · rw [LambdaRankEstimator.predictBatch_eq hmodel hscore.predict_eq]
      refine mapM_congr fun fdict hmem => ?_
      rw [LambdaRankEstimator.predict_eq hsome hscore.predict_eq, hextend]
      refine LambdaRankEstimator.scored_eq hs.dense hs.covers hscore
        (List.mem_append_right _ hmem) (List.mem_singleton_self _) ?_ ?_
      · exact hbound _ (List.Subset.refl _)
      · exact hbound _ (halone hmem)
    · intro fdict hmem
      rw [LambdaRankEstimator.predict_eq hmodel hscore.predict_eq,
        LambdaRankEstimator.predict_eq hsome hscore.predict_eq, hextend]
      refine LambdaRankEstimator.scored_eq hs.dense hs.covers hscore
        (List.mem_append_right _ (List.mem_singleton_self _)) (List.mem_singleton_self _) ?_ ?_
      · exact hbound _ (List.append_subset.mpr ⟨List.subset_append_left _ _, halone hmem⟩)
      · exact hbound _ (halone hmem)

/-- Batch scoring agrees with single scoring. In a state reached by fits that returned and by scoring
calls, for a model that scores rows one by one and does not tell unseen codes apart, and after any
more scoring: a batch returns what its candidates return alone; each of these is what it was before;
and a permuted batch returns the permuted results. -/
theorem batch_scoring_agrees {config : RankerConfig} {extractor : FeatureExtractor}
    {calls : List EstimatorCall} {s : Warmed}
    (h : Run (Guarded Returns Steps) (start config extractor) calls s)
    (hscore : ∀ model, s.est.model = some model → ∃ score, model.ScoresRows s.rows score)
    {more : List EstimatorCall} {s' : Warmed} (hmore : Run (Guarded Scores Steps) s more s')
    {fdicts : List FeatureDict}
    (hfew : ∀ col ∈ catCols, ((s'.est.encoder.extend fdicts).codesOf col).keys.card < 2 ^ 24) :
    (s'.est.predictBatch fdicts).2 = fdicts.mapM (fun fdict => (s'.est.predict fdict).2) ∧
      (∀ fdict ∈ fdicts, (s'.est.predict fdict).2 = (s.est.predict fdict).2) ∧
      ∀ fdicts' results, fdicts.Perm fdicts' → (s'.est.predictBatch fdicts).2 = .ok results →
        ∃ results', (s'.est.predictBatch fdicts').2 = .ok results' ∧
          (fdicts.zip results).Perm (fdicts'.zip results') := by
  have hs : s.Sound := by
    refine h.preserves (P := Sound) ?_ (sound_start config extractor)
    intro s call s' hstep hs
    exact sound_step hstep.1 hstep.2 hs
  obtain ⟨hbatch, halone⟩ := scoring_agrees hs hscore hmore hfew
  refine ⟨?_, halone, fun fdicts' results hperm hresults => ?_⟩
  · rw [hbatch]
    exact mapM_congr fun fdict hmem => (halone fdict hmem).symm
  · have hfew' : ∀ col ∈ catCols,
        ((s'.est.encoder.extend fdicts').codesOf col).keys.card < 2 ^ 24 := fun col hcol =>
      (s'.est.encoder.card_extend_mono hperm.symm.subset hcol).trans_lt (hfew col hcol)
    rw [(scoring_agrees hs hscore hmore hfew').1]
    rw [hbatch] at hresults
    exact zip_perm_of_mapM_ok hperm hresults

/-! ## Two unseen task types in one batch -/

/-- A model that scores a row by its payload size. -/
def payloadBooster : Booster where
  predict x := x.map fun r => -(r.headD (.finite 0)).toRat
  predict_length x := by simp

theorem payloadBooster_scoresRows (rows : List Row) :
    payloadBooster.ScoresRows rows fun r => -(r.headD (.finite 0)).toRat where
  predict_eq _ := rfl
  score_eq := by
    intro r r' h
    have hhead : r[0]? = r'[0]? := by
      by_contra hne
      exact absurd (h.2 0 hne).1 (by decide)
    rw [List.headD_eq_head?_getD, List.headD_eq_head?_getD, List.head?_eq_getElem?,
      List.head?_eq_getElem?, hhead]

def payloadFit : FitInput := sampleInput payloadBooster (labelled "batch_1" "resize" "ocr")

def afterPayloadFit : Warmed :=
  (start Scheduled.everyThird plainExtractor).afterCall (.fit payloadFit)

def jobFeatures (taskType : String) : FeatureDict :=
  dictOf [("task_type", .ofText taskType), ("payload_size", floatValue (1024 : ℚ))]

/-- The feature dictionaries of the two records. -/
def payloadRows : List FeatureDict :=
  (labelled "batch_1" "resize" "ocr").map fun r =>
    plainFeatures r.taskType r.payloadSize r.recordedAt

/-- The fit returns, with the model installed and an encoder that knows the two types of the
records. -/
theorem payloadFit_returns :
    (start Scheduled.everyThird plainExtractor).Returns (.fit payloadFit) ∧
      afterPayloadFit.est.model = some payloadBooster ∧
      afterPayloadFit.est.encoder = Encoder.fresh.extend payloadRows := by
  obtain ⟨fdicts, x, hrows, -, hafter⟩ := LambdaRankEstimator.afterFit_full
    (e := .new Scheduled.everyThird plainExtractor) (i := payloadFit)
    (prepares_plain (plain_labelled _ _ _)) rfl (by decide) fun _ => rfl
  have hmodel : afterPayloadFit.est.model = some payloadBooster := by
    rw [afterPayloadFit, afterCall, start, hafter]
    rfl
  refine ⟨?_, hmodel, ?_⟩
  · rcases LambdaRankEstimator.afterFit_schedule (.new Scheduled.everyThird plainExtractor)
      payloadFit with ⟨-, hnone, -⟩ | ⟨hreturns, -⟩ | ⟨hreturns, -⟩
    · rw [afterPayloadFit, afterCall, start, hnone] at hmodel
      cases hmodel
    · exact hreturns
    · exact hreturns
  · have hdicts : featureRows plainExtractor payloadFit.records = .ok payloadRows :=
      featureRows_plain (plain_labelled _ _ _)
    rw [LambdaRankEstimator.new, hdicts] at hrows
    cases hrows
    rw [afterPayloadFit, afterCall, start, hafter]

theorem batch_scoring_agrees_two_jobs :
    (afterPayloadFit.est.predictBatch [jobFeatures "transcode", jobFeatures "thumbnail"]).2 =
      [jobFeatures "transcode", jobFeatures "thumbnail"].mapM fun fdict =>
        (afterPayloadFit.est.predict fdict).2 := by
  obtain ⟨hreturns, hmodel, hencoder⟩ := payloadFit_returns
  have hscore : ∀ model, afterPayloadFit.est.model = some model →
      ∃ score, model.ScoresRows afterPayloadFit.rows score := by
    intro model hsome
    rw [hmodel] at hsome
    cases hsome
    exact ⟨_, payloadBooster_scoresRows _⟩
  have hfew : ∀ col ∈ catCols, ((afterPayloadFit.est.encoder.extend
      [jobFeatures "transcode", jobFeatures "thumbnail"]).codesOf col).keys.card < 2 ^ 24 := by
    rw [hencoder]
    decide
  exact (batch_scoring_agrees (.single ⟨rfl, hreturns⟩) hscore (.nil _) hfew).1

end Warmed

end Chronoq.Ranker
