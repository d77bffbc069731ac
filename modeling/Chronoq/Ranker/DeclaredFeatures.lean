import Chronoq.Ranker.Coherence

/-! # Which features of a declared schema reach the model?

An extractor declares the columns of its dictionaries in a schema, and the drift detector monitors
the declared numeric ones. The matrix builder reads `numericCols` and `catCols`, the columns of the
default schema, whatever the extractor declares.

* `Differ`: two dictionaries differ in one of the given columns, in the numbers as single-precision
  floats or in the texts.
* `Distinguishes`: a batch of the two gives two different rows. `distinguishes_iff` says when, by the
  columns of the default schema and the codes that the encoder has or will give. -/

namespace Chronoq.Ranker
open Foundations

set_option autoImplicit false

/-! ## Schemas -/

/-- An extractor with the categorical columns of its schema as well. -/
structure SchemaExtractor extends FeatureExtractor where
  categorical : List String

def SchemaExtractor.Emits (extractor : SchemaExtractor) (fdict : FeatureDict) : Prop :=
  (∃ candidate ctx now, extractor.extract candidate ctx now = .ok fdict) ∨
    ∃ record, extractor.extractFromRecord record = .ok fdict

/-- Both dictionaries have a number under `col`, and the two are different single-precision floats. -/
def NumbersDiffer (fdict fdict' : FeatureDict) (col : String) : Prop :=
  ∃ x y, floatAt fdict col = .ok x ∧ floatAt fdict' col = .ok y ∧ toFloat32 x ≠ toFloat32 y

def Differ (numeric categorical : List String) (fdict fdict' : FeatureDict) : Prop :=
  (∃ col ∈ numeric, NumbersDiffer fdict fdict' col) ∨
    ∃ col ∈ categorical, textAt fdict col ≠ textAt fdict' col

/-- The two dictionaries differ in a column that the extractor declares. -/
def SchemaExtractor.DeclaredDiffer (extractor : SchemaExtractor) (fdict fdict' : FeatureDict) :
    Prop :=
  Differ extractor.numeric extractor.categorical fdict fdict'

namespace Encoder

/-! ## A batch of two -/

/-- `_build_matrix` on both in one batch gives them different rows. -/
def Distinguishes (encoder : Encoder) (fit : Bool) (fdict fdict' : FeatureDict) : Prop :=
  ∃ r r', (encoder.buildMatrix [fdict, fdict'] fit).2 = .ok [r, r'] ∧ r ≠ r'

/-- The values of `col` have, or are given one after the other, codes that are different
single-precision floats. -/
def CodesDiffer (encoder : Encoder) (fdict fdict' : FeatureDict) (col : String) : Prop :=
  toFloat32 (.finite (internCode (encoder.codesOf col) (textAt fdict col) : ℕ)) ≠
    toFloat32 (.finite
      (internCode (intern (encoder.codesOf col) (textAt fdict col)) (textAt fdict' col) : ℕ))

/-- The encoder that a batch starts from: a rebuilt one is empty. -/
def base (encoder : Encoder) (fit : Bool) : Encoder := if fit then fresh else encoder

theorem cell_extend_two (encoder : Encoder) (fdict fdict' : FeatureDict) {col : String}
    (hcol : col ∈ catCols) :
    (encoder.extend [fdict, fdict']).cell col (textAt fdict col) =
        .finite (internCode (encoder.codesOf col) (textAt fdict col) : ℕ) ∧
      (encoder.extend [fdict, fdict']).cell col (textAt fdict' col) =
        .finite (internCode (intern (encoder.codesOf col) (textAt fdict col)) (textAt fdict' col) : ℕ) := by
  have hcodes : (encoder.extend [fdict, fdict']).codesOf col =
      intern (intern (encoder.codesOf col) (textAt fdict col)) (textAt fdict' col) :=
    codesOf_extend encoder [fdict, fdict'] hcol
  constructor
  · rw [cell, codeOf_eq_lookup, hcodes, lookup_intern_of_some (lookup_intern_self _ _),
      Option.getD_some]
  · rw [cell, codeOf_eq_lookup, hcodes, lookup_intern_self, Option.getD_some]

theorem numbersDiffer_iff {fdict fdict' : FeatureDict} (h : Readable fdict) (h' : Readable fdict')
    {col : String} (hcol : col ∈ numericCols) :
    NumbersDiffer fdict fdict' col ↔
      toFloat32 (numberAt fdict col) ≠ toFloat32 (numberAt fdict' col) := by
  obtain ⟨x, hx⟩ := h col hcol
  obtain ⟨y, hy⟩ := h' col hcol
  simp [NumbersDiffer, numberAt, hx, hy]

/-- Two rows of one batch are different exactly when they differ in a column of the default schema. -/
theorem distinguishes_iff (encoder : Encoder) (fit : Bool) (fdict fdict' : FeatureDict) :
    encoder.Distinguishes fit fdict fdict' ↔
      Readable fdict ∧ Readable fdict' ∧
        ((∃ col ∈ numericCols, NumbersDiffer fdict fdict' col) ∨
          ∃ col ∈ catCols, (encoder.base fit).CodesDiffer fdict fdict' col) := by
  have hbatch : (encoder.buildMatrix [fdict, fdict'] fit).2 =
      ((encoder.base fit).extend [fdict, fdict']).rows [fdict, fdict'] := rfl
  unfold Distinguishes
  rw [hbatch]
  constructor
  · rintro ⟨r, r', hrows, hne⟩
    have hforall := mapM_eq_ok_iff.mp hrows
    rw [List.forall₂_cons, List.forall₂_cons] at hforall
    obtain ⟨hr, hr', -⟩ := hforall
    have hread := exists_row_ok_iff.mp ⟨r, hr⟩
    have hread' := exists_row_ok_iff.mp ⟨r', hr'⟩
    refine ⟨hread, hread', ?_⟩
    by_contra hsame
    push Not at hsame
    obtain ⟨hnumbers, hcodes⟩ := hsame
    rw [row_eq_ok hread] at hr
    rw [row_eq_ok hread'] at hr'
    refine hne ?_
    rw [← Except.ok.inj hr, ← Except.ok.inj hr', List.map_append, List.map_append]
    refine congrArg₂ (· ++ ·) ?_ ?_
    · rw [List.map_map, List.map_map]
      refine List.map_congr_left fun col hcol => ?_
      exact not_not.mp fun h => hnumbers col hcol ((numbersDiffer_iff hread hread' hcol).mpr h)
    · rw [List.map_map, List.map_map]
      refine List.map_congr_left fun col hcol => ?_
      obtain ⟨hcell, hcell'⟩ := (encoder.base fit).cell_extend_two fdict fdict' hcol
      have hcode := not_not.mp (hcodes col hcol)
      rw [Function.comp_apply, Function.comp_apply, hcell, hcell', hcode]
  · rintro ⟨hread, hread', hdiffer⟩
    refine ⟨_, _, mapM_eq_ok_iff.mpr (.cons (row_eq_ok hread _) (.cons (row_eq_ok hread' _) .nil)),
      fun heq => ?_⟩
    rw [List.map_append, List.map_append] at heq
    obtain ⟨hnumbers, hcells⟩ := List.append_inj heq (by simp)
    rw [List.map_map, List.map_map, List.map_inj_left] at hnumbers hcells
    rcases hdiffer with ⟨col, hcol, hne⟩ | ⟨col, hcol, hne⟩
    · exact (numbersDiffer_iff hread hread' hcol).mp hne (hnumbers col hcol)
    · obtain ⟨hcell, hcell'⟩ := (encoder.base fit).cell_extend_two fdict fdict' hcol
      have hsame := hcells col hcol
      rw [Function.comp_apply, Function.comp_apply, hcell, hcell'] at hsame
      exact hne hsame

/-- While a column has fewer than `2 ^ 24` values, different texts have different codes. -/
theorem codesDiffer_iff {encoder : Encoder} {col : String} (hdense : Dense (encoder.codesOf col))
    (hfew : (encoder.codesOf col).keys.card + 1 < 2 ^ 24) (fdict fdict' : FeatureDict) :
    encoder.CodesDiffer fdict fdict' col ↔ textAt fdict col ≠ textAt fdict' col := by
  have hle := hdense.internCode_le (textAt fdict col)
  have hle' := (dense_intern hdense (textAt fdict col)).internCode_le (textAt fdict' col)
  have hcard : (intern (encoder.codesOf col) (textAt fdict col)).keys.card ≤
      (encoder.codesOf col).keys.card + 1 := by
    rw [keys_intern]
    exact Finset.card_insert_le _ _
  rw [CodesDiffer, toFloat32_natCast (by omega), toFloat32_natCast (by omega), Ne, ExtFloat.finite.injEq,
    Nat.cast_inj, hdense.internCode_inj]

end Encoder

/-! ## Reachable estimators -/

namespace Traced

theorem encoder_denselyNumbered {e e' : LambdaRankEstimator} (he : e.encoder.DenselyNumbered)
    {fdicts : List FeatureDict} (h : e'.encoder = e.encoder ∨ e'.encoder = e.encoder.extend fdicts) :
    e'.encoder.DenselyNumbered := by
  rcases h with h | h <;> rw [h]
  · exact he
  · exact he.extend fdicts

theorem afterFit_denselyNumbered {e : LambdaRankEstimator} (he : e.encoder.DenselyNumbered)
    (i : FitInput) : (e.afterFit i).encoder.DenselyNumbered := by
  rcases afterFit_encoder_cases e i with ⟨-, -, hencoder⟩ | ⟨-, -, fdicts, hencoder⟩ |
    ⟨-, -, -, fdicts, -, hencoder⟩ | ⟨-, -, fdicts, -, hencoder⟩ <;> rw [hencoder]
  · exact he
  · exact he.extend fdicts
  · exact Encoder.denselyNumbered_fresh.extend fdicts
  · split
    · exact Encoder.denselyNumbered_fresh.extend fdicts
    · exact he.extend fdicts

/-- Every call leaves the columns of the encoder densely numbered. -/
theorem call_denselyNumbered {s s' : Traced} {call : EstimatorCall} (h : Steps s call s')
    (hs : s.est.encoder.DenselyNumbered) : s'.est.encoder.DenselyNumbered := by
  obtain rfl := h
  cases call with
  | fit i => exact afterFit_denselyNumbered hs i
  | predict features => exact encoder_denselyNumbered hs (predict_encoder s.est features)
  | predictBatch featureDicts =>
    exact encoder_denselyNumbered hs (predictBatch_encoder s.est featureDicts)

theorem denselyNumbered_of_run {config : RankerConfig} {extractor : FeatureExtractor}
    {calls : List EstimatorCall} {s : Traced} (h : Run Steps (start config extractor) calls s) :
    s.est.encoder.DenselyNumbered :=
  h.preserves (P := fun s => s.est.encoder.DenselyNumbered)
    (fun _ _ _ hstep hs => call_denselyNumbered hstep hs) Encoder.denselyNumbered_empty

theorem base_denselyNumbered {config : RankerConfig} {extractor : FeatureExtractor}
    {calls : List EstimatorCall} {s : Traced} (h : Run Steps (start config extractor) calls s)
    (fit : Bool) : (s.est.encoder.base fit).DenselyNumbered := by
  cases fit with
  | true => exact Encoder.denselyNumbered_fresh
  | false => exact denselyNumbered_of_run h

/-- Below `2 ^ 24` values a batch distinguishes two dictionaries exactly when they differ in a column
of the default schema, with its numeric columns being numbers in both. -/
theorem distinguishes_iff_differ {config : RankerConfig} {extractor : FeatureExtractor}
    {calls : List EstimatorCall} {s : Traced} (h : Run Steps (start config extractor) calls s)
    {fit : Bool}
    (hfew : ∀ col ∈ catCols, ((s.est.encoder.base fit).codesOf col).keys.card + 1 < 2 ^ 24)
    (fdict fdict' : FeatureDict) :
    s.est.encoder.Distinguishes fit fdict fdict' ↔
      Readable fdict ∧ Readable fdict' ∧ Differ numericCols catCols fdict fdict' := by
  rw [s.est.encoder.distinguishes_iff fit fdict fdict', Differ]
  refine and_congr_right fun _ => and_congr_right fun _ => or_congr_right ?_
  refine exists_congr fun col => and_congr_right fun hcol => ?_
  exact Encoder.codesDiffer_iff (base_denselyNumbered h fit col hcol) (hfew col hcol) fdict fdict'

/-- An extractor that declares columns of the default schema only has none of them dropped. -/
theorem default_columns_kept {config : RankerConfig} {extractor : SchemaExtractor}
    (hnumeric : extractor.numeric ⊆ numericCols) (hcategorical : extractor.categorical ⊆ catCols)
    {calls : List EstimatorCall} {s : Traced}
    (h : Run Steps (start config extractor.toFeatureExtractor) calls s) {fit : Bool}
    (hfew : ∀ col ∈ catCols, ((s.est.encoder.base fit).codesOf col).keys.card + 1 < 2 ^ 24)
    {fdict fdict' : FeatureDict} (hread : Readable fdict) (hread' : Readable fdict')
    (hdiffer : extractor.DeclaredDiffer fdict fdict') :
    s.est.encoder.Distinguishes fit fdict fdict' := by
  refine (distinguishes_iff_differ h hfew fdict fdict').mpr ⟨hread, hread', ?_⟩
  rcases hdiffer with ⟨col, hcol, hne⟩ | ⟨col, hcol, hne⟩
  · exact .inl ⟨col, hnumeric hcol, hne⟩
  · exact .inr ⟨col, hcategorical hcol, hne⟩

/-- A batch distinguishes two dictionaries that differ in a declared column exactly when they also
differ in a column of the default schema, with its numeric columns being numbers in both. Below
`2 ^ 24` values the codes of a categorical column differ as the texts do. -/
theorem declared_features_kept_iff {config : RankerConfig} (extractor : SchemaExtractor)
    {calls : List EstimatorCall} {s : Traced}
    (h : Run Steps (start config extractor.toFeatureExtractor) calls s) (fit : Bool)
    (fdict fdict' : FeatureDict) :
    ((extractor.DeclaredDiffer fdict fdict' → s.est.encoder.Distinguishes fit fdict fdict') ↔
        (extractor.DeclaredDiffer fdict fdict' → Readable fdict ∧ Readable fdict' ∧
          ((∃ col ∈ numericCols, NumbersDiffer fdict fdict' col) ∨
            ∃ col ∈ catCols, (s.est.encoder.base fit).CodesDiffer fdict fdict' col))) ∧
      ((∀ col ∈ catCols, ((s.est.encoder.base fit).codesOf col).keys.card + 1 < 2 ^ 24) →
        ((extractor.DeclaredDiffer fdict fdict' → s.est.encoder.Distinguishes fit fdict fdict') ↔
          (extractor.DeclaredDiffer fdict fdict' →
            Readable fdict ∧ Readable fdict' ∧ Differ numericCols catCols fdict fdict'))) := by
  refine ⟨imp_congr_right fun _ => s.est.encoder.distinguishes_iff fit fdict fdict', fun hfew => ?_⟩
  exact imp_congr_right fun _ => distinguishes_iff_differ h hfew fdict fdict'

end Traced

/-! ## A column that is not in the default schema -/

def tokenFeatures (taskType : String) (payloadSize tokenCount : ℤ) : FeatureDict :=
  dictOf [("task_type", .ofText taskType), ("payload_size", floatValue (payloadSize : ℚ)),
    ("token_count", floatValue (tokenCount : ℚ))]

def extractTokens (taskType : String) (payloadSize tokenCount : Except PyException ExtFloat) :
    Except PyException FeatureDict :=
  dictDisplay [("task_type", .ok (.ofText taskType)), ("payload_size", payloadSize.map floatValue),
    ("token_count", tokenCount.map floatValue)]

/-- An extractor that declares a column of its own. -/
def tokenExtractor : SchemaExtractor where
  numeric := ["payload_size", "token_count"]
  categorical := ["task_type"]
  extract candidate _ _ :=
    extractTokens candidate.taskType (asFloat (candidate.features.lookup "payload_size"))
      (asFloat (candidate.features.lookup "token_count"))
  extractFromRecord record :=
    extractTokens record.taskType (floatOfInt record.payloadSize)
      (asFloat (record.metadata.lookup "token_count"))

def tokenCandidate (tokenCount : ℤ) : TaskCandidate where
  taskId := "job-1"
  taskType := "summarize"
  features := (∅ : Dict String PyValue).insert "token_count" (.int tokenCount)

def shortPrompt : FeatureDict := tokenFeatures "summarize" 0 100

def longPrompt : FeatureDict := tokenFeatures "summarize" 0 4000

theorem tokenExtractor_emits {tokenCount : ℤ} (h : tokenCount.natAbs < 2 ^ 53) :
    tokenExtractor.Emits (tokenFeatures "summarize" 0 tokenCount) := by
  refine .inl ⟨tokenCandidate tokenCount, {}, 0, ?_⟩
  have hsize : asFloat ((tokenCandidate tokenCount).features.lookup "payload_size") =
      .ok (.finite ((0 : ℤ) : ℚ)) := by
    rw [Int.cast_zero, tokenCandidate, Finmap.lookup_insert_of_ne _ (by decide)]
    rfl
  have htokens : asFloat ((tokenCandidate tokenCount).features.lookup "token_count") =
      .ok (.finite tokenCount) := by
    rw [tokenCandidate, Finmap.lookup_insert, asFloat]
    simp only [Option.getD_some, PyValue.toFloat, floatOfInt_small h]
  show extractTokens _ _ _ = _
  rw [hsize, htokens]
  rfl

theorem lookup_prompts {col : String} (hcol : col ≠ "token_count") :
    shortPrompt.lookup col = longPrompt.lookup col := by
  simp only [shortPrompt, longPrompt, tokenFeatures, dictOf, List.foldl_cons, List.foldl_nil,
    Finmap.lookup_insert_of_ne _ hcol]

/-- The two dictionaries differ in a declared column, and in no column that the matrix builder
reads. -/
theorem token_counts_differ :
    tokenExtractor.DeclaredDiffer shortPrompt longPrompt ∧
      ¬ Differ numericCols catCols shortPrompt longPrompt := by
  constructor
  · refine .inl ⟨"token_count", by decide, .finite (100 : ℕ), .finite (4000 : ℕ), rfl, rfl, ?_⟩
    have h := toFloat32_natCast (n := 100) (by decide)
    have h' := toFloat32_natCast (n := 4000) (by decide)
    rw [h, h']
    norm_num
  · have hother : ∀ col ∈ numericCols ++ catCols, shortPrompt.lookup col = longPrompt.lookup col := by
      intro col hcol
      refine lookup_prompts ?_
      rintro rfl
      exact absurd hcol (by decide)
    rintro (⟨col, hcol, x, y, hx, hy, hne⟩ | ⟨col, hcol, hne⟩)
    · rw [floatAt, hother col (List.mem_append_left _ hcol), ← floatAt, hy] at hx
      rw [Except.ok.inj hx] at hne
      exact hne rfl
    · rw [textAt, hother col (List.mem_append_right _ hcol), ← textAt] at hne
      exact hne rfl

namespace Traced

theorem declared_features_kept_iff_token_counts :
    (tokenExtractor.DeclaredDiffer shortPrompt longPrompt →
        (start {} tokenExtractor.toFeatureExtractor).est.encoder.Distinguishes true shortPrompt
          longPrompt) ↔
      (tokenExtractor.DeclaredDiffer shortPrompt longPrompt →
        Readable shortPrompt ∧ Readable longPrompt ∧
          ((∃ col ∈ numericCols, NumbersDiffer shortPrompt longPrompt col) ∨
            ∃ col ∈ catCols, ((start {} tokenExtractor.toFeatureExtractor).est.encoder.base
              true).CodesDiffer shortPrompt longPrompt col)) :=
  (declared_features_kept_iff tokenExtractor (.nil _) true _ _).1

/-- Two dictionaries with different values in a declared column get one row. -/
theorem declared_column_dropped :
    ¬ ∀ (config : RankerConfig) (extractor : SchemaExtractor) (calls : List EstimatorCall)
        (s : Traced), Run Steps (start config extractor.toFeatureExtractor) calls s →
      ∀ fdict fdict', extractor.Emits fdict → extractor.Emits fdict' →
        extractor.DeclaredDiffer fdict fdict' →
          s.est.encoder.Distinguishes false fdict fdict' := by
  intro hall
  have hrows := hall {} tokenExtractor [] _ (.nil _) _ _ (tokenExtractor_emits (by decide))
    (tokenExtractor_emits (by decide)) token_counts_differ.1
  obtain ⟨-, -, hnumbers | ⟨col, hcol, hcodes⟩⟩ := (Encoder.distinguishes_iff _ _ _ _).mp hrows
  · exact token_counts_differ.2 (.inl hnumbers)
  · have hdense := Encoder.denselyNumbered_empty col hcol
    have hfew : ((∅ : Encoder).codesOf col).keys.card + 1 < 2 ^ 24 := by
      simp [Encoder.codesOf]
    have htexts := (Encoder.codesDiffer_iff hdense hfew _ _).mp hcodes
    exact token_counts_differ.2 (.inr ⟨col, hcol, htexts⟩)

end Traced

end Chronoq.Ranker
