import Chronoq.Ranker.Estimators

/-! # `drift.py`: the drift detector

`setReference` stores the values of every numeric column of a training batch, and `check` compares
those of a later batch with them by the Population Stability Index. Both extract every record once for
each column, so both raise what the extractor raises, and `setReference` then keeps the columns it has
stored so far. A column is an array of doubles: a `None` in it is a NaN, and what is no number raises.

`Numpy` is what is taken from numpy. `log` is the natural logarithm, of floats where `K` is `ℚ` and of
the reals where `K` is `ℝ`; the values of a column are rationals in either case, and so are the
proportions of its bins. `counts` counts the bins where an infinity or a NaN is among the values.

`check` raises a `RuntimeError` exactly when there is no reference and the extractor of the detector
raises none itself (`check_without_reference`, `check_ok`). -/

namespace Chronoq.Ranker
open Foundations

set_option autoImplicit false

/-! ## The index -/

def driftThreshold : ℚ := 3 / 10

def nBins : ℕ := 10

def binMargin : ℚ := 1 / 10 ^ 10

/-- The distinct edges of the equal-frequency bins of the reference, widened at both ends. -/
def psiBins (reference : List ℚ) : List ℚ :=
  let quantiles := (List.range (nBins + 1)).map fun (k : ℕ) =>
    percentile (100 / nBins * k) reference
  let bins := (quantiles.modifyHead (· - binMargin)).modifyLast (· + binMargin)
  bins.dedup.insertionSort (· ≤ ·)

/-- `np.histogram(values, bins=edges)`: half-open bins, the last one closed. -/
def histogram (values : List ℚ) : List ℚ → List ℕ
  | a :: b :: c :: edges =>
    values.countP (fun v => a ≤ v ∧ v < b) :: histogram values (b :: c :: edges)
  | [a, b] => [values.countP fun v => a ≤ v ∧ v ≤ b]
  | _ => []

def clippedPct (values : List ℚ) (bins : List ℚ) : List ℚ :=
  (histogram values bins).map fun (count : ℕ) => max ((count : ℚ) / max values.length 1) binMargin

section Index
variable {K : Type} [Field K]

def computePsi (log : ℚ → K) (reference current : List ℚ) : K :=
  if reference.length < 2 ∨ current.length < 1 then 0
  else
    let bins := psiBins reference
    if bins.length < 2 then 0
    else (List.zipWith (fun cur ref => ((cur - ref : ℚ) : K) * log (cur / ref))
      (clippedPct current bins) (clippedPct reference bins)).sum

/-- `counts reference values` is the histogram of `values` over the distinct widened edges of the
reference, where one of the columns is not all numbers. It is empty where there are fewer than two. -/
structure Numpy (K : Type) where
  log : ℚ → K
  counts : Multiset ExtFloat → Multiset ExtFloat → List ℕ

/-- The clipped proportions of the bins, by the counts of numpy. -/
def clippedShares (np : Numpy K) (reference values : List ExtFloat) : List ℚ :=
  (np.counts reference values).map fun (count : ℕ) =>
    max ((count : ℚ) / max values.length 1) binMargin

/-- `_compute_psi` of two columns. -/
def columnPsi (np : Numpy K) (reference current : List ExtFloat) : K :=
  if reference.all ExtFloat.isFinite ∧ current.all ExtFloat.isFinite then
    computePsi np.log (reference.map ExtFloat.toRat) (current.map ExtFloat.toRat)
  else if reference.length < 2 ∨ current.length < 1 then 0
  else (List.zipWith (fun cur ref => ((cur - ref : ℚ) : K) * np.log (cur / ref))
    (clippedShares np reference current) (clippedShares np reference reference)).sum

/-- `round(psi, 6)` -/
def roundSix [LinearOrder K] [FloorRing K] (x : K) : K := (roundHalfEven (x * 10 ^ 6) : K) / 10 ^ 6

end Index

/-! ## Detector -/

inductive DriftStatus
  | stable
  | warn
  | drift
  deriving DecidableEq, Repr

/-- `K` holds the values of the index. -/
structure DriftReport (K : Type := ℚ) where
  perFeaturePsi : List (String × K)
  overallStatus : DriftStatus
  rollingMaeDelta : ℚ := 0
  driftedFeatures : List String := []
  warnedFeatures : List String := []
  deriving DecidableEq, Repr

structure DriftDetector where
  config : RankerConfig
  extractor : FeatureExtractor
  reference : List (String × List ExtFloat) := []
  maeWindow : List ℚ := []
  lastReport : Option DriftReport := none

namespace DriftDetector

/-- The values of one column, each record extracted anew. -/
def columnValues (d : DriftDetector) (records : List TaskRecord) (col : String) :
    Except PyException (List ExtFloat) :=
  records.mapM fun r => do
    let fdict ← d.extractor.extractFromRecord r
    entryAt fdict col

/-- `self._reference[col] = values` -/
def assign (reference : List (String × List ExtFloat)) (col : String) (values : List ExtFloat) :
    List (String × List ExtFloat) :=
  if col ∈ reference.map Prod.fst then
    reference.map fun entry => if entry.1 = col then (col, values) else entry
  else reference ++ [(col, values)]

def storeColumns (d : DriftDetector) (records : List TaskRecord) :
    List String → List (String × List ExtFloat) → List (String × List ExtFloat) × Except PyException Unit
  | [], reference => (reference, .ok ())
  | col :: cols, reference =>
    match d.columnValues records col with
    | .error exc => (reference, .error exc)
    | .ok values => d.storeColumns records cols (assign reference col values)

def setReference (d : DriftDetector) (records : List TaskRecord) :
    DriftDetector × Except PyException Unit :=
  if records = [] then (d, .ok ())
  else
    let (reference, result) := d.storeColumns records d.extractor.numeric []
    ({ d with reference := reference }, result)

def noReference : PyException :=
  .runtimeError ("DriftDetector.set_reference() must be called before check(). " ++
    "Call it after each full model refit with the training records.")

section Report
variable {K : Type} [Field K]

def featurePsis (d : DriftDetector) (np : Numpy K) (records : List TaskRecord) :
    Except PyException (List (String × K)) :=
  d.reference.mapM fun entry => do
    let current ← d.columnValues records entry.1
    return (entry.1, columnPsi np entry.2 current)

variable [LinearOrder K] [FloorRing K]

def reportOf (d : DriftDetector) (psis : List (String × K)) : DriftReport K :=
  let drifted := (psis.filter fun p => (driftThreshold : K) ≤ p.2).map Prod.fst
  let warned := (psis.filter fun p =>
    p.2 < (driftThreshold : K) ∧ (d.config.psiThreshold : K) ≤ p.2).map Prod.fst
  { perFeaturePsi := psis.map fun p => (p.1, roundSix p.2)
    overallStatus := if drifted ≠ [] then .drift else if warned ≠ [] then .warn else .stable
    rollingMaeDelta := mean d.maeWindow
    driftedFeatures := drifted.insertionSort (· ≤ ·)
    warnedFeatures := warned.insertionSort (· ≤ ·) }

/-- What `check` returns or raises. -/
def report (d : DriftDetector) (np : Numpy K) (records : List TaskRecord) :
    Except PyException (DriftReport K) :=
  if d.reference = [] then .error noReference
  else (d.featurePsis np records).map d.reportOf

end Report

/-- `check`, which keeps the report it returns. -/
def check (d : DriftDetector) (np : Numpy ℚ) (records : List TaskRecord) :
    DriftDetector × Except PyException DriftReport :=
  match d.report np records with
  | .error exc => (d, .error exc)
  | .ok report => ({ d with lastReport := some report }, .ok report)

end DriftDetector

namespace DriftDetector
variable {d : DriftDetector}

theorem check_without_reference (np : Numpy ℚ) (records : List TaskRecord) (h : d.reference = []) :
    d.check np records = (d, .error noReference) := by
  rw [check, report, if_pos h]

theorem check_ok (np : Numpy ℚ) (records : List TaskRecord)
    (hcolumns : ∀ entry ∈ d.reference, ∃ values, d.columnValues records entry.1 = .ok values)
    (h : d.reference ≠ []) :
    ∃ report, d.check np records = ({ d with lastReport := some report }, .ok report) := by
  obtain ⟨psis, hpsis⟩ : ∃ psis, d.featurePsis np records = .ok psis := by
    refine exists_mapM_ok fun entry hentry => ?_
    obtain ⟨values, hvalues⟩ := hcolumns entry hentry
    exact ⟨_, by rw [hvalues]; rfl⟩
  refine ⟨d.reportOf psis, ?_⟩
  rw [check, report, if_neg h, hpsis]
  rfl

theorem mem_assign {reference : List (String × List ExtFloat)} {col : String} {values : List ExtFloat}
    {entry : String × List ExtFloat} (h : entry ∈ assign reference col values) :
    entry = (col, values) ∨ entry ∈ reference := by
  unfold assign at h
  split at h
  · obtain ⟨entry', hentry', rfl⟩ := List.mem_map.mp h
    split
    · exact .inl rfl
    · exact .inr hentry'
  · obtain h | h := List.mem_append.mp h
    · exact .inr h
    · exact .inl (List.mem_singleton.mp h)

/-- Assigning adds the column and loses none. -/
theorem mem_keys_assign {reference : List (String × List ExtFloat)} {col col' : String} {values : List ExtFloat} :
    col' ∈ (assign reference col values).map Prod.fst ↔
      col' = col ∨ col' ∈ reference.map Prod.fst := by
  unfold assign
  split
  · next hmem =>
    have hkeys : (reference.map fun entry => if entry.1 = col then (col, values) else entry).map
        Prod.fst = reference.map Prod.fst := by
      rw [List.map_map]
      refine List.map_congr_left fun entry _ => ?_
      rw [Function.comp_apply]
      split
      · next heq => exact heq.symm
      · rfl
    rw [hkeys]
    refine (or_iff_right_of_imp ?_).symm
    rintro rfl
    exact hmem
  · rw [List.map_append, List.mem_append, or_comm, List.map_singleton, List.mem_singleton]

/-- What is stored for a column are its values in the batch, also where storing fails later. -/
theorem storeColumns_values (records : List TaskRecord) (cols : List String)
    (reference : List (String × List ExtFloat))
    (h : ∀ entry ∈ reference, d.columnValues records entry.1 = .ok entry.2) :
    ∀ entry ∈ (d.storeColumns records cols reference).1,
      d.columnValues records entry.1 = .ok entry.2 := by
  induction cols generalizing reference with
  | nil => exact h
  | cons col cols ih =>
    rw [storeColumns]
    cases hvalues : d.columnValues records col with
    | error exc => exact h
    | ok values =>
      refine ih _ fun entry hentry => ?_
      obtain rfl | hold := mem_assign hentry
      · exact hvalues
      · exact h entry hold

theorem storeColumns_keys (records : List TaskRecord) (cols : List String)
    (reference : List (String × List ExtFloat)) (h : (d.storeColumns records cols reference).2 = .ok ())
    (col' : String) : col' ∈ (d.storeColumns records cols reference).1.map Prod.fst ↔
      col' ∈ cols ∨ col' ∈ reference.map Prod.fst := by
  induction cols generalizing reference with
  | nil => simp [storeColumns]
  | cons col cols ih =>
    rw [storeColumns] at h ⊢
    cases hvalues : d.columnValues records col with
    | error exc =>
      rw [hvalues] at h
      cases h
    | ok values =>
      rw [hvalues] at h
      dsimp only at h ⊢
      rw [ih _ h, mem_keys_assign, List.mem_cons, or_left_comm, or_assoc]

theorem storeColumns_ok (records : List TaskRecord) {cols : List String}
    (hcols : ∀ col ∈ cols, ∃ values, d.columnValues records col = .ok values)
    (reference : List (String × List ExtFloat)) :
    (d.storeColumns records cols reference).2 = .ok () := by
  induction cols generalizing reference with
  | nil => rfl
  | cons col cols ih =>
    obtain ⟨values, hvalues⟩ := hcols col (List.mem_cons_self ..)
    rw [storeColumns, hvalues]
    exact ih (fun col' hcol' => hcols col' (List.mem_cons_of_mem _ hcol')) _

/-- A reference whose columns can be read can be stored. -/
theorem setReference_ok (records : List TaskRecord)
    (hcolumns : ∀ col ∈ d.extractor.numeric, ∃ values, d.columnValues records col = .ok values) :
    (d.setReference records).2 = .ok () := by
  unfold setReference
  split
  · rfl
  · exact storeColumns_ok records hcolumns []

/-- The columns of the reference are numeric columns of the extractor. -/
def WellFormed (d : DriftDetector) : Prop :=
  ∀ entry ∈ d.reference, entry.1 ∈ d.extractor.numeric

theorem storeColumns_mem (records : List TaskRecord) {cols : List String}
    (reference : List (String × List ExtFloat)) {entry : String × List ExtFloat}
    (h : entry ∈ (d.storeColumns records cols reference).1) : entry.1 ∈ cols ∨ entry ∈ reference := by
  induction cols generalizing reference with
  | nil => exact .inr h
  | cons col cols ih =>
    rw [storeColumns] at h
    cases hvalues : d.columnValues records col with
    | error exc =>
      rw [hvalues] at h
      exact .inr h
    | ok values =>
      rw [hvalues] at h
      obtain hmem | hmem := ih _ h
      · exact .inl (List.mem_cons_of_mem _ hmem)
      · obtain rfl | hold := mem_assign hmem
        · exact .inl (List.mem_cons_self ..)
        · exact .inr hold

theorem WellFormed.setReference (h : d.WellFormed) (records : List TaskRecord) :
    (d.setReference records).1.WellFormed := by
  unfold DriftDetector.setReference
  split
  · exact h
  · intro entry hentry
    exact (storeColumns_mem records [] hentry).resolve_right List.not_mem_nil

/-- The detector extracts with `extractor`, and its reference has columns of it only. -/
def Watches (d : DriftDetector) (extractor : FeatureExtractor) : Prop :=
  d.extractor = extractor ∧ d.WellFormed

theorem check_fixed (d : DriftDetector) (np : Numpy ℚ) (records : List TaskRecord) :
    (d.check np records).1.reference = d.reference ∧
      (d.check np records).1.extractor = d.extractor := by
  unfold check
  split <;> exact ⟨rfl, rfl⟩

theorem Watches.check {extractor : FeatureExtractor} (h : d.Watches extractor) (np : Numpy ℚ)
    (records : List TaskRecord) : (d.check np records).1.Watches extractor := by
  obtain ⟨hreference, hextractor⟩ := d.check_fixed np records
  refine ⟨hextractor.trans h.1, ?_⟩
  rw [WellFormed, hreference, hextractor]
  exact h.2

/-- A reference that has been stored holds the values of the numeric columns. -/
theorem setReference_stored {records : List TaskRecord} (hne : records ≠ [])
    (h : (d.setReference records).2 = .ok ()) :
    (∀ entry ∈ (d.setReference records).1.reference, d.columnValues records entry.1 = .ok entry.2) ∧
      ∀ col, col ∈ (d.setReference records).1.reference.map Prod.fst ↔ col ∈ d.extractor.numeric := by
  rw [setReference, if_neg hne] at h ⊢
  refine ⟨storeColumns_values records d.extractor.numeric [] (by simp), fun col => ?_⟩
  rw [storeColumns_keys records d.extractor.numeric [] h, List.map_nil,
    or_iff_left List.not_mem_nil]

theorem setReference_fixed (records : List TaskRecord) :
    (d.setReference records).1.extractor = d.extractor ∧
      (d.setReference records).1.config = d.config := by
  unfold setReference
  split <;> exact ⟨rfl, rfl⟩

theorem Watches.setReference {extractor : FeatureExtractor} (h : d.Watches extractor)
    (records : List TaskRecord) : (d.setReference records).1.Watches extractor :=
  ⟨(setReference_fixed records).1.trans h.1, WellFormed.setReference h.2 records⟩

end DriftDetector

end Chronoq.Ranker
