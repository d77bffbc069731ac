import Chronoq.Ranker.FitRuns
import Chronoq.Ranker.PsiBins

/-! # A column that has left the range of its reference

When no value of a batch is in a bin, every bin of the batch is clipped to `binMargin`, and at least one
of the ten bins at most holds a tenth of the reference. That bin alone brings the index to more than
`driftThreshold`, so `check` lists the column as drifted, whatever it finds in the others. -/

namespace Chronoq.Ranker
open Foundations

set_option autoImplicit false

section Index
variable {reference current : List ℚ}

/-- Some bin holds at least a tenth of the reference. -/
theorem exists_tenth (hne : reference ≠ []) :
    ∃ p ∈ clippedPct reference (psiBins reference), 1 / 10 ≤ p := by
  have hbins := length_psiBins_le reference
  have htwo := two_le_length_psiBins hne
  have hlength := length_histogram reference (psiBins reference)
  have hpos := List.length_pos_of_ne_nil hne
  have hcounts : histogram reference (psiBins reference) ≠ [] :=
    List.ne_nil_of_length_pos (by omega)
  obtain ⟨count, hcount, hle⟩ := exists_sum_le_length_mul hcounts
  -- there are ten bins at most, and together they hold all of it
  have htenth : reference.length ≤ 10 * count := by
    rw [sum_histogram_reference hne, hlength] at hle
    exact hle.trans (Nat.mul_le_mul_right count (Nat.sub_le_of_le_add hbins))
  refine ⟨_, List.mem_map_of_mem hcount, le_max_of_le_left ?_⟩
  rw [max_eq_left (Nat.one_le_iff_ne_zero.mpr hpos.ne'), le_div_iff₀ (by exact_mod_cast hpos)]
  have htenth' : (reference.length : ℚ) ≤ 10 * count := by exact_mod_cast htenth
  linarith

/-- Outside the range every count is zero, and every proportion is clipped. -/
theorem clippedPct_of_out_of_range (hne : reference ≠ [])
    (hout : ∀ v ∈ current, ¬ InRange reference v) :
    ∀ p ∈ clippedPct current (psiBins reference), p = binMargin := by
  have hnone : current.countP (fun v => InRange reference v) = 0 := by
    rw [List.countP_eq_zero]
    simpa using hout
  have hsum := sum_histogram hne current
  rw [hnone] at hsum
  intro p hp
  obtain ⟨count, hcount, rfl⟩ := List.mem_map.mp hp
  have hzero : count = 0 := List.all_zero_of_le_zero_le_of_sum_eq_zero (fun _ _ => Nat.zero_le _)
    hsum hcount
  rw [hzero, Nat.cast_zero, zero_div]
  exact max_eq_right (by norm_num [binMargin])

theorem cast_driftThreshold : (driftThreshold : ℝ) = 3 / 10 := by
  rw [driftThreshold]
  push_cast
  rfl

theorem driftThreshold_le_divergenceTerm {p : ℝ} (hp : 1 / 10 ≤ p) :
    (driftThreshold : ℝ) ≤ divergenceTerm (binMargin : ℚ) p := by
  have hmargin : ((binMargin : ℚ) : ℝ) = 1 / 10 ^ 10 := by
    rw [binMargin]
    push_cast
    rfl
  rw [hmargin]
  have hterm := le_divergenceTerm (a := 1 / 10 ^ 10) (b := p) (k := 6) (by norm_num) (by linarith)
  have hlog := Real.log_two_gt_d9
  rw [cast_driftThreshold]
  push_cast at hterm
  nlinarith

theorem driftThreshold_le_psi (h : LongEnough reference current)
    (hout : ∀ v ∈ current, ¬ InRange reference v) : (driftThreshold : ℝ) ≤ psi reference current := by
  obtain ⟨p, hp, htenth⟩ := exists_tenth h.ne_nil
  have hclipped : proportions current (psiBins reference) =
      List.replicate (proportions reference (psiBins reference)).length ((binMargin : ℚ) : ℝ) := by
    rw [List.eq_replicate_iff]
    refine ⟨by rw [length_proportions, length_proportions], fun x hx => ?_⟩
    obtain ⟨q, hq, rfl⟩ := List.mem_map.mp hx
    rw [clippedPct_of_out_of_range h.ne_nil hout q hq]
  have hheld : ((p : ℚ) : ℝ) ∈ proportions reference (psiBins reference) := List.mem_map_of_mem hp
  rw [psi_eq_divergence h]
  refine (driftThreshold_le_divergenceTerm (p := p) ?_).trans
    (divergenceTerm_le_divergence_of_const hclipped ?_ proportions_pos hheld)
  · have hcast : ((1 / 10 : ℚ) : ℝ) ≤ p := by exact_mod_cast htenth
    push_cast at hcast
    exact hcast
  · exact_mod_cast (by norm_num [binMargin] : (0 : ℚ) < binMargin)

end Index

/-! ## The report -/

theorem driftThreshold_le_roundSix {x : ℝ} (h : (driftThreshold : ℝ) ≤ x) :
    (driftThreshold : ℝ) ≤ roundSix x := by
  have hmillionths : roundHalfEven ((driftThreshold : ℝ) * 10 ^ 6) = 300000 := by
    have hcast : (driftThreshold : ℝ) * 10 ^ 6 = ((300000 : ℤ) : ℝ) := by
      rw [cast_driftThreshold]
      norm_num
    rw [hcast, roundHalfEven_intCast]
  have hmono : roundHalfEven ((driftThreshold : ℝ) * 10 ^ 6) ≤ roundHalfEven (x * 10 ^ 6) := by
    apply roundHalfEven_mono
    gcongr
  rw [hmillionths] at hmono
  have hle : ((300000 : ℤ) : ℝ) ≤ roundHalfEven (x * 10 ^ 6) := by exact_mod_cast hmono
  have hthreshold : (driftThreshold : ℝ) = ((300000 : ℤ) : ℝ) / 10 ^ 6 := by
    rw [cast_driftThreshold]
    norm_num
  rw [roundSix, hthreshold]
  gcongr

namespace DriftDetector
variable {d : DriftDetector}

/-- The report says of a column that it has drifted. -/
structure ReportsDrift (report : DriftReport ℝ) (col : String) : Prop where
  psi : (∃ x, (col, x) ∈ report.perFeaturePsi) ∧
    ∀ x, (col, x) ∈ report.perFeaturePsi → (3 / 10 : ℝ) ≤ x
  listed : col ∈ report.driftedFeatures
  status : report.overallStatus = .drift

theorem reportOf_drift {psis : List (String × ℝ)} {col : String} (hcol : ∃ x, (col, x) ∈ psis)
    (h : ∀ x, (col, x) ∈ psis → (driftThreshold : ℝ) ≤ x) : ReportsDrift (d.reportOf psis) col := by
  obtain ⟨x, hx⟩ := hcol
  have hdrifted : col ∈ (psis.filter fun p => (driftThreshold : ℝ) ≤ p.2).map Prod.fst :=
    List.mem_map.mpr ⟨(col, x), List.mem_filter.mpr ⟨hx, by simpa using h x hx⟩, rfl⟩
  refine ⟨⟨⟨roundSix x, List.mem_map.mpr ⟨(col, x), hx, rfl⟩⟩, fun y hy => ?_⟩,
    (List.mem_insertionSort _).mpr hdrifted, if_pos (List.ne_nil_of_mem hdrifted)⟩
  obtain ⟨⟨col', x'⟩, hx', heq⟩ := List.mem_map.mp hy
  cases heq
  rw [← cast_driftThreshold]
  exact driftThreshold_le_roundSix (h x' hx')

variable {records later : List TaskRecord} {col : String} {refVals curVals : List ℚ}

variable {counts : Multiset ExtFloat → Multiset ExtFloat → List ℕ}

theorem featurePsis_col
    (hstored : ∀ entry ∈ d.reference, entry.1 = col → entry.2 = refVals.map .finite)
    (hcur : d.columnValues later col = .ok (curVals.map .finite)) {psis : List (String × ℝ)}
    (hpsis : d.featurePsis (realNumpy counts) later = .ok psis) {x : ℝ} (hx : (col, x) ∈ psis) :
    x = psi refVals curVals := by
  obtain ⟨entry, hentry, hp⟩ := exists_of_mem_mapM_ok hpsis hx
  cases hvalues : d.columnValues later entry.1 with
  | error exc =>
    rw [hvalues] at hp
    cases hp
  | ok values =>
    rw [hvalues] at hp
    have hpair := Except.ok.inj hp
    have hcol : entry.1 = col := congrArg Prod.fst hpair
    have hx : columnPsi (realNumpy counts) entry.2 values = x := congrArg Prod.snd hpair
    rw [hcol, hcur] at hvalues
    cases hvalues
    rw [← hx, hstored entry hentry hcol]
    exact columnPsi_finite counts refVals curVals

theorem complete_shift_reported (counts : Multiset ExtFloat → Multiset ExtFloat → List ℕ)
    (d : DriftDetector) (records later : List TaskRecord) (col : String)
    (refVals curVals : List ℚ) (hrecords : 2 ≤ records.length) (hlater : later ≠ [])
    (hstored : (d.setReference records).2 = .ok ()) (hcol : col ∈ d.extractor.numeric)
    (href : d.columnValues records col = .ok (refVals.map .finite))
    (hcur : d.columnValues later col = .ok (curVals.map .finite))
    (hout : ∀ v ∈ curVals, (∀ r ∈ refVals, v < r - binMargin) ∨ ∀ r ∈ refVals, r + binMargin < v) :
    (∀ report, (d.setReference records).1.report (realNumpy counts) later = .ok report →
      ReportsDrift report col) ∧
    ((∀ col' ∈ d.extractor.numeric, ∃ values, d.columnValues later col' = .ok values) →
      ∃ report, (d.setReference records).1.report (realNumpy counts) later = .ok report) := by
  obtain ⟨hextractor, -⟩ := setReference_fixed (d := d) records
  obtain ⟨hvalues, hkeys⟩ := setReference_stored (List.ne_nil_of_length_pos (by omega)) hstored
  have hsame : ∀ col, (d.setReference records).1.columnValues later col = d.columnValues later col := by
    intro col
    rw [columnValues, columnValues, hextractor]
  obtain ⟨entry, hentry, hname⟩ := List.mem_map.mp ((hkeys col).mpr hcol)
  have hreference := List.ne_nil_of_mem hentry
  have hlong : LongEnough refVals curVals := by
    have hrefLength := length_of_mapM_ok href
    have hcurLength := length_of_mapM_ok hcur
    rw [List.length_map] at hrefLength hcurLength
    refine ⟨?_, ?_⟩
    · rw [hrefLength]
      exact hrecords
    · rw [hcurLength]
      exact List.length_pos_of_ne_nil hlater
  have hpsi : (driftThreshold : ℝ) ≤ psi refVals curVals := by
    refine driftThreshold_le_psi hlong fun v hv hin => ?_
    obtain ⟨⟨r, hr, hrv⟩, r', hr', hvr'⟩ := hin
    rcases hout v hv with hbelow | habove
    · exact absurd hrv (not_le.mpr (hbelow r hr))
    · exact absurd hvr' (not_le.mpr (habove r' hr'))
  have hcolumn : ∀ entry ∈ (d.setReference records).1.reference, entry.1 = col →
      entry.2 = refVals.map .finite := by
    intro entry hentry hname
    have hread := hvalues entry hentry
    rw [hname, href] at hread
    exact (Except.ok.inj hread).symm
  constructor
  · intro report hreport
    rw [DriftDetector.report, if_neg hreference] at hreport
    obtain ⟨psis, hpsis, rfl⟩ := exists_of_map_ok hreport
    refine reportOf_drift ?_ fun x hx => ?_
    · obtain ⟨p, hp, hpair⟩ := exists_mem_of_mapM_ok hpsis hentry
      rw [hsame, hname, hcur] at hpair
      cases hpair
      exact ⟨_, hp⟩
    · rw [featurePsis_col hcolumn ((hsame col).trans hcur) hpsis hx]
      exact hpsi
  · intro hreadable
    obtain ⟨psis, hpsis⟩ : ∃ psis, (d.setReference records).1.featurePsis (realNumpy counts) later =
        .ok psis := by
      refine exists_mapM_ok fun entry hentry => ?_
      obtain ⟨values, hread⟩ := hreadable entry.1 ((hkeys entry.1).mp (List.mem_map_of_mem hentry))
      exact ⟨_, by rw [hsame, hread]; rfl⟩
    exact ⟨_, by rw [DriftDetector.report, if_neg hreference, hpsis]; rfl⟩

def sizeRecord (payloadSize : ℤ) : TaskRecord where
  taskType := "resize"
  payloadSize := payloadSize
  actualMs := 1
  recordedAt := 0

def plainDetector : DriftDetector := { config := {}, extractor := plainExtractor }

/-- The columns of records that differ in their sizes only. -/
theorem columnValues_sizes {sizes : List ℤ} (h : ∀ n ∈ sizes, n.natAbs < 2 ^ 53) (col : String) :
    plainDetector.columnValues (sizes.map sizeRecord) col =
      sizes.mapM fun n => entryAt (plainFeatures "resize" n 0) col := by
  rw [columnValues, List.mapM_map]
  refine mapM_congr fun n hn => ?_
  have hextract := extract_plain (show Plain (sizeRecord n) from ⟨rfl, h n hn⟩)
  show (plainExtractor.extractFromRecord (sizeRecord n)).bind _ = _
  rw [hextract]
  rfl

theorem exists_columnValues_sizes {sizes : List ℤ} (h : ∀ n ∈ sizes, n.natAbs < 2 ^ 53) :
    ∀ col ∈ numericCols,
      ∃ values, plainDetector.columnValues (sizes.map sizeRecord) col = .ok values := by
  intro col hcol
  rw [columnValues_sizes h]
  refine exists_mapM_ok fun n _ => ?_
  obtain ⟨x, hx⟩ := readable_plainFeatures "resize" n 0 col hcol
  exact ⟨x, entryAt_of_floatAt hx⟩

theorem setReference_sizes {sizes : List ℤ} (h : ∀ n ∈ sizes, n.natAbs < 2 ^ 53) :
    (plainDetector.setReference (sizes.map sizeRecord)).2 = .ok () :=
  setReference_ok _ (exists_columnValues_sizes h)

theorem complete_shift_reported_sizes :
    ∃ report, (plainDetector.setReference ([1, 2].map sizeRecord)).1.report
      (realNumpy fun _ _ => []) ([50].map sizeRecord) = .ok report ∧
      ReportsDrift report "payload_size" := by
  have hsize : ∀ n : ℤ, entryAt (plainFeatures "resize" n 0) "payload_size" = .ok (.finite n) := by
    intro n
    simp [entryAt, plainFeatures, dictOf, Finmap.lookup_insert_of_ne, Finmap.lookup_insert]
    rfl
  have hshift := complete_shift_reported (fun _ _ => []) plainDetector ([1, 2].map sizeRecord)
    ([50].map sizeRecord) "payload_size" [1, 2] [50] le_rfl (List.cons_ne_nil _ _)
    (setReference_sizes (by decide)) (by decide)
    (by rw [columnValues_sizes (by decide)]; simp [hsize]; rfl)
    (by rw [columnValues_sizes (by decide)]; simp [hsize])
    (by norm_num [binMargin])
  obtain ⟨report, hreport⟩ := hshift.2 (exists_columnValues_sizes (by decide))
  exact ⟨report, hreport, hshift.1 report hreport⟩

end DriftDetector

end Chronoq.Ranker
