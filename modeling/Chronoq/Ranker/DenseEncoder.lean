import Chronoq.Ranker.Encoder

/-! # The encoder over a sequence of `_build_matrix` calls

A call with `fit` starts the encoder over and every call interns the values of its batch, also one that
raises while it builds the rows. So after any calls the numbering of a column is that of all values seen
since the last call with `fit`, interned one by one (`codesOf_after`). -/

namespace Chronoq.Ranker
open Foundations

set_option autoImplicit false

structure MatrixCall where
  featureDicts : List FeatureDict
  fit : Bool

namespace Encoder

/-- `self._encoder` after the calls on a new estimator. -/
def after (calls : List MatrixCall) : Encoder :=
  calls.foldl (fun encoder c => (encoder.buildMatrix c.featureDicts c.fit).1) ∅

/-- The feature dictionaries since the last call with `fit`. -/
def seen (calls : List MatrixCall) : List FeatureDict :=
  calls.foldl (fun fdicts c => (if c.fit then [] else fdicts) ++ c.featureDicts) []

def valuesSeen (calls : List MatrixCall) (col : String) : List String :=
  (seen calls).map fun fdict => textAt fdict col

theorem after_concat (calls : List MatrixCall) (c : MatrixCall) :
    after (calls ++ [c]) = (if c.fit then fresh else after calls).extend c.featureDicts := by
  rw [after, List.foldl_append]
  rfl

theorem seen_concat (calls : List MatrixCall) (c : MatrixCall) :
    seen (calls ++ [c]) = (if c.fit then [] else seen calls) ++ c.featureDicts := by
  rw [seen, List.foldl_append]
  rfl

theorem codesOf_after (calls : List MatrixCall) {col : String} (hcol : col ∈ catCols) :
    (after calls).codesOf col = internAll ∅ (valuesSeen calls col) := by
  induction calls using List.reverseRecOn with
  | nil => rfl
  | append_singleton calls c ih =>
    have hstart : (if c.fit then fresh else after calls).codesOf col =
        internAll ∅ ((if c.fit then [] else seen calls).map fun fdict => textAt fdict col) := by
      cases c.fit with
      | true => exact codesOf_fresh col hcol
      | false => exact ih
    rw [after_concat, codesOf_extend _ _ hcol, hstart, ← internAll_append, ← List.map_append,
      ← seen_concat]
    rfl

/-! ## The numbering of a column -/

theorem keys_after (calls : List MatrixCall) {col : String} (hcol : col ∈ catCols) :
    ((after calls).codesOf col).keys = (valuesSeen calls col).toFinset := by
  rw [codesOf_after calls hcol, keys_internAll, Finmap.keys_empty, Finset.empty_union]

/-- The code of a value; that of a value without one does not matter. -/
def code (encoder : Encoder) (col val : String) : ℕ := (encoder.codeOf col val).getD 0

theorem bijOn_after (calls : List MatrixCall) {col : String} (hcol : col ∈ catCols) :
    Set.BijOn ((after calls).code col) {val | val ∈ valuesSeen calls col}
      (Set.Iio (valuesSeen calls col).toFinset.card) := by
  have hdense : Dense ((after calls).codesOf col) := by
    rw [codesOf_after calls hcol]
    exact dense_internAll dense_empty _
  have hkeys : {val | val ∈ (after calls).codesOf col} = {val | val ∈ valuesSeen calls col} := by
    ext val
    rw [Set.mem_ofPred_eq, Set.mem_ofPred_eq, ← Finmap.mem_keys, keys_after calls hcol,
      List.mem_toFinset]
  rw [← keys_after calls hcol, ← hkeys]
  refine hdense.bijOn.congr fun val hval => ?_
  obtain ⟨n, hn⟩ := Finmap.mem_iff.mp hval
  rw [internCode, code, codeOf_eq_lookup, hn]
  rfl

theorem codeOf_after_isSome_iff (calls : List MatrixCall) {col : String} (hcol : col ∈ catCols)
    (val : String) : ((after calls).codeOf col val).isSome ↔ val ∈ valuesSeen calls col := by
  rw [codeOf_eq_lookup, Finmap.lookup_isSome, ← Finmap.mem_keys, keys_after calls hcol,
    List.mem_toFinset]

theorem codeOf_after_concat {calls : List MatrixCall} {c : MatrixCall} (hfit : c.fit = false)
    {col val : String} {n : ℕ} (h : (after calls).codeOf col val = some n) :
    (after (calls ++ [c])).codeOf col val = some n := by
  rw [after_concat, hfit]
  exact codeOf_extend_of_some h c.featureDicts

/-! ## The rows -/

/-- The row of a dictionary: its numbers in the order of the schema, then the codes of its own values. -/
def RowOf (encoder : Encoder) (fdict : FeatureDict) (r : Row) : Prop :=
  ∃ numbers codes : Row, r = numbers ++ codes ∧
    List.Forall₂ (fun col x => ∃ y, floatAt fdict col = .ok y ∧ x = toFloat32 y) numericCols numbers ∧
    List.Forall₂ (fun col x => ∃ n : ℕ, encoder.codeOf col (textAt fdict col) = some n ∧
      x = .finite n) catCols codes

theorem rowOf_of_row {encoder : Encoder} {fdict : FeatureDict} {r : Row}
    (h : encoder.row fdict = .ok r)
    (hcodes : ∀ col ∈ catCols, ∃ n, encoder.codeOf col (textAt fdict col) = some n ∧ n < 2 ^ 24) :
    encoder.RowOf fdict r := by
  have hread := exists_row_ok_iff.mp ⟨r, h⟩
  rw [row_eq_ok hread, List.map_append, List.map_map, List.map_map] at h
  refine ⟨_, _, (Except.ok.inj h).symm, ?_, ?_⟩
  · rw [List.forall₂_map_right_iff, List.forall₂_same]
    intro col hcol
    obtain ⟨y, hy⟩ := hread col hcol
    exact ⟨y, hy, by rw [Function.comp_apply, numberAt, hy]⟩
  · rw [List.forall₂_map_right_iff, List.forall₂_same]
    intro col hcol
    obtain ⟨n, hn, hlt⟩ := hcodes col hcol
    exact ⟨n, hn, by rw [Function.comp_apply, cell, hn, Option.getD_some, toFloat32_natCast hlt]⟩

/-- Every value of the batch has a code after the call, and it is one of the numbers below `2 ^ 24`. -/
theorem exists_code_after {calls : List MatrixCall} {c : MatrixCall} {col : String}
    (hcol : col ∈ catCols) (hfew : (valuesSeen (calls ++ [c]) col).toFinset.card < 2 ^ 24)
    {fdict : FeatureDict} (hmem : fdict ∈ c.featureDicts) :
    ∃ n, (after (calls ++ [c])).codeOf col (textAt fdict col) = some n ∧ n < 2 ^ 24 := by
  have hval : textAt fdict col ∈ valuesSeen (calls ++ [c]) col := by
    refine List.mem_map_of_mem (f := fun fdict => textAt fdict col) ?_
    rw [seen_concat]
    exact List.mem_append_right _ hmem
  obtain ⟨n, hn⟩ := Option.isSome_iff_exists.mp ((codeOf_after_isSome_iff _ hcol _).mpr hval)
  have hlt := (bijOn_after (calls ++ [c]) hcol).mapsTo hval
  rw [code, hn, Option.getD_some, Set.mem_Iio] at hlt
  exact ⟨n, hn, hlt.trans hfew⟩

theorem encoder_dense_append_only (calls : List MatrixCall) (c : MatrixCall)
    (hfew : ∀ col ∈ catCols, (valuesSeen (calls ++ [c]) col).toFinset.card < 2 ^ 24) :
    (∀ col ∈ catCols,
      (∀ val, ((after (calls ++ [c])).codeOf col val).isSome ↔ val ∈ valuesSeen (calls ++ [c]) col) ∧
      Set.BijOn ((after (calls ++ [c])).code col) {val | val ∈ valuesSeen (calls ++ [c]) col}
        (Set.Iio (valuesSeen (calls ++ [c]) col).toFinset.card)) ∧
    (c.fit = false → ∀ col val n, (after calls).codeOf col val = some n →
      (after (calls ++ [c])).codeOf col val = some n) ∧
    (∀ rows, ((after calls).buildMatrix c.featureDicts c.fit).2 = .ok rows →
      List.Forall₂ ((after (calls ++ [c])).RowOf) c.featureDicts rows) ∧
    numericCols.length = 13 ∧ catCols.length = 2 := by
  refine ⟨fun col hcol => ⟨codeOf_after_isSome_iff _ hcol, bijOn_after _ hcol⟩,
    fun hfit _ _ _ h => codeOf_after_concat hfit h, fun rows hrows => ?_, rfl, rfl⟩
  have hbuild : (after (calls ++ [c])).rows c.featureDicts = .ok rows := by
    rw [after_concat]
    exact hrows
  have hrowsOf := mapM_eq_ok_iff.mp hbuild
  refine List.forall₂_iff_get.mpr ⟨hrowsOf.length_eq, fun i hi hi' => ?_⟩
  have hmem : c.featureDicts.get ⟨i, hi⟩ ∈ c.featureDicts := List.getElem_mem hi
  exact rowOf_of_row ((List.forall₂_iff_get.mp hrowsOf).2 i hi hi')
    fun col hcol => exists_code_after hcol (hfew col hcol) hmem

theorem encoder_dense_append_only_reset :
    ((after ([⟨[∅], false⟩] ++ [⟨[dictOf [("task_type", .ofText "ocr")]], true⟩])).codeOf "task_type"
      "ocr").isSome ↔ "ocr" ∈ valuesSeen
        ([⟨[∅], false⟩] ++ [⟨[dictOf [("task_type", .ofText "ocr")]], true⟩]) "task_type" :=
  ((encoder_dense_append_only [⟨[∅], false⟩] ⟨[dictOf [("task_type", .ofText "ocr")]], true⟩
    (by decide)).1 "task_type" (by decide)).1 "ocr"

end Encoder

end Chronoq.Ranker
