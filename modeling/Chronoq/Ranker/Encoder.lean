import Chronoq.Foundations.Fallible
import Chronoq.Foundations.Interning
import Chronoq.Ranker.Features

/-! # `_build_matrix`: the category encoder and the rows of the feature matrix

The encoder numbers the values of each categorical column. `buildMatrix` first rebuilds or extends
it with the values of the batch and then reads the codes back into the rows, so an exception of
`float(...)` while the rows are built leaves the encoder already changed.

* `extend`: the loop over the batch that gives new values the next code.
* `codeOf_extend_of_some`: the loop never changes a code.
* `codesOf_extend`: what the loop does to one column, which is to intern its values one by one.
* `codeOf_extend_of_mem`: after the loop every value of the batch has a code.
* `Knows`, `Keeps`: codes that a batch finds, and codes that a later encoder still has.
* `row_eq_ok`: the row of a dictionary whose numeric columns are numbers. -/

namespace Chronoq.Ranker
open Foundations

set_option autoImplicit false

abbrev Encoder := Dict String (Numbering String)

abbrev Row := List ExtFloat

namespace Encoder

/-! ## The loops of `_build_matrix` -/

/-- `{col: {} for col in _CAT_COLS}` -/
def fresh : Encoder := catCols.foldl (fun encoder col => encoder.insert col ∅) ∅

def encodeValue (encoder : Encoder) (col val : String) : Encoder :=
  encoder.insert col (intern ((encoder.lookup col).getD ∅) val)

def encodeDict (encoder : Encoder) (fdict : FeatureDict) : Encoder :=
  catCols.foldl (fun encoder col => encoder.encodeValue col (textAt fdict col)) encoder

def extend (encoder : Encoder) (fdicts : List FeatureDict) : Encoder :=
  fdicts.foldl encodeDict encoder

theorem extend_cons (encoder : Encoder) (fdict : FeatureDict) (fdicts : List FeatureDict) :
    encoder.extend (fdict :: fdicts) = (encoder.encodeDict fdict).extend fdicts := rfl

def codeOf (encoder : Encoder) (col val : String) : Option ℕ :=
  (encoder.lookup col).bind fun codes => codes.lookup val

/-- `float(self._encoder[col].get(val, 0))`, for a column that the encoder has. -/
def cell (encoder : Encoder) (col val : String) : ExtFloat :=
  .finite ((encoder.codeOf col val).getD 0 : ℕ)

def row (encoder : Encoder) (fdict : FeatureDict) : Except PyException Row := do
  let numbers ← numericCols.mapM (floatAt fdict)
  return (numbers ++ catCols.map fun col => encoder.cell col (textAt fdict col)).map toFloat32

def rows (encoder : Encoder) (fdicts : List FeatureDict) : Except PyException (List Row) :=
  fdicts.mapM encoder.row

def buildMatrix (encoder : Encoder) (fdicts : List FeatureDict) (fit : Bool) :
    Encoder × Except PyException (List Row) :=
  let encoder := (if fit then fresh else encoder).extend fdicts
  (encoder, encoder.rows fdicts)

/-! ## Codes are never changed by an extension -/

theorem codeOf_encodeValue_of_some {encoder : Encoder} {col val : String} {n : ℕ}
    (h : encoder.codeOf col val = some n) (col' val' : String) :
    (encoder.encodeValue col' val').codeOf col val = some n := by
  unfold codeOf encodeValue at *
  by_cases hcol : col = col'
  · subst hcol
    rw [Finmap.lookup_insert, Option.bind_some]
    rw [Option.bind_eq_some_iff] at h
    obtain ⟨codes, hcodes, hval⟩ := h
    rw [hcodes, Option.getD_some]
    exact lookup_intern_of_some hval
  · rw [Finmap.lookup_insert_of_ne _ hcol]
    exact h

theorem codeOf_encodeCols_of_some {encoder : Encoder} {col val : String} {n : ℕ}
    (h : encoder.codeOf col val = some n) (fdict : FeatureDict) (cols : List String) :
    (cols.foldl (fun encoder col => encoder.encodeValue col (textAt fdict col)) encoder).codeOf col
      val = some n := by
  induction cols generalizing encoder with
  | nil => exact h
  | cons col' cols ih => exact ih (codeOf_encodeValue_of_some h col' _)

theorem codeOf_extend_of_some {encoder : Encoder} {col val : String} {n : ℕ}
    (h : encoder.codeOf col val = some n) (fdicts : List FeatureDict) :
    (encoder.extend fdicts).codeOf col val = some n := by
  induction fdicts generalizing encoder with
  | nil => exact h
  | cons fdict fdicts ih => exact ih (codeOf_encodeCols_of_some h fdict catCols)

/-! ## One column -/

/-- The numbering of a column; one that the encoder does not have yet is empty. -/
def codesOf (encoder : Encoder) (col : String) : Numbering String := (encoder.lookup col).getD ∅

theorem codeOf_eq_lookup (encoder : Encoder) (col val : String) :
    encoder.codeOf col val = (encoder.codesOf col).lookup val := by
  unfold codeOf codesOf
  cases encoder.lookup col with
  | none => simp
  | some codes => rfl

theorem codesOf_encodeValue (encoder : Encoder) (col col' val : String) :
    (encoder.encodeValue col val).codesOf col' =
      if col' = col then intern (encoder.codesOf col) val else encoder.codesOf col' := by
  unfold codesOf encodeValue
  split
  · next heq => rw [heq, Finmap.lookup_insert, Option.getD_some]
  · next hne => rw [Finmap.lookup_insert_of_ne _ hne]

/-- The loop over the columns does one step in each of them. -/
theorem codesOf_encodeCols (encoder : Encoder) (fdict : FeatureDict) {cols : List String}
    (hcols : cols.Nodup) (col : String) :
    (cols.foldl (fun encoder col => encoder.encodeValue col (textAt fdict col)) encoder).codesOf col =
      if col ∈ cols then intern (encoder.codesOf col) (textAt fdict col)
      else encoder.codesOf col := by
  induction cols generalizing encoder with
  | nil => simp
  | cons col' cols ih =>
    obtain ⟨hnotin, hcols⟩ := List.nodup_cons.mp hcols
    rw [List.foldl_cons, ih _ hcols, codesOf_encodeValue]
    by_cases heq : col = col'
    · subst heq
      simp [hnotin]
    · simp [heq]

theorem codesOf_extend (encoder : Encoder) (fdicts : List FeatureDict) {col : String}
    (hcol : col ∈ catCols) :
    (encoder.extend fdicts).codesOf col =
      internAll (encoder.codesOf col) (fdicts.map fun fdict => textAt fdict col) := by
  induction fdicts generalizing encoder with
  | nil => rfl
  | cons fdict fdicts ih =>
    have hone : (encoder.encodeDict fdict).codesOf col =
        intern (encoder.codesOf col) (textAt fdict col) := by
      rw [encodeDict, codesOf_encodeCols encoder fdict (by decide), if_pos hcol]
    calc (encoder.extend (fdict :: fdicts)).codesOf col
        = internAll ((encoder.encodeDict fdict).codesOf col)
            (fdicts.map fun fdict => textAt fdict col) := ih (encoder.encodeDict fdict)
      _ = internAll (encoder.codesOf col) ((fdict :: fdicts).map fun fdict => textAt fdict col) := by
        rw [hone]
        rfl

/-- Every value of the batch has a code. -/
theorem codeOf_extend_of_mem (encoder : Encoder) {fdicts : List FeatureDict} {fdict : FeatureDict}
    (hmem : fdict ∈ fdicts) {col : String} (hcol : col ∈ catCols) :
    ∃ n, (encoder.extend fdicts).codeOf col (textAt fdict col) = some n := by
  rw [codeOf_eq_lookup, codesOf_extend encoder fdicts hcol]
  exact exists_lookup_internAll _ (List.mem_map_of_mem hmem)

/-! ## Known values -/

/-- Every value of the batch has a code already. -/
def Knows (encoder : Encoder) (fdicts : List FeatureDict) : Prop :=
  ∀ fdict ∈ fdicts, ∀ col ∈ catCols, (encoder.codeOf col (textAt fdict col)).isSome

instance (encoder : Encoder) (fdicts : List FeatureDict) : Decidable (encoder.Knows fdicts) :=
  inferInstanceAs (Decidable (∀ fdict ∈ fdicts, ∀ col ∈ catCols, _))

/-- `encoder` keeps all the codes of `old`. -/
def Keeps (encoder old : Encoder) : Prop :=
  ∀ col val n, old.codeOf col val = some n → encoder.codeOf col val = some n

theorem Keeps.refl (encoder : Encoder) : encoder.Keeps encoder := fun _ _ _ h => h

theorem Keeps.extend {encoder old : Encoder} (h : encoder.Keeps old) (fdicts : List FeatureDict) :
    (encoder.extend fdicts).Keeps old :=
  fun col val n hn => codeOf_extend_of_some (h col val n hn) fdicts

theorem knows_extend (encoder : Encoder) (fdicts : List FeatureDict) :
    (encoder.extend fdicts).Knows fdicts := by
  intro fdict hmem col hcol
  obtain ⟨n, hn⟩ := codeOf_extend_of_mem encoder hmem hcol
  exact Option.isSome_of_eq_some hn

/-- An encoder that keeps the codes of one that knows the batch reads the same codes in it. -/
theorem Knows.codeOf_eq {encoder old : Encoder} {fdicts : List FeatureDict} (h : old.Knows fdicts)
    (hkeeps : encoder.Keeps old) {fdict : FeatureDict} (hmem : fdict ∈ fdicts) {col : String}
    (hcol : col ∈ catCols) :
    encoder.codeOf col (textAt fdict col) = old.codeOf col (textAt fdict col) := by
  obtain ⟨n, hn⟩ := Option.isSome_iff_exists.mp (h fdict hmem col hcol)
  rw [hn]
  exact hkeeps col _ n hn

theorem Knows.of_keeps {encoder old : Encoder} {fdicts : List FeatureDict} (h : old.Knows fdicts)
    (hkeeps : encoder.Keeps old) : encoder.Knows fdicts := by
  intro fdict hmem col hcol
  rw [h.codeOf_eq hkeeps hmem hcol]
  exact h fdict hmem col hcol

/-- To extend by known values changes nothing. -/
theorem Knows.codesOf_extend {encoder : Encoder} {fdicts : List FeatureDict}
    (h : encoder.Knows fdicts) {col : String} (hcol : col ∈ catCols) :
    (encoder.extend fdicts).codesOf col = encoder.codesOf col := by
  rw [Encoder.codesOf_extend encoder fdicts hcol]
  refine internAll_of_mem fun val hval => ?_
  obtain ⟨fdict, hmem, rfl⟩ := List.mem_map.mp hval
  obtain ⟨n, hn⟩ := Option.isSome_iff_exists.mp (h fdict hmem col hcol)
  rw [codeOf_eq_lookup] at hn
  exact Finmap.mem_of_lookup_eq_some hn

/-- Every categorical column is densely numbered. -/
def DenselyNumbered (encoder : Encoder) : Prop := ∀ col ∈ catCols, Dense (encoder.codesOf col)

theorem denselyNumbered_empty : DenselyNumbered ∅ := by
  intro col _
  rw [codesOf, Finmap.lookup_empty, Option.getD_none]
  exact dense_empty

theorem codesOf_fresh (col : String) (hcol : col ∈ catCols) : fresh.codesOf col = ∅ := by
  revert col
  decide

theorem denselyNumbered_fresh : fresh.DenselyNumbered := by
  intro col hcol
  rw [codesOf_fresh col hcol]
  exact dense_empty

theorem DenselyNumbered.extend {encoder : Encoder} (h : encoder.DenselyNumbered)
    (fdicts : List FeatureDict) : (encoder.extend fdicts).DenselyNumbered := by
  intro col hcol
  rw [codesOf_extend encoder fdicts hcol]
  exact dense_internAll (h col hcol) _

/-! ## Rows -/

theorem exists_row_ok_iff {encoder : Encoder} {fdict : FeatureDict} :
    (∃ r, encoder.row fdict = .ok r) ↔ Readable fdict := by
  rw [Readable, ← exists_mapM_ok_iff, row]
  cases numericCols.mapM (floatAt fdict) with
  | error exc =>
    constructor <;> (rintro ⟨_, h⟩; cases h)
  | ok numbers => exact iff_of_true ⟨_, rfl⟩ ⟨_, rfl⟩

theorem row_eq_ok {fdict : FeatureDict} (h : Readable fdict) (encoder : Encoder) :
    encoder.row fdict = .ok ((numericCols.map (numberAt fdict) ++
      catCols.map fun col => encoder.cell col (textAt fdict col)).map toFloat32) := by
  have hnumbers : numericCols.mapM (floatAt fdict) = .ok (numericCols.map (numberAt fdict)) := by
    rw [mapM_eq_ok_iff, List.forall₂_map_right_iff, List.forall₂_same]
    intro col hcol
    obtain ⟨x, hx⟩ := h col hcol
    rw [numberAt, hx]
  rw [row, hnumbers]
  rfl

section Entries
variable {encoder encoder' : Encoder} {fdict : FeatureDict} {r r' : Row}

theorem row_length (h : encoder.row fdict = .ok r) :
    r.length = numericCols.length + catCols.length := by
  rw [row_eq_ok (exists_row_ok_iff.mp ⟨r, h⟩)] at h
  rw [← Except.ok.inj h]
  simp

/-- The numeric part of a row does not depend on the encoder. -/
theorem row_getElem_numeric (h : encoder.row fdict = .ok r) (h' : encoder'.row fdict = .ok r') {k : ℕ}
    (hk : k < numericCols.length) : r[k]? = r'[k]? := by
  have hread := exists_row_ok_iff.mp ⟨r, h⟩
  rw [row_eq_ok hread] at h h'
  rw [← Except.ok.inj h, ← Except.ok.inj h', List.map_append, List.map_append,
    List.getElem?_append_left (by simpa using hk), List.getElem?_append_left (by simpa using hk)]

/-- The categorical part holds the codes. -/
theorem row_getElem_cat (h : encoder.row fdict = .ok r) {j : ℕ} (hj : j < catCols.length) :
    r[numericCols.length + j]? = some (toFloat32 (encoder.cell catCols[j] (textAt fdict catCols[j]))) := by
  have hread := exists_row_ok_iff.mp ⟨r, h⟩
  rw [row_eq_ok hread] at h
  rw [← Except.ok.inj h, List.map_append, List.getElem?_append_right (by simp)]
  simp [hj]

end Entries

/-- The row of a feature dictionary depends on the encoder through the codes of its values only. -/
theorem row_congr {encoder encoder' : Encoder} {fdict : FeatureDict}
    (h : ∀ col ∈ catCols, encoder.codeOf col (textAt fdict col) =
      encoder'.codeOf col (textAt fdict col)) : encoder.row fdict = encoder'.row fdict := by
  have hcells : catCols.map (fun col => encoder.cell col (textAt fdict col)) =
      catCols.map fun col => encoder'.cell col (textAt fdict col) := by
    refine List.map_congr_left fun col hcol => ?_
    rw [cell, cell, h col hcol]
  rw [row, row, hcells]

theorem rows_congr {encoder encoder' : Encoder} {fdicts : List FeatureDict}
    (h : ∀ fdict ∈ fdicts, ∀ col ∈ catCols, encoder.codeOf col (textAt fdict col) =
      encoder'.codeOf col (textAt fdict col)) : encoder.rows fdicts = encoder'.rows fdicts :=
  mapM_congr fun fdict hmem => row_congr (h fdict hmem)

end Encoder

end Chronoq.Ranker
