import Chronoq.Foundations.Grouping
import Chronoq.Foundations.Sampling
import Chronoq.Foundations.Slices

/-! # `traces/borg.py`: stratified downsampling

`rejectionSample` gives every scheduling class a share of the target, spreads what is left over the first
classes, draws that many rows of each class, and cuts the concatenation off at the target.

The shares are at least one each, so many small classes can use up the target before the last class is
reached, and a class of one row cannot take the row that is spread to it. These are the two ways to miss
the target or a class (`rejectionSample_iff`). -/

namespace Chronoq.Bench
open Foundations

set_option autoImplicit false

/-- `rng.choice(population, size=size, replace=False)`, called once for every class. -/
structure ChoiceWithoutReplacement where
  choice : ℤ → ℕ → ℕ → List ℕ
  nodup : ∀ cls population size, size ≤ population → (choice cls population size).Nodup
  lt : ∀ cls population size, size ≤ population → ∀ i ∈ choice cls population size, i < population
  length : ∀ cls population size, size ≤ population → (choice cls population size).length = size

section Sample
variable {Row : Type} (schedulingClass : Row → ℤ)

/-- `sorted(df["scheduling_class"].unique())` -/
def classes (df : List Row) : List ℤ := (df.map schedulingClass).dedup.insertionSort (· ≤ ·)

/-- `df[df["scheduling_class"] == cls]` -/
def subset (df : List Row) (cls : ℤ) : List Row := df.filter fun row => schedulingClass row = cls

/-- The loop that hands out what remains, one for each class. -/
def distribute : ℤ → List (ℤ × ℕ) → List (ℤ × ℕ)
  | _, [] => []
  | remaining, (cls, n) :: rest =>
    if remaining ≤ 0 then (cls, n) :: rest else (cls, n + 1) :: distribute (remaining - 1) rest

def nPerClass (df : List Row) (target : ℕ) : List (ℤ × ℕ) :=
  let shares := (classes schedulingClass df).map fun cls =>
    (cls, max 1 (target * (subset schedulingClass df cls).length / df.length))
  let allocated := (shares.map Prod.snd).sum
  distribute (target - allocated) shares

def samplePart (df : List Row) (rng : ChoiceWithoutReplacement) (cls : ℤ) (n : ℕ) : List Row :=
  let rows := subset schedulingClass df cls
  (rng.choice cls rows.length (min n rows.length)).filterMap fun i => rows[i]?

def rejectionSample (df : List Row) (target : ℕ) (rng : ChoiceWithoutReplacement) : List Row :=
  ((nPerClass schedulingClass df target).map fun entry =>
    samplePart schedulingClass df rng entry.1 entry.2).flatten.take target

end Sample

/-! ## The numbers of rows -/

section Counts
variable {Row : Type} {schedulingClass : Row → ℤ} {df : List Row} {target : ℕ}

theorem mem_classes {cls : ℤ} :
    cls ∈ classes schedulingClass df ↔ ∃ row ∈ df, schedulingClass row = cls := by
  rw [classes, List.mem_insertionSort, List.mem_dedup, List.mem_map]

theorem nodup_classes (schedulingClass : Row → ℤ) (df : List Row) :
    (classes schedulingClass df).Nodup :=
  (List.perm_insertionSort _ _).nodup_iff.mpr (List.nodup_dedup _)

/-- The rows of each class, in the order of the classes. -/
def classCounts (schedulingClass : Row → ℤ) (df : List Row) : List ℕ :=
  (classes schedulingClass df).map fun cls => (subset schedulingClass df cls).length

theorem classCounts_pos : ∀ count ∈ classCounts schedulingClass df, 0 < count := by
  intro count hcount
  obtain ⟨cls, hcls, rfl⟩ := List.mem_map.mp hcount
  obtain ⟨row, hrow, heq⟩ := mem_classes.mp hcls
  exact List.length_pos_of_mem (List.mem_filter.mpr ⟨hrow, by simpa using heq⟩)

/-- The classes partition the rows. -/
theorem subsets_perm (schedulingClass : Row → ℤ) (df : List Row) :
    ((classes schedulingClass df).map (subset schedulingClass df)).flatten.Perm df := by
  have hperm := flatten_filter_perm schedulingClass (nodup_classes schedulingClass df) df
  have hall : df.filter (fun row => schedulingClass row ∈ classes schedulingClass df) = df := by
    rw [List.filter_eq_self]
    exact fun row hrow => decide_eq_true (mem_classes.mpr ⟨row, hrow, rfl⟩)
  rw [hall] at hperm
  exact hperm

theorem sum_classCounts (schedulingClass : Row → ℤ) (df : List Row) :
    (classCounts schedulingClass df).sum = df.length := by
  rw [← (subsets_perm schedulingClass df).length_eq, List.length_flatten, List.map_map]
  rfl

def shares (schedulingClass : Row → ℤ) (df : List Row) (target : ℕ) : List ℕ :=
  (classCounts schedulingClass df).map (share target df.length)

/-- What the shares fall short of the target. -/
def leftOver (schedulingClass : Row → ℤ) (df : List Row) (target : ℕ) : ℕ :=
  target - (shares schedulingClass df target).sum

theorem distribute_fst (remaining : ℤ) (entries : List (ℤ × ℕ)) :
    (distribute remaining entries).map Prod.fst = entries.map Prod.fst := by
  induction entries generalizing remaining with
  | nil => rfl
  | cons entry entries ih =>
    obtain ⟨cls, n⟩ := entry
    rw [distribute]
    split
    · rfl
    · rw [List.map_cons, List.map_cons, ih]

theorem distribute_snd (remaining : ℤ) (entries : List (ℤ × ℕ)) :
    (distribute remaining entries).map Prod.snd = spread remaining.toNat (entries.map Prod.snd) := by
  induction entries generalizing remaining with
  | nil => cases remaining.toNat <;> rfl
  | cons entry entries ih =>
    obtain ⟨cls, n⟩ := entry
    rw [distribute]
    split
    · next hnone =>
      rw [Int.toNat_of_nonpos hnone]
      rfl
    · next hsome =>
      have hsucc : remaining.toNat = (remaining - 1).toNat + 1 := by omega
      rw [List.map_cons, List.map_cons, ih, hsucc, spread]

theorem nPerClass_fst (schedulingClass : Row → ℤ) (df : List Row) (target : ℕ) :
    (nPerClass schedulingClass df target).map Prod.fst = classes schedulingClass df := by
  rw [nPerClass, distribute_fst, List.map_map]
  exact List.map_id _

theorem nPerClass_snd (schedulingClass : Row → ℤ) (df : List Row) (target : ℕ) :
    (nPerClass schedulingClass df target).map Prod.snd =
      spread (leftOver schedulingClass df target) (shares schedulingClass df target) := by
  have hshares : ((classes schedulingClass df).map fun cls =>
      (cls, max 1 (target * (subset schedulingClass df cls).length / df.length))).map Prod.snd =
        shares schedulingClass df target := by
    rw [List.map_map, shares, classCounts, List.map_map]
    rfl
  rw [nPerClass, distribute_snd, hshares, leftOver]
  congr 1
  omega

end Counts

/-! ## The parts -/

section Parts
variable {Row : Type} {schedulingClass : Row → ℤ} {df : List Row} {target : ℕ}
  {rng : ChoiceWithoutReplacement}

theorem samplePart_eq_draw (df : List Row) (rng : ChoiceWithoutReplacement) (cls : ℤ) (n : ℕ) :
    samplePart schedulingClass df rng cls n = draw (subset schedulingClass df cls)
      (rng.choice cls (subset schedulingClass df cls).length
        (min n (subset schedulingClass df cls).length)) := rfl

theorem length_samplePart (df : List Row) (rng : ChoiceWithoutReplacement) (cls : ℤ) (n : ℕ) :
    (samplePart schedulingClass df rng cls n).length =
      min n (subset schedulingClass df cls).length := by
  rw [samplePart_eq_draw, length_draw (rng.lt _ _ _ (min_le_right _ _)),
    rng.length _ _ _ (min_le_right _ _)]

theorem samplePart_subperm (df : List Row) (rng : ChoiceWithoutReplacement) (cls : ℤ) (n : ℕ) :
    (samplePart schedulingClass df rng cls n).Subperm (subset schedulingClass df cls) :=
  draw_subperm (rng.nodup _ _ _ (min_le_right _ _)) (rng.lt _ _ _ (min_le_right _ _))

theorem class_of_mem_samplePart {cls : ℤ} {n : ℕ} {row : Row}
    (h : row ∈ samplePart schedulingClass df rng cls n) : schedulingClass row = cls := by
  have hmem := (samplePart_subperm df rng cls n).subset h
  simpa using (List.mem_filter.mp hmem).2

def parts (schedulingClass : Row → ℤ) (df : List Row) (target : ℕ) (rng : ChoiceWithoutReplacement) :
    List (List Row) :=
  (nPerClass schedulingClass df target).map fun entry =>
    samplePart schedulingClass df rng entry.1 entry.2

theorem map_length_parts (schedulingClass : Row → ℤ) (df : List Row) (target : ℕ)
    (rng : ChoiceWithoutReplacement) : (parts schedulingClass df target rng).map List.length =
      List.zipWith min (spread (leftOver schedulingClass df target)
        (shares schedulingClass df target)) (classCounts schedulingClass df) := by
  rw [← nPerClass_snd, classCounts, ← nPerClass_fst schedulingClass df target, List.map_map,
    List.zipWith_map, List.zipWith_self, parts, List.map_map]
  exact List.map_congr_left fun entry _ => length_samplePart df rng entry.1 entry.2

/-- No row is drawn twice. -/
theorem flatten_parts_subperm (schedulingClass : Row → ℤ) (df : List Row) (target : ℕ)
    (rng : ChoiceWithoutReplacement) : (parts schedulingClass df target rng).flatten.Subperm df := by
  have hall : ∀ entries : List (ℤ × ℕ),
      ((entries.map fun entry => samplePart schedulingClass df rng entry.1 entry.2).flatten).Subperm
        ((entries.map Prod.fst).map (subset schedulingClass df)).flatten := by
    intro entries
    induction entries with
    | nil => exact List.Subperm.refl _
    | cons entry entries ih => exact (samplePart_subperm df rng entry.1 entry.2).append ih
  have hsub := hall (nPerClass schedulingClass df target)
  rw [nPerClass_fst] at hsub
  exact hsub.trans (subsets_perm schedulingClass df).subperm

end Parts

/-! ## What meets the target -/

/-- The classes that get one row more than their share. -/
def growing {Row : Type} (schedulingClass : Row → ℤ) (df : List Row) (target : ℕ) : List ℕ :=
  (classCounts schedulingClass df).take (leftOver schedulingClass df target)

/-- The shares of all classes but the last leave room in the target, and every class that grows has more
than one row. -/
structure MeetsTarget {Row : Type} (schedulingClass : Row → ℤ) (df : List Row) (target : ℕ) : Prop where
  leavesRoom : (shares schedulingClass df target).dropLast.sum < target
  canGrow : ∀ count ∈ growing schedulingClass df target, 2 ≤ count

section Target
variable {Row : Type} {schedulingClass : Row → ℤ} {df : List Row} {target : ℕ}

theorem shares_ne_nil (hdf : 0 < df.length) : shares schedulingClass df target ≠ [] := by
  intro hnil
  have hcounts : classCounts schedulingClass df = [] := List.map_eq_nil_iff.mp hnil
  have hsum := sum_classCounts schedulingClass df
  rw [hcounts, List.sum_nil] at hsum
  omega

/-- What is spread does not run past the last class. -/
theorem length_growing (h : target < df.length) :
    (growing schedulingClass df target).length = leftOver schedulingClass df target := by
  have hlt := lt_sum_share target (sum_classCounts schedulingClass df) (by omega)
  rw [growing, List.length_take, min_eq_left]
  rw [leftOver, shares]
  omega

/-- The numbers of rows drawn add up to the shares and one for each class that can grow. -/
theorem length_flatten_parts (h : target < df.length) (rng : ChoiceWithoutReplacement) :
    (parts schedulingClass df target rng).flatten.length = (shares schedulingClass df target).sum +
      (growing schedulingClass df target).countP fun count => 2 ≤ count := by
  rw [List.length_flatten, map_length_parts]
  exact sum_clamped_spread h classCounts_pos _

theorem target_le_length_iff (h : target < df.length) (rng : ChoiceWithoutReplacement) :
    target ≤ (parts schedulingClass df target rng).flatten.length ↔
      ∀ count ∈ growing schedulingClass df target, 2 ≤ count := by
  have hlength : (growing schedulingClass df target).length = leftOver schedulingClass df target :=
    length_growing h
  have hle : (growing schedulingClass df target).countP (fun count => 2 ≤ count) ≤
      (growing schedulingClass df target).length := List.countP_le_length
  have hall : (growing schedulingClass df target).countP (fun count => 2 ≤ count) =
      (growing schedulingClass df target).length ↔
        ∀ count ∈ growing schedulingClass df target, 2 ≤ count := by
    rw [List.countP_eq_length]
    simp only [decide_eq_true_eq]
  rw [length_flatten_parts h, ← hall, hlength]
  rw [hlength, leftOver] at hle
  rw [leftOver]
  omega

theorem sum_dropLast_shares_lt (hdf : 0 < df.length) :
    (shares schedulingClass df target).dropLast.sum < (shares schedulingClass df target).sum := by
  obtain ⟨front, last, heq⟩ := List.eq_nil_or_concat' (shares schedulingClass df target) |>.resolve_left
    (shares_ne_nil hdf)
  have hlast : 1 ≤ last := by
    have hmem : last ∈ shares schedulingClass df target := by
      rw [heq]
      exact List.mem_append_right _ (List.mem_singleton_self last)
    obtain ⟨count, -, rfl⟩ := List.mem_map.mp hmem
    exact one_le_share _ _ _
  rw [heq, List.dropLast_concat, List.sum_append, List.sum_singleton]
  omega

/-- Where nothing is left over, every class gives its share. -/
theorem map_length_parts_of_leftOver_eq_zero (h : target < df.length) (rng : ChoiceWithoutReplacement)
    (hzero : leftOver schedulingClass df target = 0) :
    (parts schedulingClass df target rng).map List.length = shares schedulingClass df target := by
  have hspread : ∀ ns, spread 0 ns = ns := fun ns => by cases ns <;> rfl
  rw [map_length_parts, hzero, hspread, shares]
  have hmin : ∀ counts : List ℕ, (∀ count ∈ counts, 0 < count) →
      List.zipWith min (counts.map (share target df.length)) counts =
        counts.map (share target df.length) := by
    intro counts hcounts
    rw [List.zipWith_map_left, List.zipWith_self]
    exact List.map_congr_left fun count hcount => min_eq_left (share_le h (hcounts count hcount))
  exact hmin _ classCounts_pos

theorem part_ne_nil (rng : ChoiceWithoutReplacement) {entry : ℤ × ℕ}
    (hentry : entry ∈ nPerClass schedulingClass df target) :
    samplePart schedulingClass df rng entry.1 entry.2 ≠ [] := by
  have hn : 1 ≤ entry.2 := by
    have hmem : entry.2 ∈ (nPerClass schedulingClass df target).map Prod.snd :=
      List.mem_map_of_mem hentry
    rw [nPerClass_snd] at hmem
    refine le_spread (fun n hn => ?_) _ _ hmem
    obtain ⟨count, -, rfl⟩ := List.mem_map.mp hn
    exact one_le_share _ _ _
  have hcount : 0 < (subset schedulingClass df entry.1).length := by
    have hcls : entry.1 ∈ classes schedulingClass df := by
      rw [← nPerClass_fst schedulingClass df target]
      exact List.mem_map_of_mem hentry
    exact classCounts_pos _ (List.mem_map_of_mem hcls)
  rw [← List.length_pos_iff, length_samplePart]
  omega

theorem dropLast_parts_lt (h : target < df.length) (rng : ChoiceWithoutReplacement)
    (hmeets : MeetsTarget schedulingClass df target) :
    (parts schedulingClass df target rng).dropLast.flatten.length < target := by
  by_cases hzero : leftOver schedulingClass df target = 0
  · rw [List.length_flatten, List.map_dropLast, map_length_parts_of_leftOver_eq_zero h rng hzero]
    exact hmeets.leavesRoom
  · -- everything that is drawn fits, and the last part is not empty
    have htotal : (parts schedulingClass df target rng).flatten.length =
        (shares schedulingClass df target).sum +
          (growing schedulingClass df target).countP fun count => 2 ≤ count :=
      length_flatten_parts h rng
    have hgrow : (growing schedulingClass df target).countP (fun count => 2 ≤ count) ≤
        leftOver schedulingClass df target := by
      rw [← length_growing h]
      exact List.countP_le_length
    have hne : nPerClass schedulingClass df target ≠ [] := by
      intro hnil
      have hshares := nPerClass_snd schedulingClass df target
      rw [hnil, List.map_nil] at hshares
      have hlength := length_spread (leftOver schedulingClass df target)
        (shares schedulingClass df target)
      rw [← hshares] at hlength
      exact shares_ne_nil (by omega) (List.length_eq_zero_iff.mp hlength.symm)
    obtain ⟨entries, entry, heq⟩ := (List.eq_nil_or_concat' _).resolve_left hne
    have hlast : 0 < (samplePart schedulingClass df rng entry.1 entry.2).length :=
      List.length_pos_of_ne_nil (part_ne_nil rng (by rw [heq]; simp))
    rw [parts, heq, List.map_append, List.map_singleton] at htotal ⊢
    rw [List.flatten_append, List.length_append, List.flatten_singleton] at htotal
    rw [List.dropLast_concat]
    unfold leftOver at hzero hgrow
    omega

/-! ## The sample -/

/-- Exactly `target` distinct rows of the table, and one of every class at least. -/
structure StratifiedSample (schedulingClass : Row → ℤ) (df : List Row) (target : ℕ)
    (sample : List Row) : Prop where
  length : sample.length = target
  distinct : sample.Subperm df
  everyClass : ∀ row ∈ df, ∃ row' ∈ sample, schedulingClass row' = schedulingClass row

theorem exists_mem_of_meetsTarget (h : target < df.length) (rng : ChoiceWithoutReplacement)
    (hmeets : MeetsTarget schedulingClass df target) {row : Row} (hrow : row ∈ df) :
    ∃ row' ∈ rejectionSample schedulingClass df target rng,
      schedulingClass row' = schedulingClass row := by
  have hcls : schedulingClass row ∈ classes schedulingClass df := mem_classes.mpr ⟨row, hrow, rfl⟩
  rw [← nPerClass_fst schedulingClass df target] at hcls
  obtain ⟨entry, hentry, heq⟩ := List.mem_map.mp hcls
  obtain ⟨row', hpart, hmem⟩ := exists_mem_take_flatten
    (List.forall_mem_map.mpr fun entry hentry => part_ne_nil rng hentry)
    (dropLast_parts_lt h rng hmeets) _ (List.mem_map_of_mem hentry)
  exact ⟨row', hmem, (class_of_mem_samplePart hpart).trans heq⟩

/-- If the others use up the target, the last class is not reached. -/
theorem leavesRoom_of_everyClass (h : target < df.length) (rng : ChoiceWithoutReplacement)
    (hall : ∀ row ∈ df, ∃ row' ∈ rejectionSample schedulingClass df target rng,
      schedulingClass row' = schedulingClass row) :
    (shares schedulingClass df target).dropLast.sum < target := by
  by_contra hfull
  have hlt : (shares schedulingClass df target).dropLast.sum < (shares schedulingClass df target).sum :=
    sum_dropLast_shares_lt (by omega)
  have hzero : leftOver schedulingClass df target = 0 := by
    unfold leftOver
    omega
  have hlength : target ≤ (parts schedulingClass df target rng).dropLast.flatten.length := by
    rw [List.length_flatten, List.map_dropLast, map_length_parts_of_leftOver_eq_zero h rng hzero]
    omega
  have hnodup := nodup_classes schedulingClass df
  rw [← nPerClass_fst schedulingClass df target] at hnodup
  rcases List.eq_nil_or_concat' (nPerClass schedulingClass df target) with hnil | ⟨entries, entry, heq⟩
  · obtain ⟨row, hrow⟩ := List.exists_mem_of_length_pos (l := df) (by omega)
    have hcls : schedulingClass row ∈ classes schedulingClass df := mem_classes.mpr ⟨row, hrow, rfl⟩
    rw [← nPerClass_fst schedulingClass df target, hnil] at hcls
    cases hcls
  · have hlast : entry.1 ∈ classes schedulingClass df := by
      rw [← nPerClass_fst schedulingClass df target, heq]
      simp
    obtain ⟨row, hrow, hclass⟩ := mem_classes.mp hlast
    obtain ⟨row', hmem, hclass'⟩ := hall row hrow
    change row' ∈ (parts schedulingClass df target rng).flatten.take target at hmem
    rw [parts, heq, List.map_append, List.map_singleton] at hmem hlength
    rw [List.dropLast_concat] at hlength
    -- so a row of the last class would have been drawn for another one
    obtain ⟨part, hpart, hrow'⟩ := exists_part_of_mem_take hlength hmem
    obtain ⟨entry', hentry', rfl⟩ := List.mem_map.mp hpart
    have hother := class_of_mem_samplePart hrow'
    rw [hclass', hclass] at hother
    rw [heq, List.map_append, List.map_singleton, List.nodup_append] at hnodup
    exact hnodup.2.2 entry'.1 (List.mem_map_of_mem hentry') entry.1 (List.mem_singleton_self _)
      hother.symm

end Target

theorem rejectionSample_iff {Row : Type} (schedulingClass : Row → ℤ) (df : List Row) (target : ℕ)
    (h : target < df.length) (rng : ChoiceWithoutReplacement) :
    StratifiedSample schedulingClass df target (rejectionSample schedulingClass df target rng) ↔
      MeetsTarget schedulingClass df target := by
  constructor
  · intro hsample
    refine ⟨leavesRoom_of_everyClass h rng hsample.everyClass, (target_le_length_iff h rng).mp ?_⟩
    have hlength := hsample.length
    rw [rejectionSample, List.length_take] at hlength
    exact hlength.ge.trans (min_le_right _ _)
  · intro hmeets
    have hlength := (target_le_length_iff h rng).mpr hmeets.canGrow
    refine ⟨?_, ?_, fun row hrow => exists_mem_of_meetsTarget h rng hmeets hrow⟩
    · rw [rejectionSample, List.length_take]
      exact min_eq_left hlength
    · exact (List.take_sublist _ _).subperm.trans (flatten_parts_subperm schedulingClass df target rng)

/-- An RNG that draws the first positions. -/
def firstPositions : ChoiceWithoutReplacement where
  choice _ _ size := List.range size
  nodup _ _ _ _ := List.nodup_range
  lt _ _ _ hsize _ hi := (List.mem_range.mp hi).trans_le hsize
  length _ _ _ _ := List.length_range

theorem rejectionSample_iff_two_classes : StratifiedSample id [0, 1, 0, 1, 0, 1] 4
    (rejectionSample id [0, 1, 0, 1, 0, 1] 4 firstPositions) :=
  (rejectionSample_iff id [0, 1, 0, 1, 0, 1] 4 (by decide) firstPositions).mpr
    ⟨by decide, by decide⟩

/-- The classes `0` and `1` use up a target of three, and class `2` is lost; and a class of one row keeps
a sample of four one row short. -/
theorem rejectionSample_misses :
    ¬ StratifiedSample id [0, 0, 0, 0, 1, 2] 3
      (rejectionSample id [0, 0, 0, 0, 1, 2] 3 firstPositions) ∧
    (rejectionSample id [0, 1, 1, 2, 2] 4 firstPositions).length = 3 := by
  refine ⟨fun hsample => ?_, by decide⟩
  have hclass := hsample.everyClass 2 (by decide)
  revert hclass
  decide

end Chronoq.Bench
