import Chronoq.Foundations.OrderStatistics

/-! # Rows that are stacked to columns, and medians

`stack n rows` are the columns of a table whose rows have `n` entries each. What is said of the entries
of every row along the row, or of two tables row by row, holds of the columns position by position
(`pairwise_stack`, `stack_forall₂`). The median of a column never falls when its entries grow
(`median_le`). -/

namespace Chronoq.Foundations

set_option autoImplicit false

/-! ## Columns -/

section Stack
variable {α : Type*} {R : α → α → Prop} {n : ℕ} {row row' : List α} {rows rows' cols cols' : List (List α)}

/-- Each entry of the row goes to the end of its column. -/
def addRow (cols : List (List α)) (row : List α) : List (List α) :=
  List.zipWith (fun col v => col ++ [v]) cols row

def stack (n : ℕ) (rows : List (List α)) : List (List α) :=
  rows.foldl addRow (List.replicate n [])

theorem stack_concat (n : ℕ) (rows : List (List α)) (row : List α) :
    stack n (rows ++ [row]) = addRow (stack n rows) row := List.foldl_concat ..

theorem length_addRow (h : row.length = cols.length) : (addRow cols row).length = cols.length := by
  rw [addRow, List.length_zipWith, h, Nat.min_self]

theorem length_stack (h : ∀ row ∈ rows, row.length = n) : (stack n rows).length = n := by
  induction rows using List.reverseRecOn with
  | nil => exact List.length_replicate
  | append_singleton rows row ih =>
    have hlength := ih fun row hmem => h row (List.mem_append_left _ hmem)
    have hrow := h row (List.mem_append_right _ (List.mem_singleton_self row))
    rw [stack_concat, length_addRow (hrow.trans hlength.symm), hlength]

theorem length_of_mem_stack {col : List α} (h : col ∈ stack n rows) : col.length = rows.length := by
  induction rows using List.reverseRecOn generalizing col with
  | nil =>
    rw [List.eq_of_mem_replicate h]
    rfl
  | append_singleton rows row ih =>
    rw [stack_concat, addRow] at h
    obtain ⟨before, v, hbefore, -, rfl⟩ : ∃ before v, before ∈ stack n rows ∧ v ∈ row ∧
        before ++ [v] = col := by
      obtain ⟨i, hi, heq⟩ := List.getElem_of_mem h
      rw [List.getElem_zipWith] at heq
      exact ⟨_, _, List.getElem_mem _, List.getElem_mem _, heq⟩
    rw [List.length_append, List.length_append, ih hbefore]
    rfl

theorem addRow_forall₂ (hcols : List.Forall₂ (List.Forall₂ R) cols cols')
    (hrow : List.Forall₂ R row row') :
    List.Forall₂ (List.Forall₂ R) (addRow cols row) (addRow cols' row') := by
  induction hcols generalizing row row' with
  | nil => exact .nil
  | cons hcol _ ih =>
    cases hrow with
    | nil => exact .nil
    | cons hv hrow => exact .cons (List.rel_append hcol (.cons hv .nil)) (ih hrow)

/-- Two tables that are related row by row are related column by column. -/
theorem stack_forall₂ (h : List.Forall₂ (List.Forall₂ R) rows rows') :
    List.Forall₂ (List.Forall₂ R) (stack n rows) (stack n rows') := by
  have hempty : List.Forall₂ (List.Forall₂ R) (List.replicate n []) (List.replicate n []) :=
    List.forall₂_same.mpr fun col hmem => by
      rw [List.eq_of_mem_replicate hmem]
      exact .nil
  unfold stack
  generalize List.replicate n [] = cols at hempty
  suffices ∀ cols cols', List.Forall₂ (List.Forall₂ R) cols cols' →
      List.Forall₂ (List.Forall₂ R) (rows.foldl addRow cols) (rows'.foldl addRow cols') from
    this _ _ hempty
  induction h with
  | nil => exact fun _ _ hcols => hcols
  | cons hrow _ ih => exact fun _ _ hcols => ih _ _ (addRow_forall₂ hcols hrow)

theorem pairwise_addRow (hcols : cols.Pairwise (List.Forall₂ R)) (hrow : row.Pairwise R) :
    (addRow cols row).Pairwise (List.Forall₂ R) := by
  induction cols generalizing row with
  | nil => exact .nil
  | cons col cols ih =>
    cases row with
    | nil => exact .nil
    | cons v row =>
      obtain ⟨hcol, hcols⟩ := List.pairwise_cons.mp hcols
      obtain ⟨hv, hrow⟩ := List.pairwise_cons.mp hrow
      refine List.pairwise_cons.mpr ⟨fun later hmem => ?_, ih hcols hrow⟩
      obtain ⟨i, hi, rfl⟩ := List.getElem_of_mem hmem
      rw [List.getElem_zipWith]
      exact List.rel_append (hcol _ (List.getElem_mem _)) (.cons (hv _ (List.getElem_mem _)) .nil)

/-- Along the columns their entries are related as they are along every row. -/
theorem pairwise_stack (h : ∀ row ∈ rows, row.Pairwise R) : (stack n rows).Pairwise (List.Forall₂ R) := by
  induction rows using List.reverseRecOn with
  | nil => exact List.pairwise_replicate.mpr (.inr .nil)
  | append_singleton rows row ih =>
    rw [stack_concat]
    exact pairwise_addRow (ih fun row hmem => h row (List.mem_append_left _ hmem))
      (h row (List.mem_append_right _ (List.mem_singleton_self row)))

end Stack

/-! ## Two lists made of one -/

section Common
variable {α β γ : Type*} {P : α → β → Prop} {Q : α → γ → Prop} {l : List α} {xs : List β} {ys : List γ}

theorem forall₂_of_common {R : β → γ → Prop} (hx : List.Forall₂ P l xs) (hy : List.Forall₂ Q l ys)
    (h : ∀ a ∈ l, ∀ x y, P a x → Q a y → R x y) : List.Forall₂ R xs ys := by
  induction hx generalizing ys with
  | nil =>
    cases hy
    exact .nil
  | cons hhead _ ih =>
    cases hy with
    | cons hhead' htail' =>
      exact .cons (h _ List.mem_cons_self _ _ hhead hhead')
        (ih htail' fun a ha => h a (List.mem_cons_of_mem _ ha))

theorem pairwise_of_forall₂ {S : α → α → Prop} {R : β → β → Prop} (hx : List.Forall₂ P l xs)
    (hl : l.Pairwise S) (h : ∀ a ∈ l, ∀ b, S a b → ∀ x y, P a x → P b y → R x y) : xs.Pairwise R := by
  induction hx with
  | nil => exact .nil
  | @cons a x l xs hhead htail ih =>
    obtain ⟨ha, hl⟩ := List.pairwise_cons.mp hl
    refine List.pairwise_cons.mpr ⟨?_, ih hl fun b hb => h b (List.mem_cons_of_mem _ hb)⟩
    intro y hy
    obtain ⟨i, hi, rfl⟩ := List.getElem_of_mem hy
    have hi' : i < l.length := htail.length_eq ▸ hi
    exact h a List.mem_cons_self _ (ha _ (List.getElem_mem hi')) _ _ hhead (htail.get hi' hi)

end Common

/-! ## Medians -/

section Medians
variable {xs ys : List ℚ}

/-- Smaller values are counted earlier. -/
theorem countP_le_of_forall₂ {α : Type*} [LinearOrder α] {xs ys : List α}
    (h : List.Forall₂ (· ≤ ·) xs ys) (w : α) :
    ys.countP (fun x => x ≤ w) ≤ xs.countP fun x => x ≤ w := by
  induction h with
  | nil => exact le_rfl
  | @cons x y xs ys hxy h ih =>
    rw [List.countP_cons, List.countP_cons]
    apply Nat.add_le_add ih
    by_cases hy : y ≤ w
    · rw [if_pos (by simpa using hy), if_pos (by simpa using hxy.trans hy)]
    · rw [if_neg (by simpa using hy)]
      exact Nat.zero_le _

/-- The middle value of the sorted list, or the mean of the two middle ones. -/
def median (xs : List ℚ) : ℚ :=
  let sorted := xs.insertionSort (· ≤ ·)
  (sorted.getD ((xs.length - 1) / 2) 0 + sorted.getD (xs.length / 2) 0) / 2

theorem getD_insertionSort_le (h : List.Forall₂ (· ≤ ·) xs ys) (i : ℕ) :
    (xs.insertionSort (· ≤ ·)).getD i 0 ≤ (ys.insertionSort (· ≤ ·)).getD i 0 := by
  by_cases hi : i < ys.length
  · have hx : i < (xs.insertionSort (· ≤ ·)).length := by
      rw [List.length_insertionSort, h.length_eq]
      exact hi
    have hy : i < (ys.insertionSort (· ≤ ·)).length := by
      rw [List.length_insertionSort]
      exact hi
    rw [List.getD_eq_getElem _ _ hx, List.getD_eq_getElem _ _ hy]
    rw [← lt_countP_le_iff (List.pairwise_insertionSort _ xs) hx,
      (List.perm_insertionSort _ xs).countP_eq]
    have hcount := (lt_countP_le_iff (List.pairwise_insertionSort _ ys) hy _).mpr le_rfl
    rw [(List.perm_insertionSort _ ys).countP_eq] at hcount
    exact hcount.trans_le (countP_le_of_forall₂ h _)
  · rw [List.getD_eq_default _ _ (by rw [List.length_insertionSort, h.length_eq]; omega),
      List.getD_eq_default _ _ (by rw [List.length_insertionSort]; omega)]

theorem median_le (h : List.Forall₂ (· ≤ ·) xs ys) : median xs ≤ median ys := by
  rw [median, median, h.length_eq]
  have hlow := getD_insertionSort_le h ((ys.length - 1) / 2)
  have hhigh := getD_insertionSort_le h (ys.length / 2)
  linarith

end Medians

end Chronoq.Foundations
