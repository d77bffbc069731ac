import Chronoq.Ranker.RhoBounds

/-! # The order in which the rows are listed

Rho is to depend on the pairs of score and label alone. But ties get different ranks, by position: two
rows with one score and different labels change rho when they change places, and so do two with one
label and different scores (`rankDistance_swap_iff`). Where scores tie exactly where labels do, the ranks
of tied rows move together and every permutation keeps rho. -/

namespace Chronoq.Ranker
open Foundations

set_option autoImplicit false

/-- Two rows have equal scores exactly if they have equal labels. -/
def TiesAgree (rows : List ScoredRow) : Prop := rows.Pairwise fun a b => a.1 = b.1 ↔ a.2 = b.2

instance (rows : List ScoredRow) : Decidable (TiesAgree rows) :=
  inferInstanceAs (Decidable (rows.Pairwise fun a b => a.1 = b.1 ↔ a.2 = b.2))

theorem TiesAgree.perm {rows rows' : List ScoredRow} (h : rows.Perm rows') :
    TiesAgree rows ↔ TiesAgree rows' :=
  h.pairwise_iff fun {a b} hab => by rw [eq_comm, hab, eq_comm]

/-! ## The distance of the two rankings -/

def rankDistance (rows : List ScoredRow) : ℚ :=
  sqDistance (stableRanks (rows.map Prod.fst)) (stableRanks (rows.map Prod.snd))

theorem ranksOf_eq_stableRanks {argsort : List ℚ → List ℕ}
    (h : ∀ xs, IsStableArgsort xs (argsort xs)) (xs : List ℚ) :
    ranksOf argsort xs = stableRanks xs :=
  ranks_eq_stableRanks (f := fun (position : ℕ) => (position : ℚ)) Nat.strictMono_cast (h xs)
    (h _).isArgsort

theorem groupRho_eq {argsort : List ℚ → List ℕ} (h : ∀ xs, IsStableArgsort xs (argsort xs))
    {rows : List ScoredRow} (htwo : 2 ≤ rows.length) :
    groupRho argsort rows = 1 - 6 * rankDistance rows /
      ((rows.length : ℚ) * (rows.length * rows.length - 1)) := by
  have htwo' : 2 ≤ (rows.map Prod.fst).length := by rwa [List.length_map]
  rw [groupRho, spearmanRho_eq argsort _ htwo', ranksOf_eq_stableRanks h, ranksOf_eq_stableRanks h,
    List.length_map]
  rfl

theorem groupRho_eq_iff {argsort : List ℚ → List ℕ} (h : ∀ xs, IsStableArgsort xs (argsort xs))
    {rows rows' : List ScoredRow} (hlength : rows.length = rows'.length) (htwo : 2 ≤ rows.length) :
    groupRho argsort rows = groupRho argsort rows' ↔ rankDistance rows = rankDistance rows' := by
  have hpos := rhoDenominator_pos htwo
  rw [groupRho_eq h htwo, groupRho_eq h (hlength ▸ htwo), ← hlength, sub_right_inj,
    div_left_inj' hpos.ne', mul_right_inj' (by norm_num)]

/-! ## Ties that agree -/

/-- How many more rows have a smaller score than have a smaller label. -/
def rankGap (rows : List ScoredRow) (row : ScoredRow) : ℚ :=
  (rows.countP fun r => r.1 < row.1 : ℕ) - (rows.countP fun r => r.2 < row.2 : ℕ)

theorem rankDistance_eq_of_tiesAgree {rows : List ScoredRow} (h : TiesAgree rows) :
    rankDistance rows = (rows.map fun row => rankGap rows row ^ 2).sum := by
  rw [rankDistance, sqDistance]
  congr 1
  refine List.ext_getElem (by simp [stableRanks]) fun i hi hi' => ?_
  have hi'' : i < rows.length := by simpa using hi'
  -- the rows in front that tie with row `i` are the same for scores and for labels
  have hties : (rows.take i).countP (fun r => r.1 = rows[i].1) =
      (rows.take i).countP fun r => r.2 = rows[i].2 := by
    refine List.countP_congr fun r hr => ?_
    obtain ⟨j, hj, rfl⟩ := List.getElem_of_mem hr
    have hji : j < i := by
      rw [List.length_take] at hj
      omega
    rw [List.getElem_take, decide_eq_true_eq, decide_eq_true_eq]
    exact List.pairwise_iff_getElem.mp h j i _ hi'' hji
  simp only [List.getElem_zipWith, List.getElem_map, stableRanks, List.getElem_mapIdx, stableRank,
    ← List.map_take, List.countP_map, Function.comp_def, hties, rankGap]
  push_cast
  ring

theorem rankDistance_perm_of_tiesAgree {rows rows' : List ScoredRow} (hperm : rows.Perm rows')
    (h : TiesAgree rows) : rankDistance rows = rankDistance rows' := by
  have hgap : rankGap rows = rankGap rows' := by
    funext row
    rw [rankGap, rankGap, hperm.countP_eq, hperm.countP_eq]
  rw [rankDistance_eq_of_tiesAgree h, rankDistance_eq_of_tiesAgree ((TiesAgree.perm hperm).mp h),
    hgap]
  exact (hperm.map _).sum_eq

/-! ## Two rows that change places -/

/-- The difference of the two distances, from the ranks of the two rows alone. -/
theorem rankDistance_swap_iff (a b : ScoredRow) (rest : List ScoredRow) :
    rankDistance (a :: b :: rest) = rankDistance (b :: a :: rest) ↔ (a.1 = b.1 ↔ a.2 = b.2) := by
  have hscore : (a.1 :: b.1 :: rest.map Prod.fst).countP (fun z => z < a.1) =
      (a.1 :: b.1 :: rest.map Prod.fst).countP (fun z => z < b.1) ↔ a.1 = b.1 :=
    countP_lt_inj (by simp) (by simp)
  have hlabel : (a.2 :: b.2 :: rest.map Prod.snd).countP (fun z => z < a.2) =
      (a.2 :: b.2 :: rest.map Prod.snd).countP (fun z => z < b.2) ↔ a.2 = b.2 :=
    countP_lt_inj (by simp) (by simp)
  have hswap (x y : ℚ) (xs : List ℚ) : stableRanks (y :: x :: xs) =
      (x :: y :: xs).countP (fun z => z < y) ::
        ((x :: y :: xs).countP (fun z => z < x) + if x = y then 1 else 0) ::
          xs.mapIdx fun i z => stableRank (x :: y :: xs) (i + 2) z := by
    rw [stableRanks_cons_cons, (List.Perm.swap x y xs).countP_eq, (List.Perm.swap x y xs).countP_eq,
      if_congr eq_comm rfl rfl]
    simp only [stableRank_swap]
  simp only [rankDistance, List.map_cons, hswap a.1 b.1, hswap a.2 b.2]
  rw [stableRanks_cons_cons, stableRanks_cons_cons]
  generalize (a.1 :: b.1 :: rest.map Prod.fst).countP (fun z => z < a.1) = scoreA at hscore ⊢
  generalize (a.1 :: b.1 :: rest.map Prod.fst).countP (fun z => z < b.1) = scoreB at hscore ⊢
  generalize (a.2 :: b.2 :: rest.map Prod.snd).countP (fun z => z < a.2) = labelA at hlabel ⊢
  generalize (a.2 :: b.2 :: rest.map Prod.snd).countP (fun z => z < b.2) = labelB at hlabel ⊢
  simp only [sqDistance, List.zipWith_cons_cons, List.sum_cons]
  by_cases hs : a.1 = b.1
  · by_cases hl : a.2 = b.2
    · rw [hscore.mpr hs, hlabel.mpr hl]
      simp [hs, hl]
    · -- the scores give the two places to the rows in turn, the labels do not
      have hne : (labelA : ℚ) ≠ labelB := fun heq => hl (hlabel.mp (Nat.cast_inj.mp heq))
      rw [hscore.mpr hs, if_pos hs, if_neg hl]
      refine iff_of_false (fun heq => hne ?_) (by simp [hs, hl])
      push_cast at heq
      linear_combination heq / 2
  · by_cases hl : a.2 = b.2
    · have hne : (scoreA : ℚ) ≠ scoreB := fun heq => hs (hscore.mp (Nat.cast_inj.mp heq))
      rw [hlabel.mpr hl, if_neg hs, if_pos hl]
      refine iff_of_false (fun heq => hne ?_) (by simp [hs, hl])
      push_cast at heq
      linear_combination heq / 2
    · rw [if_neg hs, if_neg hl]
      refine iff_of_true ?_ (by simp [hs, hl])
      push_cast
      ring

theorem tiesAgree_of_rankDistance_perm {rows : List ScoredRow}
    (h : ∀ rows', rows'.Perm rows → rankDistance rows' = rankDistance rows) : TiesAgree rows := by
  rw [TiesAgree, List.pairwise_iff_forall_sublist]
  intro a b hsublist
  obtain ⟨rest, hperm⟩ := hsublist.exists_perm_append
  rw [List.cons_append, List.cons_append, List.nil_append] at hperm
  have hfirst := h (a :: b :: rest) hperm.symm
  have hsecond := h (b :: a :: rest) ((List.Perm.swap a b rest).trans hperm.symm)
  exact (rankDistance_swap_iff a b rest).mp (hfirst.trans hsecond.symm)

section Groups
variable {argsort : List ℚ → List ℕ}

/-- Every permutation of the rows keeps rho exactly when their ties agree. -/
theorem groupRho_perm_iff (h : ∀ xs, IsStableArgsort xs (argsort xs)) {rows : List ScoredRow}
    (htwo : 2 ≤ rows.length) :
    (∀ rows', rows'.Perm rows → groupRho argsort rows' = groupRho argsort rows) ↔
      TiesAgree rows := by
  constructor
  · intro hall
    refine tiesAgree_of_rankDistance_perm fun rows' hperm => ?_
    have htwo' : 2 ≤ rows'.length := by rwa [hperm.length_eq]
    exact (groupRho_eq_iff h hperm.length_eq htwo').mp (hall rows' hperm)
  · intro hties rows' hperm
    have htwo' : 2 ≤ rows'.length := by rwa [hperm.length_eq]
    rw [groupRho_eq_iff h hperm.length_eq htwo']
    exact (rankDistance_perm_of_tiesAgree hperm.symm hties).symm

variable {scores labels : List ℚ} {groupSizes : List ℕ} {groups : List (List ScoredRow)}

theorem scoredGroups_flatten (h : groups.map List.length = groupSizes) :
    scoredGroups (groups.flatten.map Prod.fst) (groups.flatten.map Prod.snd) groupSizes = groups := by
  rw [scoredGroups, List.zip_map', List.map_id', ← h]
  exact groupSlices_flatten groups

/-- The grouped rho of groups laid out one after another. -/
theorem spearmanRhoGrouped_flatten (argsort : List ℚ → List ℕ)
    (h : groups.map List.length = groupSizes) :
    spearmanRhoGrouped argsort (groups.flatten.map Prod.fst) (groups.flatten.map Prod.snd)
        groupSizes =
      mean ((groups.filter fun rows => 2 ≤ rows.length).map (groupRho argsort)) := by
  have hlength : groupSizes.sum ≤ groups.flatten.length := by rw [List.length_flatten, h]
  rw [spearmanRhoGrouped_eq argsort (by rwa [List.length_map]) (by rwa [List.length_map]),
    scoredGroups_flatten h]

theorem map_length_of_perm {groups' : List (List ScoredRow)}
    (h : List.Forall₂ List.Perm groups' groups) : groups'.map List.length = groups.map List.length := by
  induction h with
  | nil => rfl
  | cons hrows _ ih => rw [List.map_cons, List.map_cons, hrows.length_eq, ih]

theorem map_groupRho_of_tiesAgree (h : ∀ xs, IsStableArgsort xs (argsort xs))
    {groups' : List (List ScoredRow)} (hperm : List.Forall₂ List.Perm groups' groups)
    (hties : ∀ rows ∈ groups, TiesAgree rows) :
    (groups'.filter fun rows => 2 ≤ rows.length).map (groupRho argsort) =
      (groups.filter fun rows => 2 ≤ rows.length).map (groupRho argsort) := by
  induction hperm with
  | nil => rfl
  | cons hrows _ ih =>
    obtain ⟨hhead, hrest⟩ := List.forall_mem_cons.mp hties
    rw [List.filter_cons, List.filter_cons, hrows.length_eq]
    split
    · next htwo =>
      rw [List.map_cons, List.map_cons, ih hrest,
        (groupRho_perm_iff h (of_decide_eq_true htwo)).mpr hhead _ hrows]
    · exact ih hrest

/-- Permutations inside the groups keep the mean rho exactly when the ties of every group agree. -/
theorem mean_groupRho_perm_iff (h : ∀ xs, IsStableArgsort xs (argsort xs))
    (groups : List (List ScoredRow)) :
    (∀ groups', List.Forall₂ List.Perm groups' groups →
        mean ((groups'.filter fun rows => 2 ≤ rows.length).map (groupRho argsort)) =
          mean ((groups.filter fun rows => 2 ≤ rows.length).map (groupRho argsort))) ↔
      ∀ rows ∈ groups, TiesAgree rows := by
  constructor
  · intro hall rows hrows
    by_cases htwo : 2 ≤ rows.length
    · refine (groupRho_perm_iff h htwo).mp fun rows' hperm => ?_
      obtain ⟨before, after, rfl⟩ := List.append_of_mem hrows
      have hrefl : ∀ l : List (List ScoredRow), List.Forall₂ List.Perm l l := fun l =>
        List.forall₂_same.mpr fun rows _ => List.Perm.refl rows
      -- permute this group only
      have hmean := hall (before ++ rows' :: after)
        (List.rel_append (hrefl before) (.cons hperm (hrefl after)))
      have htwo' : 2 ≤ rows'.length := by rwa [hperm.length_eq]
      simp only [List.filter_append, List.filter_cons, decide_eq_true htwo, decide_eq_true htwo',
        if_true, List.map_append, List.map_cons, mean_append_cons_inj] at hmean
      exact hmean
    · exact pairwise_of_length_lt_two htwo
  · intro hties groups' hperm
    rw [map_groupRho_of_tiesAgree h hperm hties]

/-- Rho is kept by every permutation of the rows exactly when scores tie where labels do; and the grouped
rho by every permutation inside the groups exactly when that is so in every group. -/
theorem spearman_order_free_iff (h : ∀ xs, IsStableArgsort xs (argsort xs)) :
    (∀ scores labels : List ℚ, scores.length = labels.length → 2 ≤ scores.length →
        ((∀ rows : List ScoredRow, rows.Perm (scores.zip labels) →
            spearmanRho argsort (rows.map Prod.fst) (rows.map Prod.snd) =
              spearmanRho argsort scores labels) ↔
          TiesAgree (scores.zip labels))) ∧
      ∀ (scores labels : List ℚ) (groupSizes : List ℕ), scores.length = groupSizes.sum →
        labels.length = groupSizes.sum →
        ((∀ groups, List.Forall₂ List.Perm groups (scoredGroups scores labels groupSizes) →
            spearmanRhoGrouped argsort (groups.flatten.map Prod.fst) (groups.flatten.map Prod.snd)
                groupSizes =
              spearmanRhoGrouped argsort scores labels groupSizes) ↔
          ∀ rows ∈ scoredGroups scores labels groupSizes, TiesAgree rows) := by
  constructor
  · intro scores labels hlength htwo
    have htwo' : 2 ≤ (scores.zip labels).length := by
      rw [List.length_zip]
      omega
    have hrho : spearmanRho argsort scores labels = groupRho argsort (scores.zip labels) := by
      rw [groupRho, List.map_fst_zip hlength.le, List.map_snd_zip hlength.ge]
    rw [hrho]
    exact groupRho_perm_iff h htwo'
  · intro scores labels groupSizes hs hl
    have hzip : groupSizes.sum ≤ (scores.zip labels).length := by
      rw [List.length_zip]
      omega
    have hlengths : (scoredGroups scores labels groupSizes).map List.length = groupSizes :=
      map_length_groupSlices hzip
    rw [← mean_groupRho_perm_iff h, spearmanRhoGrouped_eq argsort hs.ge hl.ge]
    refine forall₂_congr fun groups hperm => ?_
    rw [spearmanRhoGrouped_flatten argsort ((map_length_of_perm hperm).trans hlengths)]

end Groups

/-! ## Two rows with one label -/

theorem spearman_order_free_iff_two_rows :
    (∀ rows : List ScoredRow, rows.Perm ([2, 1].zip [0, 0]) →
        spearmanRho sortPositions (rows.map Prod.fst) (rows.map Prod.snd) =
          spearmanRho sortPositions [2, 1] [0, 0]) ↔
      TiesAgree ([2, 1].zip [0, 0]) :=
  (spearman_order_free_iff sortPositions_stable).1 [2, 1] [0, 0] rfl le_rfl

/-- Two rows with one label and scores `2` and `1`: rho is `-1`, and `1` in the other order. -/
theorem tied_labels_turn_rho :
    ¬ ∀ scores labels : List ℚ, scores.length = labels.length → 2 ≤ scores.length →
      ∀ rows : List ScoredRow, rows.Perm (scores.zip labels) →
        spearmanRho sortPositions (rows.map Prod.fst) (rows.map Prod.snd) =
          spearmanRho sortPositions scores labels := by
  intro hall
  have hsame := hall [2, 1] [0, 0] rfl le_rfl [(1, 0), (2, 0)] (List.Perm.swap _ _ _)
  have hrho : spearmanRho sortPositions [2, 1] [0, 0] = -1 := by decide +kernel
  have hrho' : spearmanRho sortPositions [1, 2] [0, 0] = 1 := by decide +kernel
  simp only [List.map_cons, List.map_nil] at hsame
  rw [hrho, hrho'] at hsame
  norm_num at hsame

end Chronoq.Ranker
