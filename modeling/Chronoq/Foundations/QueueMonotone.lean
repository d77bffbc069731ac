import Chronoq.Foundations.Schedule

/-! # The recursion of Kiefer and Wolfowitz is monotone

Tasks that come in a fixed order wait no less where they come in quicker succession, take longer, or have
fewer servers. What is carried from task to task is `Ahead`: at any time after its arrival the task finds
at least as many servers free here as it finds there. -/

namespace Chronoq.Foundations

set_option autoImplicit false

variable {α K : Type*} [Field K] [LinearOrder K] [IsStrictOrderedRing K]
  {free free' rest rest' : List K} {a a' b b' e e' : K}

/-- After `a` as many of the `free` servers are free as of the `free'` servers the same time after `a'`. -/
def Ahead (free : List K) (a : K) (free' : List K) (a' : K) : Prop :=
  ∀ t, 0 ≤ t → free'.countP (fun w => w ≤ a' + t) ≤ free.countP fun w => w ≤ a + t

theorem ahead_replicate {n m : ℕ} (h : m ≤ n) (ha : 0 ≤ a) :
    Ahead (List.replicate n 0) a (List.replicate m 0) a' := by
  intro t ht
  have hfree : (List.replicate n (0 : K)).countP (fun w => w ≤ a + t) = n := by
    rw [List.countP_replicate, if_pos (by simpa using add_nonneg ha ht)]
  rw [hfree]
  apply List.countP_le_length.trans
  rwa [List.length_replicate]

namespace Ahead

/-- The first of the servers is free no later. -/
theorem least_le (h : Ahead free a free' a') (hleast : extractLeast id free = some (e, rest))
    (hleast' : extractLeast id free' = some (e', rest')) : max a e - a ≤ max a' e' - a' := by
  have ht : 0 ≤ max a' e' - a' := sub_nonneg.mpr (le_max_left _ _)
  have hpos' : 0 < free'.countP fun w => w ≤ a' + (max a' e' - a') := by
    apply List.countP_pos_iff.mpr
    refine ⟨e', extractLeast_mem id hleast', ?_⟩
    simp
  obtain ⟨w, hw, hle⟩ := List.countP_pos_iff.mp (hpos'.trans_le (h _ ht))
  have hew : e ≤ w := extractLeast_le id hleast w hw
  have hwt : w ≤ a + (max a' e' - a') := of_decide_eq_true hle
  rw [sub_le_iff_le_add']
  exact max_le (le_add_of_nonneg_right ht) (hew.trans hwt)

/-- The server that is free first takes a task that is no longer here than there. -/
theorem serve (h : Ahead free a free' a') (hleast : extractLeast id free = some (e, rest))
    (hleast' : extractLeast id free' = some (e', rest')) {length length' : K} (hpos : 0 ≤ length')
    (hlength : length ≤ length') :
    Ahead ((max a e + length) :: rest) a ((max a' e' + length') :: rest') a' := by
  intro t ht
  have hwait := h.least_le hleast hleast'
  have hcount := h t ht
  rw [(extractLeast_perm id hleast).countP_eq, (extractLeast_perm id hleast').countP_eq,
    List.countP_cons, List.countP_cons] at hcount
  rw [List.countP_cons, List.countP_cons]
  by_cases hlate : a' + t < e'
  · -- none of the servers is free, nor is the one that takes the task
    have hrest : rest'.countP (fun w => w ≤ a' + t) = 0 := by
      apply List.countP_eq_zero.mpr
      intro w hw
      have hew : e' ≤ w :=
        extractLeast_le id hleast' w ((extractLeast_perm id hleast').symm.subset (by simp [hw]))
      simpa using hlate.trans_le hew
    have hself : ¬ max a' e' + length' ≤ a' + t := by
      have hmax := le_max_right a' e'
      linarith
    rw [hrest, if_neg (by simpa using hself)]
    exact Nat.zero_le _
  · have hearly : e' ≤ a' + t := not_lt.mp hlate
    rw [if_pos (by simpa using hearly)] at hcount
    have hdone : max a' e' + length' ≤ a' + t → max a e + length ≤ a + t := by
      intro hle
      linarith
    by_cases hself : max a' e' + length' ≤ a' + t
    · rw [if_pos (by simpa using hself), if_pos (by simpa using hdone hself)]
      split at hcount <;> omega
    · rw [if_neg (by simpa using hself)]
      split at hcount <;> omega

/-- The next task comes no sooner here than there. -/
theorem later (h : Ahead free a free' a') (hle : a' ≤ b') (hgap : b' - a' ≤ b - a) :
    Ahead free b free' b' := by
  intro t ht
  have hcount := h (t + (b' - a')) (add_nonneg ht (sub_nonneg.mpr hle))
  have hshift : a' + (t + (b' - a')) = b' + t := by ring
  rw [hshift] at hcount
  refine hcount.trans (List.countP_mono_left fun w _ hw => ?_)
  rw [decide_eq_true_eq] at hw ⊢
  linarith

end Ahead

/-- The tasks wait no less in the second of the two recursions, if they come in quicker succession
there, take longer, and find no more servers free at first. -/
theorem kieferWolfowitz_forall₂ {arrival arrival' length length' : α → K} {as : List α}
    (hgap : as.Pairwise fun x y => arrival' x ≤ arrival' y ∧
      arrival' y - arrival' x ≤ arrival y - arrival x)
    (hlength : ∀ x ∈ as, 0 ≤ length' x ∧ length x ≤ length' x) (hfree : free ≠ [])
    (hfree' : free' ≠ []) (hahead : ∀ x ∈ as.head?, Ahead free (arrival x) free' (arrival' x)) :
    List.Forall₂ (fun (s s' : α × K) => s.1 = s'.1 ∧ s.2 - arrival s.1 ≤ s'.2 - arrival' s'.1)
      (kieferWolfowitz arrival length free as) (kieferWolfowitz arrival' length' free' as) := by
  induction as generalizing free free' with
  | nil => exact List.Forall₂.nil
  | cons x as ih =>
    obtain ⟨hfirst, hgap⟩ := List.pairwise_cons.mp hgap
    have hx := hahead x rfl
    obtain ⟨hpos, hlong⟩ := hlength x List.mem_cons_self
    cases hleast : extractLeast id free with
    | none => exact absurd ((extractLeast_eq_none_iff id).mp hleast) hfree
    | some least =>
      obtain ⟨e, rest⟩ := least
      cases hleast' : extractLeast id free' with
      | none => exact absurd ((extractLeast_eq_none_iff id).mp hleast') hfree'
      | some least' =>
        obtain ⟨e', rest'⟩ := least'
        rw [kieferWolfowitz, kieferWolfowitz, hleast, hleast']
        apply List.Forall₂.cons
        · exact ⟨rfl, hx.least_le hleast hleast'⟩
        · apply ih hgap (fun y hy => hlength y (List.mem_cons_of_mem _ hy)) (by simp) (by simp)
          intro y hy
          obtain ⟨hle, hsub⟩ := hfirst y (List.mem_of_mem_head? hy)
          exact (hx.serve hleast hleast' hpos hlong).later hle hsub

omit [IsStrictOrderedRing K] in
theorem map_fst_kieferWolfowitz (arrival length : α → K) {as : List α} (hfree : free ≠ []) :
    (kieferWolfowitz arrival length free as).map Prod.fst = as := by
  induction as generalizing free with
  | nil => rfl
  | cons x as ih =>
    rw [kieferWolfowitz]
    cases hleast : extractLeast id free with
    | none => exact absurd ((extractLeast_eq_none_iff id).mp hleast) hfree
    | some least =>
      dsimp only
      rw [List.map_cons, ih (by simp)]

omit [IsStrictOrderedRing K] in
/-- The recursion does not see what the tasks are. -/
theorem kieferWolfowitz_map {β : Type*} (arrival length : β → K) (f : α → β) (free : List K)
    (as : List α) : kieferWolfowitz arrival length free (as.map f) =
      (kieferWolfowitz (arrival ∘ f) (length ∘ f) free as).map fun s => (f s.1, s.2) := by
  induction as generalizing free with
  | nil => rfl
  | cons x as ih =>
    rw [List.map_cons, kieferWolfowitz, kieferWolfowitz]
    cases extractLeast id free with
    | none => rfl
    | some least =>
      dsimp only
      rw [ih]
      rfl

end Chronoq.Foundations
