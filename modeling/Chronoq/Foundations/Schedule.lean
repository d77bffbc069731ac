import Chronoq.Foundations.Selection

/-! # Schedules without preemption

A schedule is a list of tasks with their start times, in the order in which they are started. It runs on
`n` servers and leaves none of them idle while a task that has arrived is not started.

* `Schedule.starts_late`: on one server a task starts when the one before it is finished, unless every
  task that has arrived is done.
* `busy_iff`: on one server the busy times depend on the arrivals and lengths only.
* `take_sum_le`, `sum_finish_le`: taking the shortest task first, among those of some prefix of the
  arrivals, makes the sum of the finish times least.
* `kieferWolfowitz`: the recursion on the times at which the servers become free;
  `Schedule.eq_kieferWolfowitz`. -/

namespace Chronoq.Foundations

set_option autoImplicit false

/-! ## Lists whose elements are judged by those before them -/

section Past
variable {α : Type*}

/-- `P before a` for every element `a` of the list and the elements `before` it. -/
def EachWithPast (P : List α → α → Prop) (l : List α) : Prop :=
  ∀ before a after, l = before ++ a :: after → P before a

theorem eachWithPast_nil {P : List α → α → Prop} : EachWithPast P [] := by
  intro before a after h
  simp at h

theorem EachWithPast.concat {P : List α → α → Prop} {l : List α} {a : α} (h : EachWithPast P l)
    (ha : P l a) : EachWithPast P (l ++ [a]) := by
  intro before b after hsplit
  rcases List.eq_nil_or_concat' after with rfl | ⟨after, c, rfl⟩
  · obtain ⟨rfl, hlast⟩ := List.append_inj' hsplit rfl
    cases hlast
    exact ha
  · have hinit : l ++ [a] = (before ++ b :: after) ++ [c] := by simpa using hsplit
    exact h before b after (List.append_inj_left' hinit rfl)

theorem EachWithPast.imp {P Q : List α → α → Prop} {l : List α} (h : EachWithPast P l)
    (hPQ : ∀ before a, P before a → Q before a) : EachWithPast Q l :=
  fun before a after hsplit => hPQ before a (h before a after hsplit)

theorem EachWithPast.map {β : Type*} {P : List β → β → Prop} {f : α → β} {l : List α}
    (h : EachWithPast (fun before a => P (before.map f) (f a)) l) : EachWithPast P (l.map f) := by
  intro before b after hsplit
  obtain ⟨before, rest, rfl, rfl, hrest⟩ := List.map_eq_append_iff.mp hsplit
  obtain ⟨a, after, rfl, rfl, -⟩ := List.map_eq_cons_iff.mp hrest
  exact h before a after rfl

theorem eq_filter_append_filter {κ : Type*} [LinearOrder κ] {key : α → κ} {as : List α}
    (has : as.Pairwise fun a b => key a ≤ key b) (t : κ) :
    as = as.filter (fun a => key a < t) ++ as.filter fun a => t ≤ key a := by
  induction as with
  | nil => rfl
  | cons a as ih =>
    obtain ⟨ha, has⟩ := List.pairwise_cons.mp has
    by_cases hlt : key a < t
    · rw [List.filter_cons_of_pos (by simpa using hlt),
        List.filter_cons_of_neg (by simpa using hlt), List.cons_append, ← ih has]
    · have hnone : as.filter (fun a => key a < t) = [] := by
        refine List.filter_eq_nil_iff.mpr fun b hb => ?_
        simpa using (not_lt.mp hlt).trans (ha b hb)
      have hall : as.filter (fun a => t ≤ key a) = as := by
        refine List.filter_eq_self.mpr fun b hb => ?_
        simpa using (not_lt.mp hlt).trans (ha b hb)
      rw [List.filter_cons_of_neg (by simpa using hlt), hnone, List.nil_append,
        List.filter_cons_of_pos (by simpa using hlt), hall]

end Past

/-! ## Schedules -/

variable {α K : Type*} [Field K] [LinearOrder K] (arrival length : α → K)

/-- The started task `s.1` runs at time `t`. -/
def RunsAt (t : K) (s : α × K) : Prop := s.2 ≤ t ∧ t < s.2 + length s.1

instance (t : K) : DecidablePred (RunsAt length t) := fun _ => inferInstanceAs (Decidable (_ ∧ _))

structure Schedule (n : ℕ) (l : List (α × K)) : Prop where
  inOrder : l.Pairwise fun s s' => s.2 ≤ s'.2
  positive : ∀ s ∈ l, 0 < length s.1
  arrived : ∀ s ∈ l, arrival s.1 ≤ s.2
  parallel : ∀ t, l.countP (RunsAt length t) ≤ n
  conserving : ∀ s ∈ l, ∀ t, arrival s.1 ≤ t → t < s.2 → n ≤ l.countP (RunsAt length t)

def Busy (l : List (α × K)) (t : K) : Prop := ∃ s ∈ l, RunsAt length t s

/-- The tasks of `l` that have arrived by `t`, from `u` on, take this long. -/
def work (l : List α) (u t : K) : K :=
  ((l.filter fun a => u ≤ arrival a ∧ arrival a ≤ t).map length).sum

variable {arrival length} {n : ℕ} {l l' before after : List (α × K)} {s : α × K}

namespace Schedule

theorem finish_le_of_sequential (hseq : l.Pairwise fun s s' => s.2 + length s.1 ≤ s'.2)
    (hsplit : l = before ++ s :: after) : ∀ b ∈ before, b.2 + length b.1 ≤ s.2 := by
  rw [hsplit, List.pairwise_append] at hseq
  exact fun b hb => hseq.2.2 b hb s List.mem_cons_self

theorem start_le_of_mem_after (h : Schedule arrival length n l) (hsplit : l = before ++ s :: after) :
    ∀ a ∈ s :: after, s.2 ≤ a.2 := by
  have horder := h.inOrder
  rw [hsplit, List.pairwise_append] at horder
  intro a ha
  rcases List.mem_cons.mp ha with rfl | ha
  · exact le_rfl
  · exact (List.pairwise_cons.mp horder.2.1).1 a ha

/-- What runs before a task starts was started before it. -/
theorem countP_runsAt (h : Schedule arrival length n l) (hsplit : l = before ++ s :: after) {t : K}
    (ht : t < s.2) : l.countP (RunsAt length t) = before.countP (RunsAt length t) := by
  have hafter : (s :: after).countP (RunsAt length t) = 0 := by
    refine List.countP_eq_zero.mpr fun a ha => ?_
    have hle := h.start_le_of_mem_after hsplit a ha
    simpa using fun hruns : RunsAt length t a => absurd (hruns.1.trans_lt ht) (not_lt.mpr hle)
  rw [hsplit, List.countP_append, hafter, Nat.add_zero]

theorem work_map_fst (u t : K) : work arrival length (l.map Prod.fst) u t =
    ((l.filter fun s => u ≤ arrival s.1 ∧ arrival s.1 ≤ t).map fun s => length s.1).sum := by
  rw [work, List.filter_map, List.map_map]
  rfl

theorem congr {arrival' : α → K} (h : Schedule arrival length n l)
    (heq : ∀ s ∈ l, arrival s.1 = arrival' s.1) : Schedule arrival' length n l where
  inOrder := h.inOrder
  positive := h.positive
  arrived := fun s hs => heq s hs ▸ h.arrived s hs
  parallel := h.parallel
  conserving := fun s hs t hle => h.conserving s hs t (heq s hs ▸ hle)

/-! ### One server -/

variable [IsStrictOrderedRing K]

theorem sequential (h : Schedule arrival length 1 l) :
    l.Pairwise fun s s' => s.2 + length s.1 ≤ s'.2 := by
  have horder := h.inOrder
  rw [List.pairwise_iff_forall_sublist] at horder ⊢
  intro s s' hsub
  by_contra hlt
  have hmem : s' ∈ l := hsub.subset (List.mem_cons_of_mem _ (List.mem_singleton_self _))
  have hpos := h.positive s' hmem
  have hs : RunsAt length s'.2 s := ⟨horder hsub, not_le.mp hlt⟩
  have hs' : RunsAt length s'.2 s' := ⟨le_rfl, by linarith⟩
  have hcount := (hsub.countP_le (p := RunsAt length s'.2)).trans (h.parallel s'.2)
  rw [List.countP_cons, List.countP_singleton] at hcount
  simp [hs, hs'] at hcount

/-- A task starts when the one before it is finished, unless whatever is left arrives later. -/
theorem starts_late (h : Schedule arrival length 1 l) (hsplit : l = before ++ s :: after) :
    (∃ before' b, before = before' ++ [b] ∧ s.2 = b.2 + length b.1) ∨
      ∀ a ∈ s :: after, s.2 ≤ arrival a.1 := by
  rcases List.eq_nil_or_concat' before with rfl | ⟨before', b, rfl⟩
  · right
    intro a ha
    by_contra hlt
    have hmem : a ∈ l := hsplit ▸ ha
    have hstart := h.start_le_of_mem_after hsplit a ha
    have hbusy := h.conserving a hmem (arrival a.1) le_rfl ((not_le.mp hlt).trans_le hstart)
    rw [h.countP_runsAt hsplit (not_le.mp hlt), List.countP_nil] at hbusy
    omega
  · by_cases hnext : s.2 = b.2 + length b.1
    · exact .inl ⟨before', b, rfl, hnext⟩
    · right
      intro a ha
      by_contra hlt
      have hfinish := finish_le_of_sequential h.sequential hsplit
      have hlast : ∀ c ∈ before' ++ [b], c.2 + length c.1 ≤ b.2 + length b.1 := by
        intro c hc
        rcases List.mem_append.mp hc with hc | hc
        · have hsplit' : l = before' ++ b :: s :: after := by rw [hsplit, List.append_assoc]; rfl
          have hle := finish_le_of_sequential h.sequential hsplit' c hc
          have hpos := h.positive b (by rw [hsplit']; simp)
          linarith
        · rw [List.mem_singleton.mp hc]
      -- between the end of the last task and the next start nobody runs
      have hgap : max (arrival a.1) (b.2 + length b.1) < s.2 :=
        max_lt (not_le.mp hlt) (lt_of_le_of_ne (hfinish b (by simp)) (Ne.symm hnext))
      have hmem : a ∈ l := hsplit ▸ List.mem_append_right _ ha
      have hbusy := h.conserving a hmem _ (le_max_left _ _)
        (hgap.trans_le (h.start_le_of_mem_after hsplit a ha))
      rw [h.countP_runsAt hsplit hgap] at hbusy
      obtain ⟨c, hc, hruns⟩ := List.countP_pos_iff.mp (Nat.lt_of_lt_of_le Nat.zero_lt_one hbusy)
      have hover := (hlast c hc).trans (le_max_right (arrival a.1) (b.2 + length b.1))
      exact absurd (of_decide_eq_true hruns).2 (not_lt.mpr hover)

/-- Since the beginning `u` of its busy period nothing but the tasks before `s` has run. -/
theorem exists_busy_since (h : Schedule arrival length 1 l) (hsplit : l = before ++ s :: after) :
    ∃ u ≤ s.2, (∀ a ∈ s :: after, u ≤ arrival a.1) ∧
      s.2 - u ≤ ((before.filter fun b => u ≤ arrival b.1).map fun b => length b.1).sum := by
  induction before using List.reverseRecOn generalizing s after with
  | nil =>
    rcases h.starts_late hsplit with ⟨before', b, hnil, -⟩ | hlater
    · simp at hnil
    · exact ⟨s.2, le_rfl, hlater, by simp⟩
  | append_singleton before' b ih =>
    rcases h.starts_late hsplit with ⟨before'', b', hbefore, hnext⟩ | hlater
    · obtain ⟨rfl, hb⟩ := List.append_inj' hbefore rfl
      cases hb
      have hsplit' : l = before' ++ b :: s :: after := by rw [hsplit, List.append_assoc]; rfl
      obtain ⟨u, hu, hlater, hsum⟩ := ih hsplit'
      have hpos := h.positive b (by rw [hsplit']; simp)
      refine ⟨u, by linarith, fun a ha => hlater a (List.mem_cons_of_mem _ ha), ?_⟩
      have hb : (decide (u ≤ arrival b.1)) = true := decide_eq_true (hlater b List.mem_cons_self)
      rw [List.filter_append, List.filter_singleton, hb, List.map_append, List.sum_append]
      simp only [List.map_cons, List.map_nil, List.sum_singleton, cond_true]
      linarith
    · refine ⟨s.2, le_rfl, hlater, ?_⟩
      rw [sub_self]
      refine List.sum_nonneg fun x hx => ?_
      obtain ⟨b', hb', rfl⟩ := List.mem_map.mp hx
      have hmem : b' ∈ l := hsplit ▸ List.mem_append_left _ (List.mem_filter.mp hb').1
      exact (h.positive b' hmem).le

theorem sum_length_le (hseq : l.Pairwise fun s s' => s.2 + length s.1 ≤ s'.2) {u t : K} (hut : u ≤ t)
    (hinside : ∀ s ∈ l, u ≤ s.2 ∧ s.2 + length s.1 ≤ t) :
    (l.map fun s => length s.1).sum ≤ t - u := by
  induction l generalizing u with
  | nil => simpa using hut
  | cons s l ih =>
    obtain ⟨hs, hseq⟩ := List.pairwise_cons.mp hseq
    obtain ⟨hstart, hend⟩ := hinside s List.mem_cons_self
    have hrest := ih hseq hend fun s' hs' =>
      ⟨hs s' hs', (hinside s' (List.mem_cons_of_mem _ hs')).2⟩
    rw [List.map_cons, List.sum_cons]
    linarith

/-- The server is busy exactly when, since some time, more work has arrived than could be done. -/
theorem busy_iff (h : Schedule arrival length 1 l) (t : K) :
    Busy length l t ↔ ∃ u ≤ t, t - u < work arrival length (l.map Prod.fst) u t := by
  constructor
  · rintro ⟨s, hs, hstart, hend⟩
    obtain ⟨before, after, hsplit⟩ := List.append_of_mem hs
    obtain ⟨u, hu, hlater, hsum⟩ := h.exists_busy_since hsplit
    refine ⟨u, hu.trans hstart, ?_⟩
    rw [work_map_fst, hsplit, List.filter_append, List.map_append, List.sum_append]
    -- the tasks before `s` and `s` itself have arrived
    have hbefore : (before.filter fun b => u ≤ arrival b.1 ∧ arrival b.1 ≤ t) =
        before.filter fun b => u ≤ arrival b.1 := by
      refine List.filter_congr fun b hb => ?_
      have hmem : b ∈ l := by rw [hsplit]; exact List.mem_append_left _ hb
      have horder := h.inOrder
      rw [hsplit, List.pairwise_append] at horder
      have hle := (h.arrived b hmem).trans
        ((horder.2.2 b hb s List.mem_cons_self).trans hstart)
      simp [hle]
    have hs' : (decide (u ≤ arrival s.1 ∧ arrival s.1 ≤ t)) = true :=
      decide_eq_true ⟨hlater s List.mem_cons_self, (h.arrived s hs).trans hstart⟩
    have hafter : 0 ≤ ((after.filter fun b => u ≤ arrival b.1 ∧ arrival b.1 ≤ t).map
        fun b => length b.1).sum := by
      refine List.sum_nonneg fun x hx => ?_
      obtain ⟨a, ha, rfl⟩ := List.mem_map.mp hx
      have hmem : a ∈ l := by
        rw [hsplit]
        exact List.mem_append_right _ (List.mem_cons_of_mem _ (List.mem_filter.mp ha).1)
      exact (h.positive a hmem).le
    rw [hbefore, List.filter_cons, hs', if_pos rfl, List.map_cons, List.sum_cons]
    linarith
  · rintro ⟨u, hu, hmore⟩
    by_contra hidle
    refine absurd hmore (not_lt.mpr ?_)
    rw [work_map_fst]
    refine sum_length_le (h.sequential.sublist List.filter_sublist) hu fun s hs => ?_
    obtain ⟨hmem, harr⟩ := List.mem_filter.mp hs
    obtain ⟨hfrom, hby⟩ := of_decide_eq_true harr
    refine ⟨hfrom.trans (h.arrived s hmem), ?_⟩
    have hstarted : s.2 ≤ t := by
      by_contra hlt
      have hbusy := h.conserving s hmem t hby (not_le.mp hlt)
      obtain ⟨c, hc, hruns⟩ := List.countP_pos_iff.mp (Nat.lt_of_lt_of_le Nat.zero_lt_one hbusy)
      exact hidle ⟨c, hc, of_decide_eq_true hruns⟩
    by_contra hlt
    exact hidle ⟨s, hmem, hstarted, not_le.mp hlt⟩

/-- Two schedules of the same tasks on one server are busy at the same times. -/
theorem busy_congr (h : Schedule arrival length 1 l) (h' : Schedule arrival length 1 l')
    (hperm : (l.map Prod.fst).Perm (l'.map Prod.fst)) (t : K) :
    Busy length l t ↔ Busy length l' t := by
  rw [h.busy_iff, h'.busy_iff]
  refine exists_congr fun u => and_congr_right fun _ => ?_
  rw [work, work, ((hperm.filter _).map length).sum_eq]

/-! ### The order of service -/

/-- Before an idle time the first arrivals are served, whatever the order of service is. -/
theorem filter_arrival_lt (h : Schedule arrival length 1 l) (hsplit : l = before ++ s :: after)
    (hlater : ∀ a ∈ s :: after, s.2 ≤ arrival a.1) :
    (l.map Prod.fst).filter (fun a => arrival a < s.2) = before.map Prod.fst := by
  have hfirst : (before.map Prod.fst).filter (fun a => arrival a < s.2) = before.map Prod.fst := by
    refine List.filter_eq_self.mpr fun a ha => ?_
    obtain ⟨b, hb, rfl⟩ := List.mem_map.mp ha
    have hmem : b ∈ l := hsplit ▸ List.mem_append_left _ hb
    have harr := h.arrived b hmem
    have hpos := h.positive b hmem
    have hfinish := finish_le_of_sequential h.sequential hsplit b hb
    exact decide_eq_true (by linarith)
  have hrest : ((s :: after).map Prod.fst).filter (fun a => arrival a < s.2) = [] := by
    refine List.filter_eq_nil_iff.mpr fun a ha => ?_
    obtain ⟨b, hb, rfl⟩ := List.mem_map.mp ha
    simpa using hlater b hb
  rw [hsplit, List.map_append, List.filter_append, hfirst, hrest, List.append_nil]

section TwoSchedules
variable {before' after' : List (α × K)} {s' : α × K}

theorem start_sub_le_of_idle (h : Schedule arrival length 1 l) (h' : Schedule arrival length 1 l')
    (hperm : (l.map Prod.fst).Perm (l'.map Prod.fst))
    (harr : (l'.map Prod.fst).Pairwise fun a b => arrival a ≤ arrival b)
    (hlen : before.length = before'.length) (hsplit : l = before ++ s :: after)
    (hsplit' : l' = before' ++ s' :: after') (hlater : ∀ a ∈ s :: after, s.2 ≤ arrival a.1) :
    s.2 - (before.map fun b => length b.1).sum ≤ s'.2 - (before'.map fun b => length b.1).sum := by
  have hfirst := (hperm.filter fun a => arrival a < s.2).symm
  rw [h.filter_arrival_lt hsplit hlater] at hfirst
  have hcut := eq_filter_append_filter harr s.2
  have htasks : l'.map Prod.fst = before'.map Prod.fst ++ s'.1 :: after'.map Prod.fst := by
    rw [hsplit', List.map_append, List.map_cons]
  rw [htasks] at hcut
  obtain ⟨hbefore, hafter⟩ := List.append_inj hcut (by
    rw [← htasks, hfirst.length_eq, List.length_map, List.length_map, hlen])
  rw [← htasks] at hbefore hafter
  have hsum : (before'.map fun b => length b.1).sum = (before.map fun b => length b.1).sum := by
    have hlengths := (hfirst.map length).sum_eq
    rw [← hbefore, List.map_map, List.map_map] at hlengths
    exact hlengths
  have hlate : s.2 ≤ arrival s'.1 := by
    have hmem : s'.1 ∈ (l'.map Prod.fst).filter fun a => s.2 ≤ arrival a := by
      rw [← hafter]
      exact List.mem_cons_self
    exact of_decide_eq_true (List.mem_filter.mp hmem).2
  have hstart := h'.arrived s' (by rw [hsplit']; simp)
  linarith

/-- No schedule comes to its `k`-th task with less idle time than the one that serves the tasks as they
arrive. -/
theorem start_sub_le (h : Schedule arrival length 1 l) (h' : Schedule arrival length 1 l')
    (hperm : (l.map Prod.fst).Perm (l'.map Prod.fst))
    (harr : (l'.map Prod.fst).Pairwise fun a b => arrival a ≤ arrival b)
    (hlen : before.length = before'.length) (hsplit : l = before ++ s :: after)
    (hsplit' : l' = before' ++ s' :: after') :
    s.2 - (before.map fun b => length b.1).sum ≤ s'.2 - (before'.map fun b => length b.1).sum := by
  induction before using List.reverseRecOn generalizing s after before' s' after' with
  | nil =>
    rcases h.starts_late hsplit with ⟨front, b, hnil, -⟩ | hlater
    · simp at hnil
    · exact h.start_sub_le_of_idle h' hperm harr hlen hsplit hsplit' hlater
  | append_singleton before b ih =>
    rcases h.starts_late hsplit with ⟨front, last, hlast, hnext⟩ | hlater
    · obtain ⟨rfl, hb⟩ := List.append_inj' hlast rfl
      cases hb
      rcases List.eq_nil_or_concat' before' with rfl | ⟨before', b', rfl⟩
      · simp at hlen
      · have hcut : l = before ++ b :: s :: after := by rw [hsplit, List.append_assoc]; rfl
        have hcut' : l' = before' ++ b' :: s' :: after' := by rw [hsplit', List.append_assoc]; rfl
        have hle := ih (by simpa using hlen) hcut hcut'
        have hfinish := finish_le_of_sequential h'.sequential hsplit' b' (by simp)
        simp only [List.map_append, List.map_cons, List.map_nil, List.sum_append,
          List.sum_singleton]
        linarith
    · exact h.start_sub_le_of_idle h' hperm harr hlen hsplit hsplit' hlater

end TwoSchedules

end Schedule

/-! ## The shortest first -/

section ShortestFirst

/-- `c` is least among those of the first `m` elements of `order` that are not in `before`. -/
def LeastOfPrefix {κ : Type*} [LinearOrder κ] (key : α → κ) (order before : List α) (c : α) : Prop :=
  ∃ (waiting : List α) (m : ℕ), (waiting ++ before).Perm (order.take m) ∧ c ∈ waiting ∧
    ∀ w ∈ waiting, key c ≤ key w

theorem LeastOfPrefix.le {κ : Type*} [LinearOrder κ] {key : α → κ} [DecidableEq α]
    {order before : List α} {x y : α} {k : ℕ} (h : LeastOfPrefix key order before x)
    (hx : (order.take k).count x ≤ before.count x)
    (hy : before.count y < (order.take k).count y) : key x ≤ key y := by
  obtain ⟨waiting, m, hperm, hmem, hleast⟩ := h
  have hcount := fun a => hperm.count_eq a
  simp only [List.count_append] at hcount
  -- `x` is not among the first `k`, so the prefix is a longer one
  have hkm : k ≤ m := by
    by_contra hmk
    have hsub := (List.take_prefix_take_left (l := order) (not_le.mp hmk).le).sublist.count_le x
    have hpos := List.count_pos_iff.mpr hmem
    have hcountx := hcount x
    omega
  have hsub := (List.take_prefix_take_left (l := order) hkm).sublist.count_le y
  have hcounty := hcount y
  exact hleast y (List.count_pos_iff.mp (by omega))

variable {key : α → K} [IsStrictOrderedRing K]

theorem sum_map_le_of_forall_le {A B : Multiset α} (hcard : Multiset.card A = Multiset.card B)
    (h : ∀ x ∈ A, ∀ y ∈ B, key x ≤ key y) : (A.map key).sum ≤ (B.map key).sum := by
  induction A using Multiset.induction_on generalizing B with
  | empty =>
    rw [Multiset.card_zero] at hcard
    rw [Multiset.card_eq_zero.mp hcard.symm]
  | cons x A ih =>
    rw [Multiset.card_cons] at hcard
    obtain ⟨y, B, rfl, hcardB⟩ := Multiset.card_eq_succ_iff.mp hcard.symm
    have hxy := h x (Multiset.mem_cons_self x A) y (Multiset.mem_cons_self y B)
    have hrest := ih hcardB.symm fun x' hx' y' hy' =>
      h x' (Multiset.mem_cons_of_mem hx') y' (Multiset.mem_cons_of_mem hy')
    rw [Multiset.map_cons, Multiset.map_cons, Multiset.sum_cons, Multiset.sum_cons]
    exact add_le_add hxy hrest

theorem take_sum_le {order chosen : List α} (hperm : chosen.Perm order)
    (hleast : EachWithPast (LeastOfPrefix key order) chosen) (k : ℕ) :
    ((chosen.take k).map key).sum ≤ ((order.take k).map key).sum := by
  classical
  obtain ⟨A, hA⟩ : ∃ A : Multiset α, A = chosen.take k := ⟨_, rfl⟩
  obtain ⟨F, hF⟩ : ∃ F : Multiset α, F = order.take k := ⟨_, rfl⟩
  have hcard : Multiset.card (A - F) = Multiset.card (F - A) := by
    have hA' := congrArg Multiset.card (Multiset.sub_add_inter A F)
    have hF' := congrArg Multiset.card (Multiset.sub_add_inter F A)
    have hlen := hperm.length_eq
    rw [Multiset.card_add] at hA' hF'
    rw [Multiset.inter_comm] at hF'
    have hAF : Multiset.card A = Multiset.card F := by
      rw [hA, hF, Multiset.coe_card, Multiset.coe_card, List.length_take, List.length_take, hlen]
    omega
  have hle : ∀ x ∈ A - F, ∀ y ∈ F - A, key x ≤ key y := by
    intro x hx y hy
    rw [Multiset.mem_sub, hA, hF, Multiset.coe_count, Multiset.coe_count] at hx hy
    -- the last of the first `k` choices that is `x`
    have hmem : x ∈ (chosen.take k).reverse :=
      List.mem_reverse.mpr (List.count_pos_iff.mp (Nat.zero_lt_of_lt hx))
    obtain ⟨post, pre, hsplit, hpost⟩ := List.eq_append_cons_of_mem hmem
    have htake : chosen.take k = pre.reverse ++ x :: post.reverse := by
      rw [← List.reverse_reverse (chosen.take k), hsplit]
      simp
    have hchosen : chosen = pre.reverse ++ x :: (post.reverse ++ chosen.drop k) := by
      conv_lhs => rw [← List.take_append_drop k chosen, htake]
      simp
    have hcount := fun a => congrArg (List.count a) htake
    simp only [List.count_append, List.count_cons] at hcount
    have hcountx := hcount x
    have hcounty := hcount y
    have hnone : post.reverse.count x = 0 := List.count_eq_zero.mpr (by simpa using hpost)
    rw [hnone, if_pos (beq_self_eq_true x)] at hcountx
    exact (hleast _ _ _ hchosen).le (k := k) (by omega) (by omega)
  have hsum : ((A - F).map key).sum ≤ ((F - A).map key).sum := sum_map_le_of_forall_le hcard hle
  have hA' := congrArg (fun A => (A.map key).sum) (Multiset.sub_add_inter A F)
  have hF' := congrArg (fun A => (A.map key).sum) (Multiset.sub_add_inter F A)
  simp only [Multiset.map_add, Multiset.sum_add] at hA' hF'
  rw [Multiset.inter_comm] at hF'
  have htotal : (A.map key).sum ≤ (F.map key).sum := by linarith
  rw [hA, hF] at htotal
  simpa using htotal

/-- On one server, taking the shortest task of some prefix of the arrivals each time finishes the tasks
earlier on the whole than serving them as they arrive. -/
theorem Schedule.sum_finish_le (h : Schedule arrival length 1 l) (h' : Schedule arrival length 1 l')
    (hperm : (l.map Prod.fst).Perm (l'.map Prod.fst))
    (harr : (l'.map Prod.fst).Pairwise fun a b => arrival a ≤ arrival b)
    (hleast : EachWithPast (LeastOfPrefix length (l'.map Prod.fst)) (l.map Prod.fst)) :
    (l.map fun s => s.2 + length s.1).sum ≤ (l'.map fun s => s.2 + length s.1).sum := by
  have hlen : l.length = l'.length := by simpa using hperm.length_eq
  refine List.Forall₂.sum_le_sum (List.forall₂_iff_get.mpr ⟨by simpa using hlen, ?_⟩)
  intro i hi hi'
  rw [List.length_map] at hi hi'
  have hsplit : ∀ (l : List (α × K)) (hi : i < l.length),
      l = l.take i ++ l[i] :: l.drop (i + 1) := fun l hi => by
    rw [← List.drop_eq_getElem_cons hi, List.take_append_drop]
  have hstart := h.start_sub_le h' hperm harr (by rw [List.length_take, List.length_take, hlen])
    (hsplit l hi) (hsplit l' hi')
  have hsum := take_sum_le hperm hleast (i + 1)
  rw [← List.map_take, ← List.map_take, List.map_map, List.map_map,
    List.take_succ_eq_append_getElem hi, List.take_succ_eq_append_getElem hi', List.map_append,
    List.map_append, List.sum_append, List.sum_append] at hsum
  simp only [Function.comp_def, List.map_cons, List.map_nil, List.sum_singleton] at hsum
  simp only [List.get_eq_getElem, List.getElem_map]
  linarith

end ShortestFirst

/-! ## The recursion of Kiefer and Wolfowitz -/

section KieferWolfowitz
variable (arrival length)

/-- Each task is started when it has arrived and the server that is free first is free; `free` are the
times at which the servers become free. -/
def kieferWolfowitz : List K → List α → List (α × K)
  | _, [] => []
  | free, a :: as =>
    match extractLeast id free with
    | none => []
    | some (earliest, rest) =>
      let start := max (arrival a) earliest
      (a, start) :: kieferWolfowitz ((start + length a) :: rest) as

variable {arrival length}

/-- From `z` on, as many of the `free` times are to come as tasks of `before` are not finished. -/
def FreeAfter (length : α → K) (z : K) (n : ℕ) (free : List K) (before : List (α × K)) : Prop :=
  free.length = n ∧ ∀ t, z ≤ t →
    free.countP (fun w => t < w) = min n (before.countP fun b => t < b.2 + length b.1)

theorem freeAfter_nil (z : K) (n : ℕ) : FreeAfter length z n (List.replicate n z) [] := by
  refine ⟨List.length_replicate, fun t ht => ?_⟩
  rw [List.countP_nil, Nat.min_zero]
  refine List.countP_eq_zero.mpr fun w hw => ?_
  rw [List.eq_of_mem_replicate hw]
  simpa using ht

variable [IsStrictOrderedRing K]

/-- A task that is not started before the first server is free keeps this one busy. -/
theorem FreeAfter.concat {z e : K} {free rest : List K} (h : FreeAfter length z n free before)
    (hleast : extractLeast id free = some (e, rest)) (hstart : e ≤ s.2) (hpos : 0 < length s.1) :
    FreeAfter length z n ((s.2 + length s.1) :: rest) (before ++ [s]) := by
  obtain ⟨hlen, hcount⟩ := h
  have hperm := extractLeast_perm id hleast
  refine ⟨hperm.length_eq.symm.trans hlen, fun t ht => ?_⟩
  have hfree := hcount t ht
  rw [hperm.countP_eq, List.countP_cons] at hfree
  rw [List.countP_cons, List.countP_append, List.countP_singleton]
  have hrest := List.countP_le_length (p := fun w => t < w) (l := rest)
  have hlen' : rest.length + 1 = n := by rw [← hlen, hperm.length_eq, List.length_cons]
  by_cases hte : t < e
  · -- no server is free at `t`
    have hall : rest.countP (fun w => t < w) = rest.length := by
      refine List.countP_eq_length.mpr fun w hw => decide_eq_true ?_
      exact hte.trans_le (extractLeast_le id hleast w (hperm.symm.subset (List.mem_cons_of_mem _ hw)))
    have hrun : t < s.2 + length s.1 := by linarith
    simp only [hte, hrun, decide_true, if_true] at hfree ⊢
    omega
  · rw [if_neg (by simpa using hte), Nat.add_zero] at hfree
    split <;> omega

/-- A task starts as soon as it has arrived and a server is free. -/
theorem Schedule.start_eq_max (h : Schedule arrival length n l) {z e : K}
    (hz : ∀ s ∈ l, z ≤ arrival s.1) {free rest : List K} (hsplit : l = before ++ s :: after)
    (hfree : FreeAfter length z n free before) (hleast : extractLeast id free = some (e, rest)) :
    s.2 = max (arrival s.1) e := by
  have hmem : s ∈ l := by rw [hsplit]; simp
  have harr := h.arrived s hmem
  have hle : ∀ w ∈ free, e ≤ w := extractLeast_le id hleast
  obtain ⟨hlen, hcount⟩ := hfree
  have hlate : e ≤ s.2 := by
    -- `s` itself takes one of the servers
    by_contra hlt
    have hall : free.countP (fun w => s.2 < w) = free.length :=
      List.countP_eq_length.mpr fun w hw => decide_eq_true ((not_le.mp hlt).trans_le (hle w hw))
    have hbefore : before.countP (fun b => s.2 < b.2 + length b.1) =
        before.countP (RunsAt length s.2) := by
      refine List.countP_congr fun b hb => ?_
      have horder := h.inOrder
      rw [hsplit, List.pairwise_append] at horder
      have hstart := horder.2.2 b hb s List.mem_cons_self
      simp [RunsAt, hstart]
    have hruns : RunsAt length s.2 s := ⟨le_rfl, by linarith [h.positive s hmem]⟩
    have hparallel := h.parallel s.2
    rw [hsplit, List.countP_append, List.countP_cons, decide_eq_true hruns, if_pos rfl, ← hbefore]
      at hparallel
    have hfree := hcount s.2 ((hz s hmem).trans harr)
    omega
  refine le_antisymm ?_ (max_le harr hlate)
  by_contra hlt
  have hbusy := h.conserving s hmem _ (le_max_left _ _) (not_le.mp hlt)
  rw [h.countP_runsAt hsplit (not_le.mp hlt)] at hbusy
  have hmono : before.countP (RunsAt length (max (arrival s.1) e)) ≤
      before.countP fun b => max (arrival s.1) e < b.2 + length b.1 :=
    List.countP_mono_left fun b _ hb => decide_eq_true (of_decide_eq_true hb).2
  have hfree := hcount (max (arrival s.1) e) ((hz s hmem).trans (le_max_left _ _))
  have hall : free.countP (fun w => max (arrival s.1) e < w) = free.length := by omega
  have hmin := List.countP_eq_length.mp hall e (extractLeast_mem id hleast)
  exact absurd (of_decide_eq_true hmin) (not_lt.mpr (le_max_right _ _))

theorem Schedule.eq_kieferWolfowitz_of_split (h : Schedule arrival length n l) (hn : 1 ≤ n) {z : K}
    (hz : ∀ s ∈ l, z ≤ arrival s.1) {free : List K} (hsplit : l = before ++ after)
    (hfree : FreeAfter length z n free before) :
    after = kieferWolfowitz arrival length free (after.map Prod.fst) := by
  induction after generalizing before free with
  | nil => rfl
  | cons s after ih =>
    cases hleast : extractLeast id free with
    | none =>
      have hlen := hfree.1
      rw [(extractLeast_eq_none_iff id).mp hleast, List.length_nil] at hlen
      omega
    | some least =>
      obtain ⟨e, rest⟩ := least
      have hstart := h.start_eq_max hz hsplit hfree hleast
      have hpos := h.positive s (by rw [hsplit]; simp)
      have hnext := hfree.concat hleast (hstart ▸ le_max_right _ _) hpos
      have hsplit' : l = before ++ [s] ++ after := by rw [hsplit, List.append_assoc]; rfl
      have hrest := ih hsplit' hnext
      rw [List.map_cons, kieferWolfowitz, hleast]
      dsimp only
      rw [← hstart, ← hrest]

/-- Whatever the order of service is, the start times follow the recursion along it. -/
theorem Schedule.eq_kieferWolfowitz (h : Schedule arrival length n l) (hn : 1 ≤ n) {z : K}
    (hz : ∀ s ∈ l, z ≤ arrival s.1) :
    l = kieferWolfowitz arrival length (List.replicate n z) (l.map Prod.fst) :=
  h.eq_kieferWolfowitz_of_split hn hz (List.nil_append l).symm (freeAfter_nil z n)

end KieferWolfowitz

end Chronoq.Foundations
