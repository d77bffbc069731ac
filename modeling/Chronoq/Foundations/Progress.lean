import Chronoq.Foundations.Transition

/-! # Work that is bounded by a measure

A measure `μ` that no step increases, and that a step of the kind `q` decreases, as long as the work is not
`done`: then a run with more than `μ s` steps of the kind is done at its end (`Run.done_of_lt_countP`), and
where such a step is always possible there is a run of these steps alone (`exists_run_done`). -/

namespace Chronoq.Foundations

set_option autoImplicit false

variable {σ α : Type*}

/-- The steps `ok` keep the invariant `I`, and use up `μ` until they are `done`. -/
structure UsesUp (R : σ → α → σ → Prop) (I : σ → Prop) (ok : α → Prop) (q : α → Bool) (μ : σ → ℕ)
    (done : σ → Prop) : Prop where
  invariant : ∀ {s a t}, R s a t → ok a → I s → I t
  stays : ∀ {s a t}, R s a t → ok a → I s → done s → done t
  decreases : ∀ {s a t}, R s a t → ok a → I s → ¬ done s → μ t + (if q a then 1 else 0) ≤ μ s

namespace UsesUp
variable {R : σ → α → σ → Prop} {I done : σ → Prop} {ok : α → Prop} {q : α → Bool} {μ : σ → ℕ}
  {s t : σ} {as : List α}

theorem run_stays (hu : UsesUp R I ok q μ done) (h : Run R s as t) (has : ∀ a ∈ as, ok a) (hs : I s)
    (hdone : done s) : done t := by
  induction h with
  | nil => exact hdone
  | cons hstep _ ih =>
    obtain ⟨ha, has⟩ := List.forall_mem_cons.mp has
    exact ih has (hu.invariant hstep ha hs) (hu.stays hstep ha hs hdone)

theorem run_decreases (hu : UsesUp R I ok q μ done) (h : Run R s as t) (has : ∀ a ∈ as, ok a)
    (hs : I s) : done t ∨ μ t + as.countP q ≤ μ s := by
  induction h with
  | nil => exact .inr le_rfl
  | @cons s m t a as hstep hrest ih =>
    obtain ⟨ha, has⟩ := List.forall_mem_cons.mp has
    have hm := hu.invariant hstep ha hs
    by_cases hdone : done s
    · exact .inl (hu.run_stays hrest has hm (hu.stays hstep ha hs hdone))
    · rcases ih has hm with hend | hle
      · exact .inl hend
      · have hone := hu.decreases hstep ha hs hdone
        rw [List.countP_cons]
        exact .inr (by omega)

theorem done_of_lt_countP (hu : UsesUp R I ok q μ done) (h : Run R s as t) (has : ∀ a ∈ as, ok a)
    (hs : I s) (hlt : μ s < as.countP q) : done t := by
  rcases hu.run_decreases h has hs with hdone | hle
  · exact hdone
  · omega

/-- A further invariant of the steps. -/
theorem and {J : σ → Prop} (hu : UsesUp R I ok q μ done)
    (hJ : ∀ {s a t}, R s a t → ok a → I s → J s → J t) :
    UsesUp R (fun s => I s ∧ J s) ok q μ done where
  invariant hstep ha hs := ⟨hu.invariant hstep ha hs.1, hJ hstep ha hs.1 hs.2⟩
  stays hstep ha hs := hu.stays hstep ha hs.1
  decreases hstep ha hs := hu.decreases hstep ha hs.1

/-- Where a step of the kind is always possible until the work is done, such steps alone get it done. -/
theorem exists_run_done (hu : UsesUp R I ok q μ done)
    (henabled : ∀ s, I s → ∃ a t, R s a t ∧ ok a ∧ q a = true) (hs : I s) :
    ∃ as t, Run R s as t ∧ (∀ a ∈ as, q a = true) ∧ as.length ≤ μ s ∧ done t := by
  obtain ⟨n, hn⟩ : ∃ n, n = μ s := ⟨_, rfl⟩
  induction n using Nat.strongRecOn generalizing s with
  | ind n ih =>
    by_cases hdone : done s
    · exact ⟨[], s, .nil s, by simp, Nat.zero_le _, hdone⟩
    · obtain ⟨a, m, hstep, ha, hq⟩ := henabled s hs
      have hless := hu.decreases hstep ha hs hdone
      rw [if_pos hq] at hless
      obtain ⟨as, t, hrun, has, hlength, hend⟩ :=
        ih (μ m) (by omega) (hu.invariant hstep ha hs) rfl
      refine ⟨a :: as, t, .cons hstep hrun, List.forall_mem_cons.mpr ⟨hq, has⟩, ?_, hend⟩
      rw [List.length_cons]
      omega

end UsesUp

end Chronoq.Foundations
