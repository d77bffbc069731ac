import Mathlib

/-! # Finite runs of a labelled step relation

Everything here is about an arbitrary relation `R : σ → α → σ → Prop` and does not mention the
program:

* `Run R s as t`: from `s`, the steps labelled `as` can be taken one after another and end in `t`.
* `Run.preserves`: an invariant that every step keeps holds at the end of every run.
* `Run.mono`, `Run.unguard`: a run of one relation as a run of a larger one.
* `exec`: the run of a partial step function, to evaluate one on a concrete state.
* `Run.everyStep`, `everyStep_congr`: what holds at every step of a run, and changing it pointwise.
* `throughout_iff_everyStep`: a two-sided step lemma ("the step stays in `P` exactly when its guard
  holds") becomes a two-sided statement about whole runs.
* `responses_related`: two machines that are kept in a relation answer every sequence of calls alike.
-/

namespace Chronoq.Foundations

set_option autoImplicit false

variable {σ α : Type*}

/-! ## Runs -/

/-- `Run R s as t`: the steps labelled `as` lead from `s` to `t`. -/
inductive Run (R : σ → α → σ → Prop) : σ → List α → σ → Prop
  | nil (s : σ) : Run R s [] s
  | cons {s t u : σ} {a : α} {as : List α} : R s a t → Run R t as u → Run R s (a :: as) u

variable {R R' : σ → α → σ → Prop} {s t u : σ} {a : α} {as bs : List α}

theorem Run.single (h : R s a t) : Run R s [a] t := .cons h (.nil t)

theorem Run.append (h : Run R s as t) (h' : Run R t bs u) : Run R s (as ++ bs) u := by
  induction h with
  | nil => exact h'
  | cons hstep _ ih => exact .cons hstep (ih h')

theorem Run.snoc (h : Run R s as t) (h' : R t a u) : Run R s (as ++ [a]) u :=
  h.append (.single h')

theorem Run.mono (hle : ∀ s a t, R s a t → R' s a t) (h : Run R s as t) : Run R' s as t := by
  induction h with
  | nil s => exact .nil s
  | cons hstep _ ih => exact .cons (hle _ _ _ hstep) ih

theorem Run.append_inv (h : Run R s (as ++ bs) u) : ∃ t, Run R s as t ∧ Run R t bs u := by
  induction as generalizing s with
  | nil => exact ⟨s, .nil s, h⟩
  | cons a as ih =>
    cases h with
    | cons hstep hrest =>
      obtain ⟨t, h₁, h₂⟩ := ih hrest
      exact ⟨t, .cons hstep h₁, h₂⟩

/-- An invariant kept by every step is kept by every run. -/
theorem Run.preserves {P : σ → Prop} (hstep : ∀ s a t, R s a t → P s → P t)
    (h : Run R s as t) (hs : P s) : P t := by
  induction h with
  | nil => exact hs
  | cons hone _ ih => exact ih (hstep _ _ _ hone hs)

theorem Run.unique (hdet : ∀ s a t t', R s a t → R s a t' → t = t')
    (h : Run R s as t) (h' : Run R s as u) : t = u := by
  induction h with
  | nil => cases h'; rfl
  | cons hone _ ih =>
    cases h' with
    | cons hone' hrest' =>
      obtain rfl := hdet _ _ _ _ hone hone'
      exact ih hrest'

/-! ## Runs of a partial step function -/

/-- Take the steps labelled `as` in turn; `none` as soon as one of them is not possible. -/
def exec (f : σ → α → Option σ) (s : σ) (as : List α) : Option σ := as.foldlM f s

theorem run_of_exec {f : σ → α → Option σ} (h : exec f s as = some t) :
    Run (fun s a t => f s a = some t) s as t := by
  induction as generalizing s with
  | nil =>
    obtain rfl : s = t := by simpa [exec] using h
    exact .nil s
  | cons a as ih =>
    simp only [exec, List.foldlM_cons, Option.bind_eq_bind, Option.bind_eq_some_iff] at h
    obtain ⟨m, hone, hrest⟩ := h
    exact .cons hone (ih hrest)

/-! ## Guarded runs -/

/-- The steps of `R` whose first state and label satisfy `G`. -/
def Guarded (G : σ → α → Prop) (R : σ → α → σ → Prop) : σ → α → σ → Prop :=
  fun s a t => R s a t ∧ G s a

theorem Run.unguard {G : σ → α → Prop} (h : Run (Guarded G R) s as t) : Run R s as t :=
  h.mono fun _ _ _ hstep => hstep.1

/-- Every state that the run labelled `as` passes through, its two ends included, satisfies `P`. -/
def Throughout (R : σ → α → σ → Prop) (P : σ → Prop) (s : σ) (as : List α) : Prop :=
  ∀ bs cs t, as = bs ++ cs → Run R s bs t → P t

theorem Throughout.snoc {P : σ → Prop} (h : Throughout R P s as)
    (hlast : ∀ t, Run R s (as ++ [a]) t → P t) : Throughout R P s (as ++ [a]) := by
  intro bs cs t hsplit hrun
  rcases List.eq_nil_or_concat' cs with rfl | ⟨cs, b, rfl⟩
  · rw [List.append_nil] at hsplit
    subst hsplit
    exact hlast t hrun
  · have hinit : as ++ [a] = (bs ++ cs) ++ [b] := by simpa using hsplit
    exact h bs cs t (List.append_inj_left' hinit rfl) hrun

/-- Every step that the run labelled `as` takes satisfies the guard `G`. -/
def EveryStep (R : σ → α → σ → Prop) (G : σ → α → Prop) (s : σ) (as : List α) : Prop :=
  ∀ bs a cs t, as = bs ++ a :: cs → Run R s bs t → G t a

theorem everyStep_nil {G : σ → α → Prop} : EveryStep R G s [] := by
  intro bs a cs t hsplit _
  simp at hsplit

theorem everyStep_cons_iff {G : σ → α → Prop} (hdet : ∀ s a t t', R s a t → R s a t' → t = t')
    (h : R s a t) : EveryStep R G s (a :: as) ↔ G s a ∧ EveryStep R G t as := by
  constructor
  · intro hG
    refine ⟨hG [] a as s rfl (.nil s), fun bs b cs u hsplit hrun => ?_⟩
    exact hG (a :: bs) b cs u (by rw [hsplit]; rfl) (.cons h hrun)
  · rintro ⟨hone, hrest⟩ bs b cs u hsplit hrun
    cases hrun with
    | nil =>
      obtain ⟨rfl, rfl⟩ := List.cons.inj hsplit
      exact hone
    | cons hstep htail =>
      rw [List.cons_append, List.cons.injEq] at hsplit
      obtain ⟨rfl, hsplit⟩ := hsplit
      obtain rfl := hdet _ _ _ _ h hstep
      exact hrest _ b cs u hsplit htail

/-- Every step of a guarded run meets the guard and starts where the invariant holds. -/
theorem Run.everyStep {G : σ → α → Prop} {I : σ → Prop}
    (hdet : ∀ s a t t', R s a t → R s a t' → t = t')
    (hstep : ∀ s a t, R s a t → G s a → I s → I t) (h : Run (Guarded G R) s as t) (hs : I s) :
    EveryStep R (fun s a => I s ∧ G s a) s as := by
  intro bs a cs u hsplit hrun
  subst hsplit
  obtain ⟨m, hbefore, hafter⟩ := h.append_inv
  obtain rfl := hbefore.unguard.unique hdet hrun
  have hm : I m := by
    refine hbefore.preserves (P := I) ?_ hs
    intro s a t hone
    exact hstep s a t hone.1 hone.2
  cases hafter with
  | cons hone _ => exact ⟨hm, hone.2⟩

/-- The converse: a run whose every step meets the guard is a guarded run. -/
theorem EveryStep.guarded {G : σ → α → Prop} (hG : EveryStep R G s as) (h : Run R s as t) :
    Run (Guarded G R) s as t := by
  induction h with
  | nil s => exact .nil s
  | cons hone _ ih =>
    refine .cons ⟨hone, hG [] _ _ _ rfl (.nil _)⟩ (ih ?_)
    intro bs b cs u hsplit hrun
    exact hG (_ :: bs) b cs u (by rw [hsplit]; rfl) (.cons hone hrun)

theorem EveryStep.of_append {G : σ → α → Prop} (hG : EveryStep R G s (as ++ bs)) :
    EveryStep R G s as := by
  intro bs' b cs u hsplit hrun
  exact hG bs' b (cs ++ bs) u (by simp [hsplit]) hrun

theorem everyStep_congr {G P Q : σ → α → Prop} (hG : EveryStep R G s as)
    (h : ∀ s a, G s a → (P s a ↔ Q s a)) : EveryStep R P s as ↔ EveryStep R Q s as := by
  constructor
  · intro hP bs a cs t hsplit hrun
    exact (h t a (hG bs a cs t hsplit hrun)).mp (hP bs a cs t hsplit hrun)
  · intro hQ bs a cs t hsplit hrun
    exact (h t a (hG bs a cs t hsplit hrun)).mpr (hQ bs a cs t hsplit hrun)

/-- If a step out of a `P`-state ends in a `P`-state exactly when its guard holds, then a run that
starts in a `P`-state stays in `P` exactly when every step of it meets the guard. -/
theorem throughout_iff_everyStep {P : σ → Prop} {G : σ → α → Prop}
    (hdet : ∀ s a t t', R s a t → R s a t' → t = t')
    (hstep : ∀ s a t, R s a t → P s → (P t ↔ G s a)) (h : Run R s as t) (hs : P s) :
    Throughout R P s as ↔ EveryStep R G s as := by
  constructor
  · intro hP bs a cs u hsplit hrun
    subst hsplit
    obtain ⟨u', hrun', htail⟩ := h.append_inv
    obtain rfl := hrun.unique hdet hrun'
    cases htail with
    | cons hone _ =>
      have hu : P u := hP bs (a :: cs) u rfl hrun
      exact (hstep _ _ _ hone hu).mp (hP (bs ++ [a]) cs _ (by simp) (hrun.snoc hone))
  · intro hG bs
    -- from the front of the run, one step at a time
    induction bs using List.reverseRecOn with
    | nil =>
      intro cs u _ hrun
      cases hrun
      exact hs
    | append_singleton bs a ih =>
      intro cs u hsplit hrun
      obtain ⟨m, hm, hlast⟩ := hrun.append_inv
      cases hlast with
      | cons hone hnil =>
        cases hnil
        have hPm : P m := ih (a :: cs) m (by simpa using hsplit) hm
        exact (hstep _ _ _ hone hPm).mpr (hG bs a cs m (by simpa using hsplit) hm)

/-! ## Two machines that answer calls -/

section Responses
variable {τ ρ ρ' : Type*}

/-- What a machine answers to the calls `as`, one after another. -/
def responses (f : σ → α → σ × ρ) : σ → List α → List ρ
  | _, [] => []
  | s, a :: as => (f s a).2 :: responses f (f s a).1 as

/-- Two machines whose states stay related answer every call alike. -/
theorem responses_related {f : σ → α → σ × ρ} {g : τ → α → τ × ρ'} {I : σ → τ → Prop}
    {S : ρ → ρ' → Prop} {Q : α → Prop}
    (hstep : ∀ s t a, I s t → Q a → I (f s a).1 (g t a).1 ∧ S (f s a).2 (g t a).2)
    {s : σ} {t : τ} (hs : I s t) {as : List α} (has : ∀ a ∈ as, Q a) :
    List.Forall₂ S (responses f s as) (responses g t as) := by
  induction as generalizing s t with
  | nil => exact .nil
  | cons a as ih =>
    obtain ⟨hnext, hanswer⟩ := hstep s t a hs (has a (List.mem_cons_self ..))
    exact .cons hanswer (ih hnext fun a' ha' => has a' (List.mem_cons_of_mem _ ha'))

end Responses

end Chronoq.Foundations
