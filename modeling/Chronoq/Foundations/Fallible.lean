import Mathlib

/-! # Computations that may raise, and mapping one over a list

`l.mapM f` with values in `Except ε` runs `f` on the elements from left to right and stops at the
first error.

* `mapM_eq_ok_iff`: it succeeds with `ys` exactly when `f` gives the elements of `ys` one by one.
* `exists_mapM_ok`: it succeeds if `f` succeeds on every element.
* `map_mapM`, `mapM_congr`: what is done to the results may be done to each of them, and `f` may be
  changed where the elements of the list do not see it.
* `zip_perm_of_mapM_ok`, `perm_of_mapM_ok`: permuting the list permutes the results with it.
* `exists_mapM_error_iff`: otherwise it fails.
* `reduceOption_map_sublist`: of optional results, those that are there keep the order of the list. -/

namespace Chronoq.Foundations

set_option autoImplicit false

variable {α β ε : Type} {f : α → Except ε β}

theorem exists_of_map_ok {x : Except ε α} {g : α → β} {b : β} (h : x.map g = .ok b) :
    ∃ a, x = .ok a ∧ g a = b := by
  cases x with
  | error e => cases h
  | ok a =>
    cases h
    exact ⟨a, rfl, rfl⟩

theorem exists_map_ok_iff {γ : Type} {x : Except ε α} {g : α → γ} :
    (∃ c, x.map g = .ok c) ↔ ∃ a, x = .ok a := by
  cases x <;> simp [Except.map]

theorem mapM_eq_ok_iff {l : List α} {ys : List β} :
    l.mapM f = .ok ys ↔ List.Forall₂ (fun x y => f x = .ok y) l ys := by
  induction l generalizing ys with
  | nil =>
    rw [List.mapM_nil, List.forall₂_nil_left_iff]
    constructor
    · intro h
      exact (Except.ok.inj h).symm
    · rintro rfl
      rfl
  | cons x l ih =>
    rw [List.mapM_cons]
    cases hx : f x with
    | error e =>
      constructor
      · intro h
        cases h
      · intro h
        cases h with
        | cons hxy _ => rw [hx] at hxy; cases hxy
    | ok y =>
      cases hl : l.mapM f with
      | error e =>
        constructor
        · intro h
          cases h
        · intro h
          cases h with
          | cons _ hrest => rw [ih.mpr hrest] at hl; cases hl
      | ok zs =>
        constructor
        · intro h
          cases h
          exact .cons hx (ih.mp hl)
        · intro h
          cases h with
          | cons hxy hrest =>
            rw [hx] at hxy
            rw [ih.mpr hrest] at hl
            cases hxy
            cases hl
            rfl

theorem length_of_mapM_ok {l : List α} {ys : List β} (h : l.mapM f = .ok ys) :
    ys.length = l.length :=
  (mapM_eq_ok_iff.mp h).length_eq.symm

theorem exists_of_mem_mapM_ok {l : List α} {ys : List β} (h : l.mapM f = .ok ys) {y : β}
    (hy : y ∈ ys) : ∃ x ∈ l, f x = .ok y := by
  have hforall := mapM_eq_ok_iff.mp h
  induction hforall with
  | nil => cases hy
  | cons hxy hrest ih =>
    rcases List.mem_cons.mp hy with rfl | hy
    · exact ⟨_, List.mem_cons_self .., hxy⟩
    · obtain ⟨x, hx, hxy'⟩ := ih (mapM_eq_ok_iff.mpr hrest) hy
      exact ⟨x, List.mem_cons_of_mem _ hx, hxy'⟩

theorem exists_mem_of_mapM_ok {l : List α} {ys : List β} (h : l.mapM f = .ok ys) {x : α}
    (hx : x ∈ l) : ∃ y ∈ ys, f x = .ok y := by
  have hforall := mapM_eq_ok_iff.mp h
  clear h
  induction hforall with
  | nil => cases hx
  | cons hxy _ ih =>
    rcases List.mem_cons.mp hx with rfl | hx
    · exact ⟨_, List.mem_cons_self .., hxy⟩
    · obtain ⟨y, hy, hxy'⟩ := ih hx
      exact ⟨y, List.mem_cons_of_mem _ hy, hxy'⟩

theorem exists_mapM_ok {l : List α} (h : ∀ x ∈ l, ∃ y, f x = .ok y) : ∃ ys, l.mapM f = .ok ys := by
  induction l with
  | nil => exact ⟨[], rfl⟩
  | cons x l ih =>
    obtain ⟨y, hy⟩ := h x (List.mem_cons_self ..)
    obtain ⟨ys, hys⟩ := ih fun x' hx' => h x' (List.mem_cons_of_mem _ hx')
    exact ⟨y :: ys, mapM_eq_ok_iff.mpr (.cons hy (mapM_eq_ok_iff.mp hys))⟩

theorem exists_mapM_ok_iff {l : List α} :
    (∃ ys, l.mapM f = .ok ys) ↔ ∀ x ∈ l, ∃ y, f x = .ok y := by
  constructor
  · rintro ⟨ys, hys⟩ x hx
    obtain ⟨y, -, hxy⟩ := exists_mem_of_mapM_ok hys hx
    exact ⟨y, hxy⟩
  · exact exists_mapM_ok

/-- What is done to all results of a mapping may be done to each where it is computed. -/
theorem map_mapM {γ : Type} (f : α → Except ε β) (g : β → γ) (l : List α) :
    (l.mapM f).map (List.map g) = l.mapM fun x => (f x).map g := by
  induction l with
  | nil => rfl
  | cons x l ih =>
    rw [List.mapM_cons, List.mapM_cons, ← ih]
    cases f x with
    | error e => rfl
    | ok y => cases l.mapM f <;> rfl

theorem mapM_congr {f g : α → Except ε β} {l : List α} (h : ∀ x ∈ l, f x = g x) :
    l.mapM f = l.mapM g := by
  induction l with
  | nil => rfl
  | cons x l ih =>
    rw [List.mapM_cons, List.mapM_cons, h x (List.mem_cons_self ..),
      ih fun x' hx' => h x' (List.mem_cons_of_mem _ hx')]

theorem zip_perm_of_mapM_ok {l l' : List α} (hl : l.Perm l') {ys : List β} (h : l.mapM f = .ok ys) :
    ∃ ys', l'.mapM f = .ok ys' ∧ (l.zip ys).Perm (l'.zip ys') := by
  simp only [mapM_eq_ok_iff] at h ⊢
  induction hl generalizing ys with
  | nil => exact ⟨ys, h, .rfl⟩
  | cons x _ ih =>
    cases h with
    | cons hx hrest =>
      obtain ⟨ys', hrest', hperm⟩ := ih hrest
      exact ⟨_ :: ys', .cons hx hrest', hperm.cons _⟩
  | swap x x' l =>
    cases h with
    | cons hx hrest =>
      cases hrest with
      | cons hx' hrest => exact ⟨_ :: _ :: _, .cons hx' (.cons hx hrest), .swap ..⟩
  | trans _ _ ih ih' =>
    obtain ⟨ys', h', hperm⟩ := ih h
    obtain ⟨ys'', h'', hperm'⟩ := ih' h'
    exact ⟨ys'', h'', hperm.trans hperm'⟩

theorem perm_of_mapM_ok {l l' : List α} (hl : l.Perm l') {ys : List β} (h : l.mapM f = .ok ys) :
    ∃ ys', l'.mapM f = .ok ys' ∧ ys.Perm ys' := by
  obtain ⟨ys', h', hzip⟩ := zip_perm_of_mapM_ok hl h
  have hperm := hzip.map Prod.snd
  rw [List.map_snd_zip (length_of_mapM_ok h).le, List.map_snd_zip (length_of_mapM_ok h').le] at hperm
  exact ⟨ys', h', hperm⟩

/-- Results that are left out leave the others in the order of the list. -/
theorem reduceOption_map_sublist {γ : Type} {f : α → Except ε (Option β)} {g : β → γ} {h : α → γ}
    (hf : ∀ x y, f x = .ok (some y) → g y = h x) {l : List α} {ys : List (Option β)}
    (hl : l.mapM f = .ok ys) : (ys.reduceOption.map g).Sublist (l.map h) := by
  have hforall := mapM_eq_ok_iff.mp hl
  clear hl
  induction hforall with
  | nil => exact .slnil
  | @cons x y _ _ hxy _ ih =>
    cases y with
    | none => exact ih.cons _
    | some y =>
      rw [List.reduceOption_cons_of_some, List.map_cons, List.map_cons, hf x y hxy]
      exact ih.cons_cons _

theorem exists_map_error_iff {x : Except ε α} {g : α → β} :
    (∃ e, x.map g = .error e) ↔ ∃ e, x = .error e := by
  cases x with
  | error e => exact iff_of_true ⟨e, rfl⟩ ⟨e, rfl⟩
  | ok a => simp [Except.map]

theorem exists_error_iff {x : Except ε α} : (∃ e, x = .error e) ↔ ¬ ∃ a, x = .ok a := by
  cases x with
  | error e => simp
  | ok a => simp

/-- The mapping fails exactly if `f` fails on an element. -/
theorem exists_mapM_error_iff {l : List α} :
    (∃ e, l.mapM f = .error e) ↔ ∃ x ∈ l, ∃ e, f x = .error e := by
  rw [exists_error_iff, exists_mapM_ok_iff]
  constructor
  · intro h
    push Not at h
    obtain ⟨x, hx, hfails⟩ := h
    exact ⟨x, hx, exists_error_iff.mpr fun ⟨y, hy⟩ => hfails y hy⟩
  · rintro ⟨x, hx, e, he⟩ hall
    exact exists_error_iff.mp ⟨e, he⟩ (hall x hx)

/-- The error of a mapping is that of one of the elements. -/
theorem exists_of_mapM_error {l : List α} {e : ε} (h : l.mapM f = .error e) :
    ∃ x ∈ l, f x = .error e := by
  induction l with
  | nil => cases h
  | cons x l ih =>
    rw [List.mapM_cons] at h
    cases hx : f x with
    | error e' =>
      rw [hx] at h
      cases h
      exact ⟨x, List.mem_cons_self .., hx⟩
    | ok y =>
      rw [hx] at h
      cases hl : l.mapM f with
      | error e' =>
        rw [hl] at h
        cases h
        obtain ⟨x', hx', he⟩ := ih hl
        exact ⟨x', List.mem_cons_of_mem _ hx', he⟩
      | ok ys =>
        rw [hl] at h
        cases h

end Chronoq.Foundations
