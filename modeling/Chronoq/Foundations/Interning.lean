import Mathlib

/-! # Numbering keys in the order of their first appearance

A numbering is a dictionary from keys to codes. `intern d k` leaves a known key alone and gives an
unknown one the next code, the number of keys so far.

* `lookup_intern_of_some`: a code once given is never changed.
* `mem_intern`: what has a code afterwards.
* `internCode d k`: the code that `k` has or is given, and `internAll`: a list of keys, one after
  another; `card_le_of_lookup_internAll`: a new key never gets a code that was in use before.
* `Dense`: the codes of a numbering are below the number of keys and no two keys share one, as they
  are in every numbering that `intern` has built; `Dense.bijOn`: so they are all of the numbers below. -/

namespace Chronoq.Foundations

set_option autoImplicit false

variable {κ : Type} [DecidableEq κ]

abbrev Numbering (κ : Type) := Finmap fun _ : κ => ℕ

def intern (d : Numbering κ) (k : κ) : Numbering κ :=
  if k ∈ d then d else d.insert k d.keys.card

theorem lookup_intern_of_some {d : Numbering κ} {k k' : κ} {n : ℕ} (h : d.lookup k = some n) :
    (intern d k').lookup k = some n := by
  unfold intern
  split
  · exact h
  · next hnew =>
    have hne : k ≠ k' := by
      rintro rfl
      exact hnew (Finmap.mem_of_lookup_eq_some h)
    rw [Finmap.lookup_insert_of_ne _ hne]
    exact h

theorem mem_intern {d : Numbering κ} {k k' : κ} : k' ∈ intern d k ↔ k' = k ∨ k' ∈ d := by
  unfold intern
  split
  · next hmem =>
    constructor
    · exact .inr
    · rintro (rfl | h)
      · exact hmem
      · exact h
  · exact Finmap.mem_insert

/-! ## The code of a key -/

/-- The code that `k` has, or the next one. -/
def internCode (d : Numbering κ) (k : κ) : ℕ := (d.lookup k).getD d.keys.card

theorem lookup_intern_self (d : Numbering κ) (k : κ) :
    (intern d k).lookup k = some (internCode d k) := by
  unfold intern internCode
  split
  · next hmem =>
    obtain ⟨n, hn⟩ := Finmap.mem_iff.mp hmem
    rw [hn, Option.getD_some]
  · next hnew =>
    rw [Finmap.lookup_insert, Finmap.lookup_eq_none.mpr hnew, Option.getD_none]

theorem keys_intern (d : Numbering κ) (k : κ) : (intern d k).keys = insert k d.keys := by
  ext k'
  rw [Finmap.mem_keys, mem_intern, Finset.mem_insert, Finmap.mem_keys]

theorem card_le_card_intern (d : Numbering κ) (k : κ) :
    d.keys.card ≤ (intern d k).keys.card := by
  rw [keys_intern]
  exact Finset.card_le_card (Finset.subset_insert _ _)

/-! ## A list of keys -/

def internAll (d : Numbering κ) (ks : List κ) : Numbering κ := ks.foldl intern d

theorem internAll_append (d : Numbering κ) (ks ks' : List κ) :
    internAll d (ks ++ ks') = internAll (internAll d ks) ks' := List.foldl_append

theorem lookup_internAll_of_some {d : Numbering κ} {k : κ} {n : ℕ} (h : d.lookup k = some n)
    (ks : List κ) : (internAll d ks).lookup k = some n := by
  induction ks generalizing d with
  | nil => exact h
  | cons k' ks ih => exact ih (lookup_intern_of_some h)

theorem keys_internAll (d : Numbering κ) (ks : List κ) :
    (internAll d ks).keys = d.keys ∪ ks.toFinset := by
  induction ks generalizing d with
  | nil => simp [internAll]
  | cons k ks ih =>
    have hrest : (internAll d (k :: ks)).keys = (intern d k).keys ∪ ks.toFinset := ih (intern d k)
    rw [hrest, keys_intern, List.toFinset_cons, Finset.insert_union, Finset.union_insert]

theorem exists_lookup_internAll (d : Numbering κ) {ks : List κ} {k : κ} (h : k ∈ ks) :
    ∃ n, (internAll d ks).lookup k = some n := by
  have hmem : k ∈ (internAll d ks).keys := by
    rw [keys_internAll]
    exact Finset.mem_union_right _ (List.mem_toFinset.mpr h)
  exact Finmap.mem_iff.mp (Finmap.mem_keys.mp hmem)

/-- Keys that have codes are left alone. -/
theorem internAll_of_mem {d : Numbering κ} {ks : List κ} (h : ∀ k ∈ ks, k ∈ d) :
    internAll d ks = d := by
  induction ks with
  | nil => rfl
  | cons k ks ih =>
    rw [List.forall_mem_cons] at h
    rw [internAll, List.foldl_cons, intern, if_pos h.1]
    exact ih h.2

theorem card_le_of_lookup_internAll {d : Numbering κ} {k : κ} {n : ℕ} {ks : List κ} (hk : k ∉ d)
    (h : (internAll d ks).lookup k = some n) : d.keys.card ≤ n := by
  induction ks generalizing d with
  | nil => exact absurd (Finmap.mem_of_lookup_eq_some h) hk
  | cons k' ks ih =>
    by_cases hmem : k ∈ intern d k'
    · obtain rfl : k = k' := (mem_intern.mp hmem).resolve_right hk
      have hcode := lookup_internAll_of_some (lookup_intern_self d k) ks
      rw [internAll, List.foldl_cons] at h
      rw [internAll, h, internCode, Finmap.lookup_eq_none.mpr hk, Option.getD_none] at hcode
      exact (Option.some.inj hcode).ge
    · exact (card_le_card_intern d k').trans (ih hmem h)

/-! ## Dense numberings -/

structure Dense (d : Numbering κ) : Prop where
  lt_card : ∀ {k : κ} {n : ℕ}, d.lookup k = some n → n < d.keys.card
  inj : ∀ {k k' : κ} {n : ℕ}, d.lookup k = some n → d.lookup k' = some n → k = k'

theorem dense_empty : Dense (∅ : Numbering κ) where
  lt_card h := by simp at h
  inj h := by simp at h

theorem Dense.internCode_le {d : Numbering κ} (hd : Dense d) (k : κ) :
    internCode d k ≤ d.keys.card := by
  unfold internCode
  cases h : d.lookup k with
  | none => exact le_rfl
  | some n => exact (hd.lt_card h).le

theorem dense_intern {d : Numbering κ} (hd : Dense d) (k : κ) : Dense (intern d k) := by
  by_cases hmem : k ∈ d
  · rwa [intern, if_pos hmem]
  · have hcard : (intern d k).keys.card = d.keys.card + 1 := by
      rw [keys_intern, Finset.card_insert_of_notMem (by simpa [Finmap.mem_keys] using hmem)]
    -- what has a code is `k`, with the next one, or was known before
    have hcases : ∀ {k' : κ} {n : ℕ}, (intern d k).lookup k' = some n →
        (k' = k ∧ n = d.keys.card) ∨ (d.lookup k' = some n ∧ n < d.keys.card) := by
      intro k' n h
      rw [intern, if_neg hmem] at h
      by_cases hk : k' = k
      · subst hk
        rw [Finmap.lookup_insert] at h
        exact .inl ⟨rfl, (Option.some.inj h).symm⟩
      · rw [Finmap.lookup_insert_of_ne _ hk] at h
        exact .inr ⟨h, hd.lt_card h⟩
    refine ⟨fun h => ?_, fun h h' => ?_⟩
    · rcases hcases h with ⟨-, hn⟩ | ⟨-, hlt⟩ <;> omega
    · rcases hcases h with ⟨hk, hn⟩ | ⟨hold, hlt⟩ <;> rcases hcases h' with ⟨hk', hn'⟩ | ⟨hold', hlt'⟩
      · rw [hk, hk']
      · omega
      · omega
      · exact hd.inj hold hold'

theorem dense_internAll {d : Numbering κ} (hd : Dense d) (ks : List κ) : Dense (internAll d ks) := by
  induction ks generalizing d with
  | nil => exact hd
  | cons k ks ih => exact ih (dense_intern hd k)

theorem Dense.bijOn {d : Numbering κ} (hd : Dense d) :
    Set.BijOn (internCode d) {k | k ∈ d} (Set.Iio d.keys.card) := by
  have hcode : ∀ k ∈ d, d.lookup k = some (internCode d k) := by
    intro k hk
    obtain ⟨n, hn⟩ := Finmap.mem_iff.mp hk
    rw [internCode, hn, Option.getD_some]
  have hmaps : Set.MapsTo (internCode d) d.keys (Finset.range d.keys.card) := by
    intro k hk
    rw [Finset.coe_range, Set.mem_Iio]
    exact hd.lt_card (hcode k (Finmap.mem_keys.mp hk))
  have hinj : Set.InjOn (internCode d) d.keys := by
    intro k hk k' hk' heq
    have hlookup := hcode k' (Finmap.mem_keys.mp hk')
    rw [← heq] at hlookup
    exact hd.inj (hcode k (Finmap.mem_keys.mp hk)) hlookup
  -- as many numbers as there are keys leave none out
  have hsurj := Finset.surjOn_of_injOn_of_card_le _ hmaps hinj (by rw [Finset.card_range])
  have hkeys : (d.keys : Set κ) = {k | k ∈ d} := by
    ext k
    exact Finmap.mem_keys
  rw [Finset.coe_range] at hmaps hsurj
  rw [← hkeys]
  exact ⟨hmaps, hinj, hsurj⟩

/-- Two keys that are interned one after the other have one code exactly when they are equal. -/
theorem Dense.internCode_inj {d : Numbering κ} (hd : Dense d) (k k' : κ) :
    internCode d k = internCode (intern d k) k' ↔ k = k' := by
  have hk' := lookup_intern_self (intern d k) k'
  have hk : (intern (intern d k) k').lookup k = some (internCode d k) :=
    lookup_intern_of_some (lookup_intern_self d k)
  constructor
  · intro heq
    rw [heq] at hk
    exact (dense_intern (dense_intern hd k) k').inj hk hk'
  · rintro rfl
    rw [hk] at hk'
    exact Option.some.inj hk'

end Chronoq.Foundations
