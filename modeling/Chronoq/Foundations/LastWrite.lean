import Mathlib

/-! # What a loop of assignments leaves behind

A place that every pass of a loop either overwrites or leaves alone holds the last value written to it
(`read_foldl`). Where some passes write to several places and others only to a few of them,
`LastWhole whole xs` is the last pass that wrote all of them and `after whole xs` are the partial ones
behind it; each place then holds the last partial value if there is one, and otherwise what the last
whole pass wrote (`getLast?_filterMap`).

`setItem` is the assignment to a dictionary that keeps its items in the order of their first
assignment. -/

namespace Chronoq.Foundations

set_option autoImplicit false

/-! ## One place -/

section Read
variable {σ α β : Type} (step : σ → α → σ) (read : σ → Option β) (write : α → Option β)

theorem read_foldl (h : ∀ s x, read (step s x) = (write x).or (read s)) (xs : List α) (s : σ) :
    read (xs.foldl step s) = (xs.filterMap write).getLast?.or (read s) := by
  induction xs using List.reverseRecOn with
  | nil => rfl
  | append_singleton xs x ih =>
    rw [List.foldl_concat, h, ih, List.filterMap_append, List.getLast?_append]
    cases hwrite : write x with
    | none => simp [hwrite]
    | some b => simp [hwrite]

end Read

/-! ## Whole and partial writes -/

section Whole
variable {α γ β : Type} (whole : α → Option γ)

/-- What the last whole write wrote. -/
def lastWhole (xs : List α) : Option γ := (xs.filterMap whole).getLast?

/-- The writes behind the last whole one. -/
def after (xs : List α) : List α := xs.rtakeWhile fun x => (whole x).isNone

variable {whole} {xs : List α} {x : α} {c : γ}

theorem lastWhole_concat (xs : List α) (x : α) :
    lastWhole whole (xs ++ [x]) = (whole x).or (lastWhole whole xs) := by
  rw [lastWhole, List.filterMap_append, List.getLast?_append]
  cases hwhole : whole x with
  | none => simp [hwhole, lastWhole]
  | some c => simp [hwhole]

theorem after_concat_of_none (xs : List α) (hx : whole x = none) :
    after whole (xs ++ [x]) = after whole xs ++ [x] :=
  List.rtakeWhile_concat_pos _ _ _ (by simp [hx])

theorem after_concat_of_some (xs : List α) (hx : whole x = some c) :
    after whole (xs ++ [x]) = [] :=
  List.rtakeWhile_concat_neg _ _ _ (by simp [hx])

theorem after_filter_whole (xs : List α) : after whole (xs.filter fun x => (whole x).isSome) = [] := by
  rw [after, List.rtakeWhile_eq_nil_iff]
  intro hne hnone
  have hmem := List.of_mem_filter (List.getLast_mem hne)
  rw [Option.isNone_iff_eq_none] at hnone
  rw [hnone] at hmem
  cases hmem

theorem lastWhole_filter_whole (xs : List α) :
    lastWhole whole (xs.filter fun x => (whole x).isSome) = lastWhole whole xs := by
  rw [lastWhole, lastWhole, List.filterMap_filter]
  congr 2
  funext x
  cases whole x <;> rfl

/-- A place holds the last partial value, if one was written after the last whole write. -/
theorem getLast?_filterMap {write : α → Option β} {value : γ → β}
    (h : ∀ x c, whole x = some c → write x = some (value c)) (xs : List α) :
    (xs.filterMap write).getLast? =
      ((after whole xs).filterMap write).getLast?.or ((lastWhole whole xs).map value) := by
  induction xs using List.reverseRecOn with
  | nil => rfl
  | append_singleton xs x ih =>
    rw [List.filterMap_append, List.getLast?_append, ih, lastWhole_concat]
    cases hwhole : whole x with
    | none =>
      rw [after_concat_of_none xs hwhole, List.filterMap_append, List.getLast?_append, Option.none_or,
        Option.or_assoc]
    | some c =>
      rw [after_concat_of_some xs hwhole]
      simp [h x c hwhole]

end Whole

/-! ## Dictionaries in the order of insertion -/

section SetItem
variable {κ ν : Type} [DecidableEq κ] {key : κ} {value : ν} {items : List (κ × ν)}

/-- `items[key] = value`: a key that is there keeps its place. -/
def setItem (key : κ) (value : ν) : List (κ × ν) → List (κ × ν)
  | [] => [(key, value)]
  | item :: items =>
    if item.1 = key then (key, value) :: items else item :: setItem key value items

/-- Every key has one item. -/
def UniqueKeys (items : List (κ × ν)) : Prop := (items.map Prod.fst).Nodup

theorem keys_setItem (key : κ) (value : ν) (items : List (κ × ν)) :
    (setItem key value items).map Prod.fst =
      if key ∈ items.map Prod.fst then items.map Prod.fst else items.map Prod.fst ++ [key] := by
  induction items with
  | nil => simp [setItem]
  | cons item items ih =>
    rw [setItem]
    by_cases hkey : item.1 = key
    · simp [hkey]
    · have hne : key ≠ item.1 := Ne.symm hkey
      rw [if_neg hkey, List.map_cons, ih]
      simp only [List.map_cons, List.mem_cons, hne, false_or]
      split <;> rfl

theorem UniqueKeys.setItem (h : UniqueKeys items) (key : κ) (value : ν) :
    UniqueKeys (setItem key value items) := by
  rw [UniqueKeys, keys_setItem]
  split
  · exact h
  · next hnew =>
    rw [List.nodup_append]
    exact ⟨h, List.nodup_singleton _, fun k hk k' hk' heq =>
      hnew (List.mem_singleton.mp hk' ▸ heq ▸ hk)⟩

variable [BEq κ] [LawfulBEq κ]

theorem lookup_cons (item : κ × ν) (items : List (κ × ν)) (k : κ) :
    (item :: items).lookup k = if k = item.1 then some item.2 else items.lookup k := by
  rw [List.lookup_cons]
  by_cases hk : k = item.1
  · rw [if_pos hk, beq_iff_eq.mpr hk]
  · rw [if_neg hk, beq_false_of_ne hk]

theorem lookup_setItem (key : κ) (value : ν) (items : List (κ × ν)) (k : κ) :
    (setItem key value items).lookup k = if k = key then some value else items.lookup k := by
  induction items with
  | nil => rw [Foundations.setItem, lookup_cons]
  | cons item items ih =>
    rw [Foundations.setItem]
    by_cases hkey : item.1 = key
    · rw [if_pos hkey, lookup_cons, lookup_cons, hkey]
      split <;> rfl
    · rw [if_neg hkey, lookup_cons, lookup_cons, ih]
      by_cases hk : k = item.1
      · rw [if_pos hk, if_neg (hk ▸ hkey), if_pos hk]
      · rw [if_neg hk, if_neg hk]

theorem UniqueKeys.mem_iff_lookup (h : UniqueKeys items) :
    (key, value) ∈ items ↔ items.lookup key = some value := by
  induction items with
  | nil => simp
  | cons item items ih =>
    obtain ⟨k, v⟩ := item
    have hitems : UniqueKeys items := (List.nodup_cons.mp h).2
    have hfresh : k ∉ items.map Prod.fst := (List.nodup_cons.mp h).1
    rw [List.mem_cons, lookup_cons, Prod.mk.injEq]
    by_cases hkey : key = k
    · rw [if_pos hkey, Option.some_inj]
      have hmissing : (key, value) ∉ items := fun hmem =>
        hfresh (hkey ▸ List.mem_map_of_mem hmem)
      simp only [hkey, true_and, hkey ▸ hmissing, or_false]
      exact eq_comm
    · rw [if_neg hkey, ih hitems]
      exact or_iff_right fun hboth => hkey hboth.1

end SetItem

end Chronoq.Foundations
