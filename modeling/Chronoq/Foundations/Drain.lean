import Chronoq.Foundations.Selection

/-! # The order in which a priority queue is drained

Taking the least element again and again, the earliest of several least ones, lists a queue in stable order
of its keys (`sortBy_extractLeast`). Where every element is numbered as it comes and the number decides between
equal keys, this is the stable order of the keys alone, however the queue holds its elements
(`sortBy_eq_of_perm`, `sortBy_numbered`). Elements that are added later go in between, but do not change the
order of those that are there: `Drains.filter`, for one step of a queue. -/

namespace Chronoq.Foundations

set_option autoImplicit false

variable {α κ : Type*} [LinearOrder κ] (key : α → κ)

/-- The elements in ascending order of their keys, those of one key as they were. -/
def sortBy (l : List α) : List α := l.insertionSort fun a b => key a ≤ key b

theorem sortBy_perm (l : List α) : (sortBy key l).Perm l := List.perm_insertionSort _ l

theorem pairwise_sortBy (l : List α) : (sortBy key l).Pairwise fun a b => key a ≤ key b := by
  have : IsTrans α fun a b => key a ≤ key b := ⟨fun _ _ _ => le_trans⟩
  have : Std.Total fun a b : α => key a ≤ key b := ⟨fun _ _ => le_total _ _⟩
  exact List.pairwise_insertionSort _ l

theorem sortBy_cons (a : α) (l : List α) :
    sortBy key (a :: l) = (sortBy key l).orderedInsert (fun a b => key a ≤ key b) a := rfl

/-- The element that is taken out comes first. -/
theorem sortBy_extractLeast {l rest : List α} {a : α} (h : extractLeast key l = some (a, rest)) :
    sortBy key l = a :: sortBy key rest := by
  induction l generalizing a rest with
  | nil => cases h
  | cons b l ih =>
    rcases extractLeast_cons_cases key h with ⟨rfl, rfl, hleast⟩ | ⟨cs, htail, rfl, hlt⟩
    · -- the head is no greater than what comes first in the tail
      rw [sortBy_cons]
      cases htail : extractLeast key rest with
      | none =>
        rw [(extractLeast_eq_none_iff key).mp htail]
        rfl
      | some least =>
        obtain ⟨c, cs⟩ := least
        rw [ih htail, List.orderedInsert_cons, if_pos (hleast c cs htail)]
    · rw [sortBy_cons, ih htail, List.orderedInsert_cons, if_neg (not_le.mpr hlt), sortBy_cons]

theorem filter_orderedInsert {l : List α} (hl : l.Pairwise fun a b => key a ≤ key b) (p : α → Bool)
    (a : α) : (l.orderedInsert (fun a b => key a ≤ key b) a).filter p =
      if p a then (l.filter p).orderedInsert (fun a b => key a ≤ key b) a else l.filter p := by
  induction l with
  | nil => cases hp : p a <;> simp [hp]
  | cons b l ih =>
    obtain ⟨hb, hl⟩ := List.pairwise_cons.mp hl
    rw [List.orderedInsert_cons]
    by_cases hab : key a ≤ key b
    · rw [if_pos hab, List.filter_cons]
      split
      · -- whatever comes first among the rest is no smaller
        cases hrest : (b :: l).filter p with
        | nil => rfl
        | cons c rest =>
          have hmem : c ∈ b :: l := List.mem_of_mem_filter (hrest ▸ List.mem_cons_self)
          have hac : key a ≤ key c := by
            rcases List.mem_cons.mp hmem with rfl | hmem
            · exact hab
            · exact hab.trans (hb c hmem)
          rw [List.orderedInsert_cons, if_pos hac]
      · rfl
    · rw [if_neg hab, List.filter_cons, ih hl, List.filter_cons]
      by_cases hpb : p b
      · rw [if_pos hpb, if_pos hpb]
        split
        · rw [List.orderedInsert_cons, if_neg hab]
        · rfl
      · rw [if_neg hpb, if_neg hpb]

/-- Sorting what is left of a list is leaving it of the sorted list. -/
theorem filter_sortBy (p : α → Bool) (l : List α) :
    (sortBy key l).filter p = sortBy key (l.filter p) := by
  induction l with
  | nil => rfl
  | cons a l ih =>
    rw [sortBy_cons, filter_orderedInsert key (pairwise_sortBy key l), ih, List.filter_cons]
    split
    · rw [sortBy_cons]
    · rfl

/-! ## Priority queues whose entries are numbered -/

/-- Where keys tell the elements apart, the order in which they are held does not matter. -/
theorem sortBy_eq_of_perm {l l' : List α} (h : l.Perm l') (hnd : (l.map key).Nodup) :
    sortBy key l = sortBy key l' := by
  apply List.Perm.eq_of_pairwise ?_ (pairwise_sortBy key l) (pairwise_sortBy key l')
    ((sortBy_perm key l).trans (h.trans (sortBy_perm key l').symm))
  intro a b ha hb hab hba
  have ha' : a ∈ l := (sortBy_perm key l).subset ha
  have hb' : b ∈ l := h.symm.subset ((sortBy_perm key l').subset hb)
  exact List.inj_on_of_nodup_map hnd ha' hb' (le_antisymm hab hba)

theorem map_sortBy {β : Type*} (f : β → α) (l : List β) :
    (sortBy (fun b => key (f b)) l).map f = sortBy key (l.map f) :=
  List.map_insertionSort _ _ f l fun _ _ _ _ => Iff.rfl

theorem orderedInsert_congr {r r' : α → α → Prop} [DecidableRel r] [DecidableRel r'] {a : α}
    {l : List α} (h : ∀ b ∈ l, r a b ↔ r' a b) : l.orderedInsert r a = l.orderedInsert r' a := by
  induction l with
  | nil => rfl
  | cons b l ih =>
    have htail := ih fun c hc => h c (List.mem_cons_of_mem _ hc)
    rw [List.orderedInsert_cons, List.orderedInsert_cons, htail]
    simp only [h b List.mem_cons_self]

/-- Among elements numbered in the order in which they came, the number decides ties as the stable order
does. -/
theorem sortBy_numbered {number : α → ℕ} {l : List α}
    (h : l.Pairwise fun a b => number a < number b) :
    sortBy (fun a => toLex (key a, number a)) l = sortBy key l := by
  induction l with
  | nil => rfl
  | cons a l ih =>
    obtain ⟨ha, hl⟩ := List.pairwise_cons.mp h
    rw [sortBy_cons, sortBy_cons, ih hl]
    apply orderedInsert_congr
    intro b hb
    have hlt := ha b ((sortBy_perm key l).subset hb)
    rw [Prod.Lex.toLex_le_toLex]
    constructor
    · rintro (hless | ⟨heq, -⟩)
      · exact hless.le
      · exact heq.le
    · intro hle
      rcases hle.lt_or_eq with hless | heq
      · exact .inl hless
      · exact .inr ⟨heq, hlt.le⟩

/-! ## Steps of a queue -/

/-- What a step can do with a queue: nothing, add an element, or take a least one out. -/
inductive Drains : List α → List α → List α → List α → Prop
  | stay (l : List α) : Drains l [] [] l
  | push (l : List α) (a : α) : Drains l [a] [] (l ++ [a])
  | pop {l rest : List α} {a : α} (h : extractLeast key l = some (a, rest)) : Drains l [] [a] rest

variable {key}

/-- Of the elements that are not added now, what comes out is the first in the order of the queue. -/
theorem Drains.filter {l l' added out : List α} (h : Drains key l added out l') {p : α → Bool}
    (hadded : ∀ a ∈ added, p a = false) :
    out.filter p ++ (sortBy key l').filter p = (sortBy key l).filter p := by
  cases h with
  | stay => rfl
  | push a =>
    rw [filter_sortBy, filter_sortBy, List.filter_append, List.filter_cons_of_neg (by
      simpa using hadded a List.mem_cons_self)]
    simp
  | pop hleast =>
    rw [sortBy_extractLeast key hleast, ← List.filter_append]
    rfl

end Chronoq.Foundations
