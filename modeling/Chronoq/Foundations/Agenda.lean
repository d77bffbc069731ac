import Chronoq.Foundations.Selection

/-! # The agenda of a discrete-event simulation

Events are taken in the order of time, then of priority, then of insertion. An `Agenda` carries the
facts that make it one: nothing is scheduled in the past, and no two entries have the same number.

* `schedule`: add an event; `next`: the first entry and the agenda at its time.
* `total f`: the sum of `f` over the scheduled events, for counting them or collecting what they hold.
  `total_schedule` and `total_next` are what a step lemma about such a sum needs.
* `next_now`, `next_lt`: the clock never goes back, and nothing that is left comes before what is
  taken. -/

namespace Chronoq.Foundations

set_option autoImplicit false

structure Scheduled (τ ε : Type) where
  time : τ
  priority : ℕ
  id : ℕ
  event : ε
  deriving Repr

variable {τ ε : Type}

def Scheduled.key (e : Scheduled τ ε) : τ ×ₗ ℕ ×ₗ ℕ := toLex (e.time, toLex (e.priority, e.id))

structure Agenda (τ ε : Type) [LinearOrder τ] where
  now : τ
  entries : List (Scheduled τ ε)
  nextId : ℕ
  later : ∀ e ∈ entries, now ≤ e.time
  fresh : ∀ e ∈ entries, e.id < nextId
  distinct : (entries.map Scheduled.id).Nodup

namespace Agenda
variable [LinearOrder τ]

def start (now : τ) : Agenda τ ε where
  now := now
  entries := []
  nextId := 0
  later := by simp
  fresh := by simp
  distinct := List.nodup_nil

def schedule (a : Agenda τ ε) (time : τ) (h : a.now ≤ time) (priority : ℕ) (event : ε) :
    Agenda τ ε where
  now := a.now
  entries := ⟨time, priority, a.nextId, event⟩ :: a.entries
  nextId := a.nextId + 1
  later := List.forall_mem_cons.mpr ⟨h, a.later⟩
  fresh := List.forall_mem_cons.mpr
    ⟨Nat.lt_succ_self _, fun e he => (a.fresh e he).trans (Nat.lt_succ_self _)⟩
  distinct := by
    refine List.nodup_cons.mpr ⟨fun hmem => ?_, a.distinct⟩
    obtain ⟨e, he, hid⟩ := List.mem_map.mp hmem
    exact (a.fresh e he).ne hid

theorem time_le_of_key_le {e e' : Scheduled τ ε} (h : e.key ≤ e'.key) : e.time ≤ e'.time := by
  rcases (Prod.Lex.le_iff).mp h with hlt | ⟨heq, -⟩
  · exact hlt.le
  · exact heq.le

theorem id_lt_of_key_lt {e e' : Scheduled τ ε} (h : e.key < e'.key) (htime : e.time = e'.time)
    (hpriority : e.priority = e'.priority) : e.id < e'.id := by
  rcases (Prod.Lex.lt_iff).mp h with hlt | ⟨-, hlt⟩
  · exact absurd htime hlt.ne
  · rcases (Prod.Lex.lt_iff).mp hlt with hlt | ⟨-, hlt⟩
    · exact absurd hpriority hlt.ne
    · exact hlt

section Next
variable {a : Agenda τ ε} {e : Scheduled τ ε} {rest : List (Scheduled τ ε)}

theorem mem_of_extract (h : extractLeast Scheduled.key a.entries = some (e, rest)) :
    ∀ e' ∈ rest, e' ∈ a.entries :=
  fun _ he' => (extractLeast_perm _ h).symm.subset (List.mem_cons_of_mem _ he')

/-- The agenda after its first entry `e` is taken. -/
def advance (a : Agenda τ ε) (e : Scheduled τ ε) (rest : List (Scheduled τ ε))
    (h : extractLeast Scheduled.key a.entries = some (e, rest)) : Agenda τ ε where
  now := e.time
  entries := rest
  nextId := a.nextId
  later e' he' := time_le_of_key_le (extractLeast_le _ h e' (mem_of_extract h e' he'))
  fresh e' he' := a.fresh e' (mem_of_extract h e' he')
  distinct := by
    have hperm := (extractLeast_perm _ h).map Scheduled.id
    exact (List.nodup_cons.mp (hperm.nodup_iff.mp a.distinct)).2

end Next

def next (a : Agenda τ ε) : Option (Scheduled τ ε × Agenda τ ε) :=
  match h : extractLeast Scheduled.key a.entries with
  | none => none
  | some (e, rest) => some (e, a.advance e rest h)

theorem next_eq_none_iff {a : Agenda τ ε} : a.next = none ↔ a.entries = [] := by
  rw [← extractLeast_eq_none_iff Scheduled.key, next]
  split
  · next h => simp [h]
  · next h => simp [h]

/-! ## What `next` takes -/

section Taken
variable {a b : Agenda τ ε} {e : Scheduled τ ε}

theorem next_eq_some (h : a.next = some (e, b)) :
    extractLeast Scheduled.key a.entries = some (e, b.entries) ∧ b.now = e.time ∧
      b.nextId = a.nextId := by
  rw [next] at h
  split at h
  · cases h
  · next hextract =>
    cases h
    exact ⟨hextract, rfl, rfl⟩

theorem next_perm (h : a.next = some (e, b)) : a.entries.Perm (e :: b.entries) :=
  extractLeast_perm _ (next_eq_some h).1

theorem next_mem (h : a.next = some (e, b)) : e ∈ a.entries :=
  (next_perm h).symm.subset List.mem_cons_self

theorem mem_of_next (h : a.next = some (e, b)) {e' : Scheduled τ ε} (he' : e' ∈ b.entries) :
    e' ∈ a.entries :=
  (next_perm h).symm.subset (List.mem_cons_of_mem _ he')

/-- The clock never goes back. -/
theorem next_now (h : a.next = some (e, b)) : a.now ≤ b.now := by
  rw [(next_eq_some h).2.1]
  exact a.later e (next_mem h)

/-- Nothing left comes before what is taken. -/
theorem next_lt (h : a.next = some (e, b)) {e' : Scheduled τ ε} (he' : e' ∈ b.entries) :
    e.key < e'.key := by
  refine extractLeast_lt _ (next_eq_some h).1 ?_ e' he'
  have hid : (a.entries.map Scheduled.key).map (fun k => (ofLex (ofLex k).2).2) =
      a.entries.map Scheduled.id := by
    rw [List.map_map]
    rfl
  exact List.Nodup.of_map _ (hid ▸ a.distinct)

end Taken

/-! ## Sums over the scheduled events -/

section Total
variable {M : Type*} [AddCommMonoid M] {a b : Agenda τ ε} {e : Scheduled τ ε}

def total (f : ε → M) (a : Agenda τ ε) : M := (a.entries.map fun e => f e.event).sum

@[simp] theorem total_start (f : ε → M) (now : τ) : (start now : Agenda τ ε).total f = 0 := rfl

@[simp] theorem total_schedule (f : ε → M) (time : τ) (h : a.now ≤ time) (priority : ℕ) (event : ε) :
    (a.schedule time h priority event).total f = f event + a.total f := List.sum_cons

theorem total_next (f : ε → M) (h : a.next = some (e, b)) :
    a.total f = f e.event + b.total f := by
  rw [total, ((next_perm h).map _).sum_eq, List.map_cons, List.sum_cons]
  rfl

theorem total_eq_zero (f : ε → M) (h : a.entries = []) : a.total f = 0 := by
  rw [total, h]
  rfl

theorem total_congr {f g : ε → M} (h : ∀ e ∈ a.entries, f e.event = g e.event) :
    a.total f = a.total g := by
  rw [total, total, List.map_congr_left h]

theorem total_eq_zero_of_forall {f : ε → M} (h : ∀ e ∈ a.entries, f e.event = 0) : a.total f = 0 := by
  refine List.sum_eq_zero fun x hx => ?_
  obtain ⟨e, he, rfl⟩ := List.mem_map.mp hx
  exact h e he

theorem map_total {N : Type*} [AddCommMonoid N] (g : M →+ N) (f : ε → M) :
    g (a.total f) = a.total fun event => g (f event) := by
  rw [total, map_list_sum, List.map_map]
  rfl

theorem mem_total {β : Type*} {f : ε → Multiset β} {x : β} :
    x ∈ a.total f ↔ ∃ e ∈ a.entries, x ∈ f e.event := by
  rw [total, List.sum_eq_foldr]
  induction a.entries with
  | nil => simp
  | cons e entries ih =>
    rw [List.map_cons, List.foldr_cons, Multiset.mem_add, ih]
    simp

theorem total_mono {f g : ε → ℕ} (h : ∀ event, f event ≤ g event) : a.total f ≤ a.total g :=
  List.sum_le_sum fun e _ => h e.event

end Total

end Agenda

end Chronoq.Foundations
