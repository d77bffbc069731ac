import Mathlib

/-! # A resource with a number of slots, granted first come, first served

`Resource ρ` is held by `users` and waited for in `putQueue`. Asking puts the request at the end of the
queue; whoever asks or has given a slot back then tries the head of the queue, once.

* `triggerPut`: that one try; `request`, `release`: what a process calls.
* `triggerPut_users`, `triggerPut_queue`: what is granted moves from the queue to the users.
* `Covered tries`: as long as a request waits, there are no more free slots than tries to come. A
  `release` frees a slot before its try is made, so this is the invariant that the users of a resource
  keep, and without tries to come nobody waits in vain (`Covered.queue_eq_nil`). -/

namespace Chronoq.Foundations

set_option autoImplicit false

structure Resource (ρ : Type) where
  capacity : ℕ
  users : List ρ
  putQueue : List ρ
  bounded : users.length ≤ capacity

namespace Resource
variable {ρ : Type}

def new (capacity : ℕ) : Resource ρ where
  capacity := capacity
  users := []
  putQueue := []
  bounded := Nat.zero_le _

/-- Grant the request at the head of the queue if a slot is free; also returns what is granted. -/
def triggerPut (r : Resource ρ) : Resource ρ × Option ρ :=
  match r.putQueue with
  | [] => (r, none)
  | head :: rest =>
    if h : r.users.length < r.capacity then
      ({ capacity := r.capacity
         users := r.users ++ [head]
         putQueue := rest
         bounded := by rw [List.length_append]; exact h }, some head)
    else (r, none)

def enqueue (r : Resource ρ) (request : ρ) : Resource ρ :=
  { r with putQueue := r.putQueue ++ [request] }

def request (r : Resource ρ) (request : ρ) : Resource ρ × Option ρ := (r.enqueue request).triggerPut

def release [DecidableEq ρ] (r : Resource ρ) (request : ρ) : Resource ρ where
  capacity := r.capacity
  users := r.users.erase request
  putQueue := r.putQueue
  bounded := (List.erase_sublist.length_le).trans r.bounded

/-- A try finds nobody waiting, no slot free, or grants the head of the queue. -/
theorem triggerPut_cases (r : Resource ρ) :
    (r.putQueue = [] ∧ r.triggerPut = (r, none)) ∨
      (r.capacity ≤ r.users.length ∧ r.triggerPut = (r, none)) ∨
      ∃ head, r.triggerPut.2 = some head ∧ r.triggerPut.1.users = r.users ++ [head] ∧
        r.putQueue = head :: r.triggerPut.1.putQueue := by
  cases hqueue : r.putQueue with
  | nil =>
    refine .inl ⟨rfl, ?_⟩
    rw [triggerPut, hqueue]
  | cons head rest =>
    rw [triggerPut, hqueue]
    dsimp only
    by_cases h : r.users.length < r.capacity
    · rw [dif_pos h]
      exact .inr (.inr ⟨head, rfl, rfl, rfl⟩)
    · rw [dif_neg h]
      exact .inr (.inl ⟨not_lt.mp h, rfl⟩)

@[simp] theorem triggerPut_capacity (r : Resource ρ) : r.triggerPut.1.capacity = r.capacity := by
  unfold triggerPut
  split
  · rfl
  · split <;> rfl

theorem triggerPut_users (r : Resource ρ) :
    r.triggerPut.1.users = r.users ++ r.triggerPut.2.toList := by
  obtain ⟨-, h⟩ | ⟨-, h⟩ | ⟨head, hgranted, husers, -⟩ := r.triggerPut_cases
  · rw [h]
    exact (List.append_nil _).symm
  · rw [h]
    exact (List.append_nil _).symm
  · rw [hgranted, husers]
    rfl

theorem triggerPut_queue (r : Resource ρ) :
    r.putQueue = r.triggerPut.2.toList ++ r.triggerPut.1.putQueue := by
  obtain ⟨-, h⟩ | ⟨-, h⟩ | ⟨head, hgranted, -, hqueue⟩ := r.triggerPut_cases
  · rw [h]
    rfl
  · rw [h]
    rfl
  · rw [hgranted, hqueue]
    rfl

theorem triggerPut_queue_length (r : Resource ρ) :
    r.putQueue.length = r.triggerPut.2.toList.length + r.triggerPut.1.putQueue.length := by
  rw [← List.length_append, ← triggerPut_queue]

theorem request_queue_length (r : Resource ρ) (request : ρ) :
    r.putQueue.length + 1 =
      (r.request request).2.toList.length + (r.request request).1.putQueue.length :=
  List.length_append.symm.trans (r.enqueue request).triggerPut_queue_length

/-! ## Nobody waits in vain -/

def Covered (r : Resource ρ) (tries : ℕ) : Prop :=
  r.putQueue ≠ [] → r.capacity ≤ r.users.length + tries

theorem Covered.triggerPut {r : Resource ρ} {tries : ℕ} (h : r.Covered (tries + 1)) :
    r.triggerPut.1.Covered tries := by
  obtain ⟨hnone, hr⟩ | ⟨hfull, hr⟩ | ⟨head, -, husers, hqueue⟩ := r.triggerPut_cases
  · rw [hr]
    exact fun hne => absurd hnone hne
  · rw [hr]
    exact fun _ => hfull.trans (Nat.le_add_right _ _)
  · intro _
    have hcapacity := h (by rw [hqueue]; exact List.cons_ne_nil _ _)
    rw [triggerPut_capacity, husers, List.length_append, List.length_singleton]
    omega

theorem Covered.request {r : Resource ρ} {tries : ℕ} (h : r.Covered tries) (request : ρ) :
    (r.request request).1.Covered tries := by
  obtain ⟨hnone, -⟩ | ⟨hfull, hr⟩ | ⟨head, -, husers, hqueue⟩ :=
    (r.enqueue request).triggerPut_cases
  · simp [enqueue] at hnone
  · rw [Resource.request, hr]
    exact fun _ => hfull.trans (Nat.le_add_right _ _)
  · intro hne
    rw [Resource.request] at hne ⊢
    rw [triggerPut_capacity, husers, List.length_append, List.length_singleton]
    show r.capacity ≤ r.users.length + 1 + tries
    by_cases hwaiting : r.putQueue = []
    · -- the request was alone in the queue, and is granted
      have halone : (r.enqueue request).putQueue = [request] := by
        rw [enqueue, hwaiting]
        rfl
      rw [halone] at hqueue
      exact absurd (List.cons.inj hqueue).2.symm hne
    · have hcapacity := h hwaiting
      omega

theorem Covered.release [DecidableEq ρ] {r : Resource ρ} {tries : ℕ} (h : r.Covered tries)
    (request : ρ) : (r.release request).Covered (tries + 1) := by
  intro hne
  have hcapacity := h hne
  have hlength : r.users.length ≤ (r.users.erase request).length + 1 := by
    rw [List.length_erase]
    split <;> omega
  show r.capacity ≤ (r.users.erase request).length + (tries + 1)
  omega

/-- Without users and without tries to come, the queue is empty. -/
theorem Covered.queue_eq_nil {r : Resource ρ} (h : r.Covered 0) (husers : r.users = [])
    (hcapacity : 1 ≤ r.capacity) : r.putQueue = [] := by
  by_contra hne
  have hle := h hne
  rw [husers, List.length_nil] at hle
  omega

end Resource

end Chronoq.Foundations
