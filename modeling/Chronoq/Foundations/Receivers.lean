import Mathlib

/-! # Signals that may hold their receivers weakly

A `Wiring` is what a process knows about the receivers of its signals: which function object is
connected to which signal and how, and which function objects something refers to strongly, either a
local variable of the running function (`locals`) or anything that outlives it (`held`). A weakly
connected receiver without a strong reference is dropped. Nothing here is about a particular program;
`κ` names the signals and `φ` the function objects.

* `Wiring.leave`: the running function returns, and its local variables die.
* `receivers_leave`: who is still connected after that.
* `Wiring.sendAll`: a sequence of signals, each delivered to every receiver.
* `forall_prefix_foldl_iff`: a fold that never leaves its initial state. -/

namespace Chronoq.Foundations

set_option autoImplicit false

variable {κ φ σ α : Type*}

/-! ## Wirings -/

structure Connection (κ φ : Type*) where
  signal : κ
  receiver : φ
  weak : Bool

structure Wiring (κ φ : Type*) where
  connections : List (Connection κ φ)
  locals : List φ
  held : List φ

namespace Wiring

def empty : Wiring κ φ := ⟨[], [], []⟩

/-- The running function binds a function object to a local variable. -/
def define (w : Wiring κ φ) (f : φ) : Wiring κ φ := { w with locals := f :: w.locals }

/-- Something that outlives the running function takes a reference. -/
def hold (w : Wiring κ φ) (f : φ) : Wiring κ φ := { w with held := f :: w.held }

def connect (w : Wiring κ φ) (signal : κ) (f : φ) (weak : Bool) : Wiring κ φ :=
  { w with connections := w.connections ++ [⟨signal, f, weak⟩] }

variable [DecidableEq κ] [DecidableEq φ]

omit [DecidableEq κ] in
def alive (w : Wiring κ φ) (c : Connection κ φ) : Bool :=
  !c.weak || c.receiver ∈ w.locals || c.receiver ∈ w.held

omit [DecidableEq κ] in
/-- The running function returns: its local variables die, and dead receivers are dropped. -/
def leave (w : Wiring κ φ) : Wiring κ φ :=
  { w with
    locals := []
    connections := w.connections.filter fun c => ({ w with locals := [] } : Wiring κ φ).alive c }

def receivers (w : Wiring κ φ) (signal : κ) : List φ :=
  (w.connections.filter fun c => w.alive c && c.signal = signal).map Connection.receiver

/-! ## After the function has returned -/

theorem receivers_leave (w : Wiring κ φ) (signal : κ) :
    w.leave.receivers signal =
      (w.connections.filter fun c => (!c.weak || c.receiver ∈ w.held) && c.signal = signal).map
        Connection.receiver := by
  unfold receivers leave
  rw [List.filter_filter]
  congr 1
  refine List.filter_congr fun c _ => ?_
  simp only [alive, List.not_mem_nil, decide_false, Bool.or_false]
  cases c.weak <;> cases decide (c.receiver ∈ w.held) <;> simp

/-- Receivers connected weakly and bound to local variables only are all gone. -/
theorem receivers_leave_of_weak {w : Wiring κ φ} (hweak : ∀ c ∈ w.connections, c.weak = true)
    (hheld : w.held = []) (signal : κ) : w.leave.receivers signal = [] := by
  rw [receivers_leave, List.map_eq_nil_iff, List.filter_eq_nil_iff]
  intro c hc
  simp [hweak c hc, hheld]

/-- Receivers connected strongly are all still there. -/
theorem receivers_leave_of_strong {w : Wiring κ φ} (hstrong : ∀ c ∈ w.connections, c.weak = false)
    (signal : κ) :
    w.leave.receivers signal =
      (w.connections.filter fun c => c.signal = signal).map Connection.receiver := by
  rw [receivers_leave]
  congr 1
  refine List.filter_congr fun c hc => ?_
  simp [hstrong c hc]

/-! ## Sending -/

/-- Deliver one signal to every receiver, in the order of connection. -/
def send (w : Wiring κ φ) (deliver : φ → σ → α → σ) (signalOf : α → κ) (st : σ) (a : α) : σ :=
  (w.receivers (signalOf a)).foldl (fun st f => deliver f st a) st

def sendAll (w : Wiring κ φ) (deliver : φ → σ → α → σ) (signalOf : α → κ) (st : σ) (as : List α) : σ :=
  as.foldl (w.send deliver signalOf) st

/-- Without receivers every signal is ignored. -/
theorem sendAll_of_no_receivers {w : Wiring κ φ} (h : ∀ signal, w.receivers signal = [])
    (deliver : φ → σ → α → σ) (signalOf : α → κ) (st : σ) (as : List α) :
    w.sendAll deliver signalOf st as = st := by
  induction as with
  | nil => rfl
  | cons a as ih =>
    have hone : w.send deliver signalOf st a = st := by rw [send, h]; rfl
    show w.sendAll deliver signalOf (w.send deliver signalOf st a) as = st
    rw [hone, ih]

/-- With exactly one receiver for each signal the state is the fold of the receivers. -/
theorem sendAll_of_single_receiver {w : Wiring κ φ} {receiver : κ → φ}
    (h : ∀ signal, w.receivers signal = [receiver signal]) (deliver : φ → σ → α → σ)
    (signalOf : α → κ) (st : σ) (as : List α) :
    w.sendAll deliver signalOf st as =
      as.foldl (fun st a => deliver (receiver (signalOf a)) st a) st := by
  induction as generalizing st with
  | nil => rfl
  | cons a as ih =>
    have hone : w.send deliver signalOf st a = deliver (receiver (signalOf a)) st a := by
      rw [send, h]
      rfl
    show w.sendAll deliver signalOf (w.send deliver signalOf st a) as = _
    rw [hone, ih]
    rfl

end Wiring

/-- A fold stays in its initial state after every prefix exactly when no element moves that state. -/
theorem forall_prefix_foldl_iff (f : σ → α → σ) (st : σ) (as : List α) :
    (∀ bs cs, as = bs ++ cs → bs.foldl f st = st) ↔ ∀ a ∈ as, f st a = st := by
  constructor
  · intro h a ha
    obtain ⟨bs, cs, rfl⟩ := List.append_of_mem ha
    have hbefore := h bs (a :: cs) rfl
    have hafter := h (bs ++ [a]) cs (by simp)
    rwa [List.foldl_append, hbefore] at hafter
  · rintro h bs cs rfl
    induction bs with
    | nil => rfl
    | cons b bs ih =>
      rw [List.foldl_cons, h b List.mem_cons_self]
      exact ih fun a ha => h a (List.mem_cons_of_mem b ha)

end Chronoq.Foundations
