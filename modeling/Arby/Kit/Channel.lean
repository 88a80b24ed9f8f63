import Mathlib.Data.List.Basic
import Mathlib.Order.Lattice

/-! Bounded channels, as the handlers of one executor use them: a value that does not fit waits with
its sender, and a receiver that finds none waits for the next. -/

namespace Kit

variable {σ α : Type*}

/-- The operations of a channel with states of type `σ`. `trySend` is `none` when it refuses the
value; otherwise both kinds of sends say which value a waiting receiver is given. `asyncReceive` is
given a value at once, or waits. -/
structure Channel (σ α : Type*) where
  trySend : σ → α → Option (σ × Option α)
  asyncSend : σ → α → σ × Option α
  tryReceive : σ → Option (σ × α)
  asyncReceive : σ → σ × Option α
  close : σ → σ

namespace Channel

/-- A send that waits when there is no room. -/
def send (ch : Channel σ α) (s : σ) (a : α) : σ × Option α :=
  match ch.trySend s a with
  | some result => result
  | none => ch.asyncSend s a

/-- A channel that is a first-in-first-out queue with room for `capacity` values. `queue` are the
values in it and then those of the blocked sends. -/
structure IsFifo (ch : Channel σ α) (capacity : ℕ) (queue : σ → List α) (Waiting Open : σ → Prop) :
    Prop where
  queue_waiting : ∀ s, Waiting s → queue s = []
  trySend_waiting : ∀ s a, Open s → Waiting s →
    ∃ s', ch.trySend s a = some (s', some a) ∧ Open s' ∧ ¬Waiting s' ∧ queue s' = []
  trySend_room : ∀ s a, Open s → ¬Waiting s → (queue s).length < capacity →
    ∃ s', ch.trySend s a = some (s', none) ∧ Open s' ∧ ¬Waiting s' ∧ queue s' = queue s ++ [a]
  trySend_full : ∀ s a, Open s → ¬Waiting s → capacity ≤ (queue s).length → ch.trySend s a = none
  asyncSend_full : ∀ s a, Open s → ¬Waiting s → capacity ≤ (queue s).length →
    ∃ s', ch.asyncSend s a = (s', none) ∧ Open s' ∧ ¬Waiting s' ∧ queue s' = queue s ++ [a]
  tryReceive_cons : ∀ s a rest, Open s → queue s = a :: rest →
    ∃ s', ch.tryReceive s = some (s', a) ∧ Open s' ∧ ¬Waiting s' ∧ queue s' = rest
  tryReceive_nil : ∀ s, Open s → queue s = [] → ch.tryReceive s = none
  asyncReceive_nil : ∀ s, Open s → ¬Waiting s → queue s = [] →
    ∃ s', ch.asyncReceive s = (s', none) ∧ Open s' ∧ Waiting s'
  close : ∀ s, ¬Open (ch.close s)
  trySend_closed : ∀ s a, ¬Open s → ch.trySend s a = none
  asyncSend_closed : ∀ s a, ¬Open s → ∃ s', ch.asyncSend s a = (s', none) ∧ ¬Open s'

namespace IsFifo

variable {ch : Channel σ α} {capacity : ℕ} {queue : σ → List α} {Waiting Open : σ → Prop} {s : σ}

/-- A waiting receiver is given the value. -/
theorem send_waiting (h : ch.IsFifo capacity queue Waiting Open) (hOpen : Open s)
    (hWaiting : Waiting s) (a : α) :
    ∃ s', ch.send s a = (s', some a) ∧ Open s' ∧ ¬Waiting s' ∧ queue s' = [] := by
  obtain ⟨s', hSend, hRest⟩ := h.trySend_waiting s a hOpen hWaiting
  exact ⟨s', by rw [send, hSend], hRest⟩

/-- Without one, the value queues up behind all others, whether there is room for it or not. -/
theorem send_open (h : ch.IsFifo capacity queue Waiting Open) (hOpen : Open s)
    (hWaiting : ¬Waiting s) (a : α) :
    ∃ s', ch.send s a = (s', none) ∧ Open s' ∧ ¬Waiting s' ∧ queue s' = queue s ++ [a] := by
  rcases lt_or_ge (queue s).length capacity with hRoom | hFull
  · obtain ⟨s', hSend, hRest⟩ := h.trySend_room s a hOpen hWaiting hRoom
    exact ⟨s', by rw [send, hSend], hRest⟩
  · obtain ⟨s', hSend, hRest⟩ := h.asyncSend_full s a hOpen hWaiting hFull
    exact ⟨s', by rw [send, h.trySend_full s a hOpen hWaiting hFull, hSend], hRest⟩

theorem send_closed (h : ch.IsFifo capacity queue Waiting Open) (hClosed : ¬Open s) (a : α) :
    ∃ s', ch.send s a = (s', none) ∧ ¬Open s' := by
  obtain ⟨s', hSend, hRest⟩ := h.asyncSend_closed s a hClosed
  exact ⟨s', by rw [send, h.trySend_closed s a hClosed, hSend], hRest⟩

end IsFifo

end Channel

/-! ### A first-in-first-out queue -/

/-- A receiver waits, or there are values to receive. -/
inductive Fifo (α : Type*)
  | waiting
  | holding (queue : List α)
  | closed (queue : List α)

namespace Fifo

def queue : Fifo α → List α
  | waiting => []
  | holding queue => queue
  | closed queue => queue

/-- The values from number `capacity` on belong to blocked sends. -/
def channel (capacity : ℕ) : Channel (Fifo α) α where
  trySend
    | waiting, a => some (holding [], some a)
    | holding queue, a =>
      if queue.length < capacity then some (holding (queue ++ [a]), none) else none
    | closed _, _ => none
  asyncSend
    | waiting, a => (holding [], some a)
    | holding queue, a => (holding (queue ++ [a]), none)
    | closed queue, _ => (closed queue, none)
  tryReceive
    | holding (a :: rest) => some (holding rest, a)
    | closed (a :: rest) => some (closed rest, a)
    | _ => none
  asyncReceive
    | holding (a :: rest) => (holding rest, some a)
    | closed (a :: rest) => (closed rest, some a)
    | closed [] => (closed [], none)
    | _ => (waiting, none)
  close s := closed s.queue

def Waiting : Fifo α → Prop
  | waiting => True
  | _ => False

def Open : Fifo α → Prop
  | closed _ => False
  | _ => True

theorem channel_isFifo (capacity : ℕ) :
    (channel capacity : Channel (Fifo α) α).IsFifo capacity queue Waiting Open where
  queue_waiting s hWaiting := by
    cases s with
    | waiting => rfl
    | _ => cases hWaiting
  trySend_waiting s a _ hWaiting := by
    cases s with
    | waiting => exact ⟨holding [], rfl, trivial, id, rfl⟩
    | _ => cases hWaiting
  trySend_room s a hOpen hWaiting hRoom := by
    cases s with
    | waiting => exact absurd trivial hWaiting
    | holding queue => exact ⟨holding (queue ++ [a]), if_pos hRoom, trivial, id, rfl⟩
    | closed _ => cases hOpen
  trySend_full s a hOpen hWaiting hFull := by
    cases s with
    | waiting => exact absurd trivial hWaiting
    | holding queue => exact if_neg (not_lt.mpr hFull)
    | closed _ => cases hOpen
  asyncSend_full s a hOpen hWaiting _ := by
    cases s with
    | waiting => exact absurd trivial hWaiting
    | holding queue => exact ⟨holding (queue ++ [a]), rfl, trivial, id, rfl⟩
    | closed _ => cases hOpen
  tryReceive_cons s a rest hOpen hQueue := by
    cases s with
    | waiting => cases hQueue
    | holding queue =>
      obtain rfl : queue = a :: rest := hQueue
      exact ⟨holding rest, rfl, trivial, id, rfl⟩
    | closed _ => cases hOpen
  tryReceive_nil s hOpen hQueue := by
    cases s with
    | waiting => rfl
    | holding queue =>
      obtain rfl : queue = [] := hQueue
      rfl
    | closed _ => cases hOpen
  asyncReceive_nil s hOpen hWaiting hQueue := by
    cases s with
    | waiting => exact absurd trivial hWaiting
    | holding queue =>
      obtain rfl : queue = [] := hQueue
      exact ⟨waiting, rfl, trivial, trivial⟩
    | closed _ => cases hOpen
  close _ := id
  trySend_closed s a hClosed := by
    cases s with
    | closed _ => rfl
    | _ => exact absurd trivial hClosed
  asyncSend_closed s a hClosed := by
    cases s with
    | closed queue => exact ⟨closed queue, rfl, id⟩
    | _ => exact absurd trivial hClosed

end Fifo

end Kit
