import Mathlib.Order.Lattice
import Mathlib.Order.Nat

/-! The condition of a feed: the worst state of the parts that it depends on, with their errors. -/

namespace Arby.Trading

/-- The states of a feed, from best to worst. -/
inductive FeedState
  | good
  | stale
  | notReady
  | error
deriving DecidableEq, Repr

def FeedState.toNat : FeedState → ℕ
  | .good => 0
  | .stale => 1
  | .notReady => 2
  | .error => 3

theorem FeedState.toNat_injective : Function.Injective FeedState.toNat := by
  intro a b h
  cases a <;> cases b <;> first | rfl | cases h

instance : LinearOrder FeedState := LinearOrder.lift' FeedState.toNat FeedState.toNat_injective

structure FeedCondition where
  state : FeedState := .notReady
  errors : List String := []
deriving DecidableEq, Repr

namespace FeedCondition

/-- `merge(feed_state)`: the worse of the two states. -/
def mergeState (c : FeedCondition) (s : FeedState) : FeedCondition :=
  { c with state := max c.state s }

/-- `merge(feed_condition const &)`: the worse state and both lists of errors. -/
def merge (c r : FeedCondition) : FeedCondition :=
  { c.mergeState r.state with errors := c.errors ++ r.errors }

/-- `reset`: state `s` with no errors. -/
def reset (_ : FeedCondition) (s : FeedState := .good) : FeedCondition := { state := s, errors := [] }

/-- `c` with `error` added at the end. -/
def pushError (c : FeedCondition) (error : String) : FeedCondition :=
  { c with errors := c.errors ++ [error] }

@[simp] theorem merge_state (c r : FeedCondition) : (c.merge r).state = max c.state r.state := rfl

@[simp] theorem merge_errors (c r : FeedCondition) : (c.merge r).errors = c.errors ++ r.errors := rfl

@[simp] theorem reset_errors (c : FeedCondition) (s : FeedState) : (c.reset s).errors = [] := rfl

end FeedCondition

namespace FeedState

theorem good_le (s : FeedState) : good ≤ s := by
  cases s <;> decide

theorem max_eq_good {a b : FeedState} : max a b = good ↔ a = good ∧ b = good := by
  cases a <;> cases b <;> decide

@[simp] theorem good_max (s : FeedState) : max good s = s := max_eq_right (good_le s)

end FeedState

/-- What is merged into a condition that was reset to good stays as it is. -/
@[simp] theorem FeedCondition.reset_merge (c r : FeedCondition) : (c.reset .good).merge r = r := by
  unfold merge mergeState reset
  simp

end Arby.Trading
