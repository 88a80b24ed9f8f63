import Arby.Asioex.BilistNode
import Mathlib.Algebra.Group.Int.Defs
import Mathlib.Data.List.Range

/-! The asynchronous semaphore: a counter and the ring of the acquires that wait for a permit. The
wait operations are heap objects which `complete` destroys, and the handlers of cancellation slots
point to them: a step that reaches an object which is gone has no result. -/

namespace Arby.Asioex

/-- The value of an `error_code`, 0 for success. -/
abbrev ErrorCode := ℤ

/-- `asio::error::operation_aborted`. -/
def operationAborted : ErrorCode := 125

/-- `asio::cancellation_type`, a set of bits. -/
abbrev CancellationType := BitVec 32

namespace CancellationType

def none : CancellationType := 0

def terminal : CancellationType := 1

def partially : CancellationType := 2

def total : CancellationType := 4

end CancellationType

/-- The greatest value of `int`. -/
def intMax : ℤ := 2 ^ 31 - 1

/-- The address of a node: the member `waiters_`, or the wait operation of the acquire `id`. -/
inductive WaiterAddr
  | waiters
  | op (id : ℕ)
deriving DecidableEq, Repr

theorem WaiterAddr.op_injective : Function.Injective op := fun _ _ h => op.inj h

/-- `semaphore_wait_op_model`: the cancellation slot of its handler, when there is one. The handler
is that of the acquire `id` at whose address the operation is. -/
structure SemaphoreWaitOp where
  slot : Option ℕ

/-- A handler that was posted with its error code. -/
structure Completion where
  id : ℕ
  ec : ErrorCode
deriving DecidableEq, Repr

/-- `basic_async_semaphore` and what hangs on it: the nodes and wait operations that exist, the
operation whose handler is assigned to each cancellation slot, and the completions posted so far.
`issued` acquires have been initiated, and their ids count up from 0. -/
structure AsyncSemaphore where
  count : ℤ
  heap : BilistHeap WaiterAddr := BilistHeap.construct (fun _ => none) .waiters
  ops : ℕ → Option SemaphoreWaitOp := fun _ => none
  slots : ℕ → Option ℕ := fun _ => none
  posted : List Completion := []
  issued : ℕ := 0

namespace AsyncSemaphore

/-- `semaphore_wait_op_model::complete` of the operation `id`. -/
def complete (sem : AsyncSemaphore) (id : ℕ) (ec : ErrorCode) : Option AsyncSemaphore := do
  let op ← sem.ops id
  let slots := op.slot.elim sem.slots (Function.update sem.slots · none)
  let heap ← sem.heap.unlink (.op id)
  return { sem with
    slots
    heap := heap.destroy (.op id)
    ops := Function.update sem.ops id none
    posted := sem.posted ++ [⟨id, ec⟩] }

/-- The constructor of `semaphore_wait_op_model`, for the acquire `id`. -/
def constructWaitOp (sem : AsyncSemaphore) (id : ℕ) (slot : Option ℕ) : AsyncSemaphore :=
  { sem with
    heap := sem.heap.construct (.op id)
    ops := Function.update sem.ops id (some { slot })
    slots := slot.elim sem.slots (Function.update sem.slots · (some id)) }

def addWaiter (sem : AsyncSemaphore) (id : ℕ) : Option AsyncSemaphore := do
  let heap ← sem.heap.linkBefore (.op id) .waiters
  return { sem with heap }

/-- `async_acquire`, with a handler whose cancellation slot is `slot`. -/
def asyncAcquire (sem : AsyncSemaphore) (slot : Option ℕ) : Option AsyncSemaphore :=
  let id := sem.issued
  let sem := { sem with issued := sem.issued + 1 }
  if sem.count ≠ 0 then some { sem with posted := sem.posted ++ [⟨id, 0⟩] }
  else (sem.constructWaitOp id slot).addWaiter id

/-- `try_acquire`, with its result. -/
def tryAcquire (sem : AsyncSemaphore) : AsyncSemaphore × Bool :=
  if 0 < sem.count then ({ sem with count := sem.count - 1 }, true) else (sem, false)

/-- `decrement`, `none` when its assertion fails. -/
def decrement (sem : AsyncSemaphore) : Option AsyncSemaphore :=
  if 0 < sem.count then some { sem with count := sem.count - 1 } else none

/-- `release`. An increment past the greatest `int` has no result. -/
def release (sem : AsyncSemaphore) : Option AsyncSemaphore :=
  if intMax ≤ sem.count then none
  else do
    let sem := { sem with count := sem.count + 1 }
    let node ← sem.heap .waiters
    match node.next with
    | .waiters => return sem
    | .op id =>
      let sem ← sem.decrement
      sem.complete id 0

/-- The handler that is assigned to `slot` receives a cancellation of type `type`. -/
def emit (sem : AsyncSemaphore) (slot : ℕ) (type : CancellationType) : Option AsyncSemaphore :=
  match sem.slots slot with
  | none => some sem
  | some id =>
    if type &&& (.terminal ||| .partially ||| .total) ≠ 0 then sem.complete id operationAborted
    else some sem

/-- The acquires that have been initiated and not been completed, the earliest first. -/
def waiting (sem : AsyncSemaphore) : List ℕ :=
  (List.range sem.issued).filter fun id => id ∉ sem.posted.map Completion.id

end AsyncSemaphore

end Arby.Asioex
