import Arby.Asioex.SemaphoreRun

/-! The destructor of the semaphore, which is to abort the acquires that still wait. Its cursor starts
at the sentinel and the node behind the cursor is the one that is completed, so the first to be
completed is the sentinel, which is no operation. -/

namespace Arby.Asioex

open Kit

namespace AsyncSemaphore

/-- `complete` of the node at an address that is cast to an operation. The cast of the sentinel has
no result. -/
def completeAt (sem : AsyncSemaphore) (ec : ErrorCode) : WaiterAddr → Option AsyncSemaphore
  | .waiters => none
  | .op id => sem.complete id ec

/-- The loop of the destructor from the cursor `p`, `none` when `fuel` rounds do not end it. -/
def destructLoop : ℕ → AsyncSemaphore → WaiterAddr → Option AsyncSemaphore
  | 0, _, _ => none
  | fuel + 1, sem, p => do
    let node ← sem.heap p
    if node.next = .waiters then return sem
    else
      let current := p
      let p := node.next
      let sem ← sem.completeAt operationAborted current
      destructLoop fuel sem p

/-- The destructor. -/
def destruct (sem : AsyncSemaphore) (fuel : ℕ) : Option AsyncSemaphore :=
  destructLoop fuel sem .waiters

variable {sem sem' : AsyncSemaphore} {id : ℕ} {fuel : ℕ}

/-- Every waiting acquire of `sem` was aborted, in the order of the queue, nothing else was
completed, and no operation is left. -/
structure Aborted (sem sem' : AsyncSemaphore) : Prop where
  posted : sem'.posted = sem.posted ++ sem.waiting.map (⟨·, operationAborted⟩)
  waiting : sem'.waiting = []
  unlinked : sem'.heap.next .waiters = some .waiters
  destroyed : ∀ id, sem'.ops id = none

/-- While an operation is linked behind the sentinel, the loop completes the sentinel first. -/
theorem destruct_of_linked (hNext : sem.heap.next .waiters = some (.op id)) (fuel : ℕ) :
    sem.destruct fuel = none := by
  obtain ⟨node, hNode, hOp⟩ := Option.map_eq_some_iff.mp hNext
  cases fuel with
  | zero => rfl
  | succ fuel =>
    simp only [destruct, destructLoop, hNode, hOp, Option.bind_eq_bind, Option.bind_some,
      reduceCtorEq, if_false, completeAt, Option.bind_none]

theorem destruct_of_unlinked (hNext : sem.heap.next .waiters = some .waiters) (fuel : ℕ) :
    sem.destruct (fuel + 1) = some sem := by
  obtain ⟨node, hNode, hSelf⟩ := Option.map_eq_some_iff.mp hNext
  simp only [destruct, destructLoop, hNode, hSelf, Option.bind_eq_bind, Option.bind_some, if_true,
    Option.pure_def]

/-- The sentinel points to the acquire that has waited longest. -/
theorem Linked.next_waiters (h : sem.Linked) :
    sem.heap.next .waiters = some (sem.waiting.map .op |>.headD .waiters) :=
  h.ring.next_self

/-- With nothing to abort the destructor does nothing. -/
theorem Linked.destruct_idle (h : sem.Linked) (hIdle : sem.waiting = []) (fuel : ℕ) :
    sem.destruct (fuel + 1) = some sem ∧ sem.Aborted sem := by
  have hNext : sem.heap.next .waiters = some .waiters := by
    rw [h.next_waiters, hIdle]
    rfl
  refine ⟨destruct_of_unlinked hNext fuel, ?_, hIdle, hNext, fun id => ?_⟩
  · rw [hIdle, List.map_nil, List.append_nil]
  · rw [← Option.not_isSome_iff_eq_none, h.ops id, hIdle]
    exact List.not_mem_nil

/-- With an acquire in the queue the destructor has no result. -/
theorem Linked.destruct_queued (h : sem.Linked) (hQueued : sem.waiting ≠ []) (fuel : ℕ) :
    sem.destruct fuel = none := by
  obtain ⟨id, ids, hWaiting⟩ := List.exists_cons_of_ne_nil hQueued
  have hNext : sem.heap.next .waiters = some (.op id) := by
    rw [h.next_waiters, hWaiting]
    rfl
  exact destruct_of_linked hNext fuel

theorem Linked.destruct_iff (h : sem.Linked) :
    (∃ fuel sem', sem.destruct fuel = some sem' ∧ sem.Aborted sem') ↔ sem.waiting = [] := by
  constructor
  · rintro ⟨fuel, sem', hDestruct, -⟩
    by_contra hQueued
    cases (h.destruct_queued hQueued fuel).symm.trans hDestruct
  · intro hIdle
    exact ⟨1, sem, h.destruct_idle hIdle 0⟩

end AsyncSemaphore

namespace SemaphoreRun

variable {st : SemaphoreRun} {ops : List SemaphoreOp} {n : ℤ}

theorem sound_run (hn : 0 ≤ n) (hRun : run SemaphoreRun.step (start n) ops = some st) :
    st.Sound :=
  run_invariant (fun _ _ _ h hStep => (h.step hStep).1) (sound_start hn) hRun

/-- A semaphore that is destroyed after any run aborts its waiting acquires exactly when it has
none. -/
theorem aborted_run_iff (hn : 0 ≤ n) (hRun : run SemaphoreRun.step (start n) ops = some st) :
    (∃ fuel sem', st.sem.destruct fuel = some sem' ∧ st.sem.Aborted sem') ↔ st.sem.waiting = [] :=
  (sound_run hn hRun).linked.destruct_iff

/-- An acquire that waited has its permit before the semaphore goes. -/
def servedAcquire : List SemaphoreOp := [.asyncAcquire none, .release]

theorem servedAcquire_aborted : ∃ st, run SemaphoreRun.step (start 0) servedAcquire = some st ∧
    ∃ fuel sem', st.sem.destruct fuel = some sem' ∧ st.sem.Aborted sem' := by
  have hWaiting : (run SemaphoreRun.step (start 0) servedAcquire).map (·.sem.waiting) = some [] := by
    decide +kernel
  obtain ⟨st, hRun, hIdle⟩ := Option.map_eq_some_iff.mp hWaiting
  exact ⟨st, hRun, (aborted_run_iff le_rfl hRun).mpr hIdle⟩

/-- One acquire waits when the semaphore goes. -/
def queuedAcquire : List SemaphoreOp := [.asyncAcquire none]

/-- It is not aborted, since the destructor has no result. -/
theorem queuedAcquire_not_aborted :
    ∃ st, run SemaphoreRun.step (start 0) queuedAcquire = some st ∧ st.sem.waiting = [0] ∧
      ¬∃ fuel sem', st.sem.destruct fuel = some sem' ∧ st.sem.Aborted sem' := by
  have hWaiting : (run SemaphoreRun.step (start 0) queuedAcquire).map (·.sem.waiting) =
      some [0] := by
    decide +kernel
  obtain ⟨st, hRun, hQueued⟩ := Option.map_eq_some_iff.mp hWaiting
  refine ⟨st, hRun, hQueued, ?_⟩
  rintro ⟨fuel, sem', hDestruct, -⟩
  have hNone := (sound_run le_rfl hRun).linked.destruct_queued (by simp [hQueued]) fuel
  cases hNone.symm.trans hDestruct

end SemaphoreRun

end Arby.Asioex
