import Arby.Asioex.BilistNode
import Arby.Kit.Run

/-! The runs of a list with a sentinel: nodes come and go, are linked before the sentinel, unlinked
from wherever they are, and linked again with the stale pointers they were left with. The pointers
are those of the list of the linked nodes. -/

namespace Arby.Asioex

open Kit

/-- The nodes that exist, and those that were linked and not unlinked since, in the order in which
they were linked. -/
structure Bilist (α : Type*) where
  heap : BilistHeap α
  linked : List α

inductive BilistOp (α : Type*)
  | construct (x : α)
  | destroy (x : α)
  | linkBefore (x : α)
  | unlink (x : α)
deriving DecidableEq, Repr

namespace Bilist

variable {α : Type*} [DecidableEq α]

/-- The sentinel and no other node. -/
def start (s : α) : Bilist α where
  heap := BilistHeap.construct (fun _ => none) s
  linked := []

/-- An operation on the node `x`, and what it does to the linked nodes. -/
def step (s : α) (list : Bilist α) : BilistOp α → Option (Bilist α)
  | .construct x => some { list with heap := list.heap.construct x }
  | .destroy x => some { list with heap := list.heap.destroy x }
  | .linkBefore x => do
    let heap ← list.heap.linkBefore x s
    return { heap, linked := list.linked ++ [x] }
  | .unlink x => do
    let heap ← list.heap.unlink x
    return { heap, linked := list.linked.erase x }

/-- Only a node that exists and is not linked is linked or destroyed, and only one that is linked is
unlinked. -/
def Allowed (s : α) (list : Bilist α) : BilistOp α → Prop
  | .construct x => (list.heap x).isNone
  | .destroy x => x ∉ s :: list.linked
  | .linkBefore x => (list.heap x).isSome ∧ x ∉ s :: list.linked
  | .unlink x => x ∈ list.linked

instance (s : α) (list : Bilist α) : ∀ op, Decidable (Allowed s list op)
  | .construct _ => inferInstanceAs (Decidable (_ = true))
  | .destroy _ => inferInstanceAs (Decidable (¬ _))
  | .linkBefore _ => inferInstanceAs (Decidable (_ ∧ _))
  | .unlink _ => inferInstanceAs (Decidable (_ ∈ _))

/-- The pointers lead through the linked nodes in order, and through no other node. -/
structure InOrder (s : α) (list : Bilist α) : Prop where
  nodup : (s :: list.linked).Nodup
  next : Path list.heap.next s list.linked s
  prev : Path list.heap.prev s list.linked.reverse s
  reachable : ∀ x, Relation.ReflTransGen (fun y z => list.heap.next y = some z) s x ↔
    x ∈ s :: list.linked
  nextPrev : ∀ x ∈ s :: list.linked, (list.heap.next x).bind list.heap.prev = some x
  prevNext : ∀ x ∈ s :: list.linked, (list.heap.prev x).bind list.heap.next = some x
  alone : list.heap.next s = some s ↔ list.linked = []
  alonePrev : list.heap.prev s = some s ↔ list.linked = []

variable {s : α} {list list' : Bilist α} {op : BilistOp α} {ops : List (BilistOp α)}

omit [DecidableEq α] in
theorem inOrder_of_ring (h : list.heap.Ring s list.linked) : list.InOrder s where
  nodup := h.nodup
  next := h.next
  prev := h.prev
  reachable _ := h.reachable_iff
  nextPrev x hx := by
    obtain ⟨y, -, hNext, hPrev⟩ := h.next_prev hx
    rw [hNext, Option.bind_some, hPrev]
  prevNext x hx := by
    obtain ⟨y, -, hPrev, hNext⟩ := h.prev_next hx
    rw [hPrev, Option.bind_some, hNext]
  alone := h.next_self_iff
  alonePrev := by
    rw [h.reverse.next_self_iff, List.reverse_eq_nil_iff]

theorem ring_start (s : α) : (start s).heap.Ring s (start s).linked := by
  apply BilistHeap.ring_sentinel <;>
    simp [start, BilistHeap.construct, BilistHeap.next, BilistHeap.prev]

/-- An operation that is allowed reads and writes nodes that exist, and keeps the ring. -/
theorem step_ring (h : list.heap.Ring s list.linked) (hAllowed : Allowed s list op) :
    ∃ list', step s list op = some list' ∧ list'.heap.Ring s list'.linked := by
  cases op with
  | construct x =>
    refine ⟨_, rfl, h.update (fun hx => ?_) _⟩
    have hSome := h.mem_isSome hx
    rw [Option.isNone_iff_eq_none.mp hAllowed] at hSome
    cases hSome
  | destroy x => exact ⟨_, rfl, h.update hAllowed none⟩
  | linkBefore x =>
    obtain ⟨heap, hLink, hRing, -⟩ := h.linkBefore hAllowed.2 hAllowed.1
    exact ⟨_, Option.bind_eq_some_iff.mpr ⟨heap, hLink, rfl⟩, hRing⟩
  | unlink x =>
    obtain ⟨before, after, hLinked⟩ := List.append_of_mem (show x ∈ list.linked from hAllowed)
    have hErase : list.linked.erase x = before ++ after := by
      have hOut : x ∉ before := by
        have hNodup := (List.nodup_cons.mp h.nodup).2
        rw [hLinked] at hNodup
        exact fun hx => (List.nodup_append.mp hNodup).2.2 x hx x List.mem_cons_self rfl
      rw [hLinked, List.erase_append_right _ hOut, List.erase_cons_head]
    rw [hLinked] at h
    obtain ⟨heap, hUnlink, hRing, -⟩ := h.unlink
    refine ⟨_, Option.bind_eq_some_iff.mpr ⟨heap, hUnlink, rfl⟩, ?_⟩
    rw [← hErase] at hRing
    exact hRing

/-- Whatever nodes are linked and unlinked, in whatever order, the pointers lead through the linked
nodes in the order in which they were linked. -/
theorem inOrder_run (hAllowed : Along (step s) (Allowed s) (start s) ops) :
    ∃ list, run (step s) (start s) ops = some list ∧ list.InOrder s := by
  obtain ⟨list, hRun, hRing⟩ := hAllowed.exists_run
    (fun list op hRing hAllowed => step_ring hRing hAllowed) (ring_start s)
  exact ⟨list, hRun, inOrder_of_ring hRing⟩

/-- Nodes are taken out of the list when they are alone, in the middle, at the front and at the end,
and linked again. -/
def exampleOps : List (BilistOp ℕ) :=
  [.construct 1, .construct 2, .construct 3, .linkBefore 1, .unlink 1, .linkBefore 1, .linkBefore 2,
    .linkBefore 3, .unlink 2, .linkBefore 2, .unlink 1, .unlink 2, .destroy 2, .linkBefore 1]

theorem exampleOps_inOrder : ∃ list, run (step 0) (start 0) exampleOps = some list ∧
    list.InOrder 0 ∧ list.linked = [3, 1] := by
  obtain ⟨list, hRun, hInOrder⟩ :=
    inOrder_run (show Along (step 0) (Allowed 0) (start 0) exampleOps by decide)
  have hLinked : (run (step 0) (start 0) exampleOps).map linked = some [3, 1] := by decide
  rw [hRun] at hLinked
  exact ⟨list, hRun, hInOrder, Option.some.inj hLinked⟩

end Bilist

end Arby.Asioex
