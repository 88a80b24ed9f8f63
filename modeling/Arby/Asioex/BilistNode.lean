import Arby.Kit.Ring

/-! The intrusive list of the semaphore. A node is linked into a ring through a sentinel, and its
two pointers are all that the ring consists of. -/

namespace Arby.Asioex

open Kit

/-- `bilist_node`, over the type `α` of addresses. -/
structure BilistNode (α : Type*) where
  next : α
  prev : α

/-- The nodes that exist. -/
abbrev BilistHeap (α : Type*) := α → Option (BilistNode α)

namespace BilistHeap

variable {α : Type*} [DecidableEq α]

/-- The constructor of `bilist_node` at `self`. -/
def construct (heap : BilistHeap α) (self : α) : BilistHeap α :=
  Function.update heap self (some { next := self, prev := self })

/-- The node at `self` is destroyed. -/
def destroy (heap : BilistHeap α) (self : α) : BilistHeap α := Function.update heap self none

def setNext (heap : BilistHeap α) (a next : α) : Option (BilistHeap α) := do
  let node ← heap a
  return Function.update heap a (some { node with next })

def setPrev (heap : BilistHeap α) (a prev : α) : Option (BilistHeap α) := do
  let node ← heap a
  return Function.update heap a (some { node with prev })

/-- `unlink` of the node at `self`, `none` when it reads or writes a node that does not exist. -/
def unlink (heap : BilistHeap α) (self : α) : Option (BilistHeap α) := do
  let node ← heap self
  let heap ← heap.setPrev node.next node.prev
  heap.setNext node.prev node.next

/-- `link_before` of the node at `self`, `none` as for `unlink`. -/
def linkBefore (heap : BilistHeap α) (self next : α) : Option (BilistHeap α) := do
  let heap ← heap.setNext self next
  let node ← heap next
  let heap ← heap.setPrev self node.prev
  let heap ← heap.setNext node.prev self
  heap.setPrev next self

/-- The node at `a` points to the next one. -/
def next (heap : BilistHeap α) (a : α) : Option α := (heap a).map BilistNode.next

def prev (heap : BilistHeap α) (a : α) : Option α := (heap a).map BilistNode.prev

variable {heap heap' : BilistHeap α} {a b s x : α} {xs ys : List α}

theorem setNext_eq_some (h : heap.setNext a b = some heap') :
    heap'.next = Function.update heap.next a (some b) ∧ heap'.prev = heap.prev ∧
      ∀ c, (heap' c).isSome = (heap c).isSome := by
  obtain ⟨node, hNode, hHeap⟩ := Option.bind_eq_some_iff.mp h
  obtain rfl := Option.some.inj hHeap
  refine ⟨funext fun c => ?_, funext fun c => ?_, fun c => ?_⟩ <;>
    by_cases hc : c = a <;> simp [next, prev, Function.update, hc, hNode]

theorem setPrev_eq_some (h : heap.setPrev a b = some heap') :
    heap'.next = heap.next ∧ heap'.prev = Function.update heap.prev a (some b) ∧
      ∀ c, (heap' c).isSome = (heap c).isSome := by
  obtain ⟨node, hNode, hHeap⟩ := Option.bind_eq_some_iff.mp h
  obtain rfl := Option.some.inj hHeap
  refine ⟨funext fun c => ?_, funext fun c => ?_, fun c => ?_⟩ <;>
    by_cases hc : c = a <;> simp [next, prev, Function.update, hc, hNode]

theorem setNext_isSome (h : (heap a).isSome) (b : α) : ∃ heap', heap.setNext a b = some heap' := by
  obtain ⟨node, hNode⟩ := Option.isSome_iff_exists.mp h
  exact ⟨_, Option.bind_eq_some_iff.mpr ⟨node, hNode, rfl⟩⟩

theorem setPrev_isSome (h : (heap a).isSome) (b : α) : ∃ heap', heap.setPrev a b = some heap' := by
  obtain ⟨node, hNode⟩ := Option.isSome_iff_exists.mp h
  exact ⟨_, Option.bind_eq_some_iff.mpr ⟨node, hNode, rfl⟩⟩

/-- The ring of the nodes `xs` with sentinel `s`. -/
def Ring (heap : BilistHeap α) (s : α) (xs : List α) : Prop := IsRing heap.next heap.prev s xs

omit [DecidableEq α] in
theorem isSome_of_next (h : heap.next a = some b) : (heap a).isSome := by
  obtain ⟨node, hNode, -⟩ := Option.map_eq_some_iff.mp h
  exact hNode ▸ rfl

omit [DecidableEq α] in
theorem Ring.mem_isSome (h : heap.Ring s xs) (hx : x ∈ s :: xs) : (heap x).isSome := by
  rcases List.mem_cons.mp hx with rfl | hx
  · exact isSome_of_next h.next_self
  · obtain ⟨before, after, rfl⟩ := List.append_of_mem hx
    exact isSome_of_next h.next_mem

omit [DecidableEq α] in
theorem ring_sentinel (h : heap.next s = some s) (h' : heap.prev s = some s) : heap.Ring s [] :=
  ⟨List.nodup_singleton s, h, h'⟩

/-- A node that is not in the ring is linked before the sentinel: it is the last one. -/
theorem Ring.linkBefore (h : heap.Ring s xs) (hx : x ∉ s :: xs) (hNode : (heap x).isSome) :
    ∃ heap', heap.linkBefore x s = some heap' ∧ heap'.Ring s (xs ++ [x]) ∧
      ∀ c, (heap' c).isSome = (heap c).isSome := by
  have hs : s ≠ x := fun hEq => hx (hEq ▸ List.mem_cons_self)
  have hLast : xs.getLastD s ∈ s :: xs := List.getLastD_mem_cons
  obtain ⟨heap₁, h₁⟩ := setNext_isSome hNode s
  obtain ⟨hNext₁, hPrev₁, hSome₁⟩ := setNext_eq_some h₁
  obtain ⟨node, hSentinel, hPrev⟩ := Option.map_eq_some_iff.mp
    (show heap₁.prev s = some (xs.getLastD s) from hPrev₁ ▸ h.prev_self)
  obtain ⟨heap₂, h₂⟩ := setPrev_isSome (a := x) (by rw [hSome₁, hNode]) (xs.getLastD s)
  obtain ⟨hNext₂, hPrev₂, hSome₂⟩ := setPrev_eq_some h₂
  obtain ⟨heap₃, h₃⟩ := setNext_isSome (a := xs.getLastD s)
    (by rw [hSome₂, hSome₁, h.mem_isSome hLast]) x
  obtain ⟨hNext₃, hPrev₃, hSome₃⟩ := setNext_eq_some h₃
  obtain ⟨heap₄, h₄⟩ := setPrev_isSome (a := s)
    (by rw [hSome₃, hSome₂, hSome₁, h.mem_isSome List.mem_cons_self]) x
  obtain ⟨hNext₄, hPrev₄, hSome₄⟩ := setPrev_eq_some h₄
  refine ⟨heap₄, ?_, ?_, fun c => by rw [hSome₄, hSome₃, hSome₂, hSome₁]⟩
  · simp only [BilistHeap.linkBefore, h₁, hSentinel, Option.bind_eq_bind, Option.bind_some, hPrev,
      h₂, h₃, h₄]
  · rw [Ring, hNext₄, hPrev₄, hNext₃, hPrev₃, hNext₂, hPrev₂, hNext₁, hPrev₁]
    exact h.concat hx

/-- A node of the ring is taken out, and its own pointers stay as they are. -/
theorem Ring.unlink (h : heap.Ring s (xs ++ x :: ys)) :
    ∃ heap', heap.unlink x = some heap' ∧ heap'.Ring s (xs ++ ys) ∧
      ∀ c, (heap' c).isSome = (heap c).isSome := by
  have hHead : ys.headD s ∈ s :: (xs ++ x :: ys) := by
    cases ys <;> simp
  have hLast : xs.getLastD s ∈ s :: (xs ++ x :: ys) :=
    List.mem_append_left (x :: ys) (List.getLastD_mem_cons (l := xs))
  obtain ⟨node, hNode, hNext⟩ := Option.map_eq_some_iff.mp h.next_mem
  have hPrev : node.prev = xs.getLastD s := by
    have := h.prev_mem
    rw [prev, hNode] at this
    exact Option.some.inj this
  obtain ⟨heap₁, h₁⟩ := setPrev_isSome (h.mem_isSome hHead) (xs.getLastD s)
  obtain ⟨hNext₁, hPrev₁, hSome₁⟩ := setPrev_eq_some h₁
  obtain ⟨heap₂, h₂⟩ := setNext_isSome (a := xs.getLastD s)
    (by rw [hSome₁, h.mem_isSome hLast]) (ys.headD s)
  obtain ⟨hNext₂, hPrev₂, hSome₂⟩ := setNext_eq_some h₂
  refine ⟨heap₂, ?_, ?_, fun c => by rw [hSome₂, hSome₁]⟩
  · simp only [BilistHeap.unlink, hNode, Option.bind_eq_bind, Option.bind_some, hNext, hPrev, h₁, h₂]
  · rw [Ring, hNext₂, hPrev₂, hNext₁, hPrev₁]
    exact h.remove

/-- What becomes of a node outside the ring does not matter to it. -/
theorem Ring.update (h : heap.Ring s xs) (hx : x ∉ s :: xs) (node : Option (BilistNode α)) :
    BilistHeap.Ring (Function.update heap x node) s xs := by
  refine h.congr (fun y hy => ?_) fun y hy => ?_
  all_goals
    have hne : y ≠ x := ne_of_mem_of_not_mem hy hx
    simp [next, prev, Function.update_of_ne hne]

end BilistHeap

end Arby.Asioex
