import Mathlib.Data.List.Nodup
import Mathlib.Logic.Function.Basic
import Mathlib.Order.Lattice

/-! Singly linked chains: the nodes of a list hang one after the other from a pointer, and the last
one points to nothing. -/

namespace Kit

variable {α : Type*}

/-- The pointers `f` lead from `start` through `xs` to the null pointer. -/
def Chain (f : α → Option α) (start : Option α) : List α → Prop
  | [] => start = none
  | x :: xs => start = some x ∧ Chain f (f x) xs

namespace Chain

variable {f f' : α → Option α} {start : Option α} {x : α} {xs ys : List α}

theorem unique (h : Chain f start xs) (h' : Chain f start ys) : xs = ys := by
  induction xs generalizing start ys with
  | nil =>
    cases ys with
    | nil => rfl
    | cons y ys => cases h.symm.trans h'.1
  | cons x xs ih =>
    cases ys with
    | nil => cases h.1.symm.trans h'
    | cons y ys =>
      obtain rfl : x = y := Option.some.inj (h.1.symm.trans h'.1)
      rw [ih h.2 h'.2]

/-- A chain depends on the pointers of its own nodes only. -/
theorem congr (h : Chain f start xs) (hKept : ∀ x ∈ xs, f' x = f x) : Chain f' start xs := by
  induction xs generalizing start with
  | nil => exact h
  | cons x xs ih =>
    refine ⟨h.1, ?_⟩
    rw [hKept x List.mem_cons_self]
    exact ih h.2 fun y hy => hKept y (List.mem_cons_of_mem x hy)

theorem of_append (h : Chain f start (xs ++ x :: ys)) : Chain f (some x) (x :: ys) := by
  induction xs generalizing start with
  | nil => exact h.1 ▸ h
  | cons y xs ih => exact ih h.2

/-- A node that came twice would lead on for ever. -/
theorem head_notMem (h : Chain f start (x :: xs)) : x ∉ xs := by
  intro hx
  obtain ⟨ys, zs, rfl⟩ := List.append_of_mem hx
  have hLonger : Chain f (some x) (x :: (ys ++ x :: zs)) := h.1 ▸ h
  have hLength := congrArg List.length (hLonger.unique hLonger.2.of_append)
  rw [List.length_cons, List.length_append] at hLength
  omega

theorem nodup (h : Chain f start xs) : xs.Nodup := by
  induction xs generalizing start with
  | nil => exact List.nodup_nil
  | cons x xs ih => exact List.nodup_cons.mpr ⟨h.head_notMem, ih h.2⟩

section Stores

variable [DecidableEq α]

/-- A pointer of another node is changed. -/
theorem update (h : Chain f start xs) (hx : x ∉ xs) (v : Option α) :
    Chain (Function.update f x v) start xs :=
  h.congr fun _ hy => Function.update_of_ne (ne_of_mem_of_not_mem hy hx) ..

/-- A new node in front. -/
theorem push (h : Chain f start xs) (hx : x ∉ xs) :
    Chain (Function.update f x start) (some x) (x :: xs) := by
  refine ⟨rfl, ?_⟩
  rw [Function.update_self]
  exact h.update hx start

/-- The rest of a chain whose first node is taken off. -/
theorem pop (h : Chain f start (x :: xs)) (v : Option α) : Chain (Function.update f x v) (f x) xs :=
  h.2.update h.head_notMem v

end Stores

end Chain

end Kit
