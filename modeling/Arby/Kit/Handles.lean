import Arby.Kit.Slots
import Mathlib.Data.List.Perm.Basic

/-! Move-only handles, named by their places. Each owns some resources, and what is moved goes from one
to another: an operation on handles neither doubles nor loses what they own, beside what it takes away
or brings in. -/

namespace Kit

variable {α ρ : Type*}

/-- The resources that the handles at all places own, with how often they do. -/
def held (owned : α → List ρ) (l : List (Option α)) : List ρ :=
  l.flatMap fun a => (a.map owned).getD []

variable {owned : α → List ρ} {l : List (Option α)} {i j : ℕ} {a b empty : α} {r : ρ}

/-- A new handle. -/
@[simp] theorem held_concat (v : Option α) :
    held owned (l ++ [v]) = held owned l ++ (v.map owned).getD [] := by
  simp [held]

/-- A handle that is changed or destroyed. -/
theorem held_set (owned : α → List ρ) (h : slot l i = some a) (v : Option α) :
    (held owned (l.set i v) ++ owned a).Perm (held owned l ++ (v.map owned).getD []) := by
  induction l generalizing i with
  | nil =>
    rw [slot_of_ge (Nat.zero_le i)] at h
    cases h
  | cons b l ih =>
    cases i with
    | zero =>
      obtain rfl : b = some a := h
      simp only [held, List.set_cons_zero, List.flatMap_cons, Option.map_some, Option.getD_some]
      refine List.perm_append_comm.trans ?_
      rw [List.append_assoc]
      exact List.perm_append_comm.append_left _
    | succ i =>
      have hTail : slot l i = some a := h
      simp only [held, List.set_cons_succ, List.flatMap_cons, List.append_assoc]
      exact (ih hTail).append_left _

/-- What the handle at place `j` owns goes to a new one. -/
theorem held_moved (h : slot l j = some a) (hEmpty : owned empty = []) :
    (held owned (l.set j (some empty) ++ [some a])).Perm (held owned l) := by
  have hSet := held_set owned h (some empty)
  simpa [hEmpty] using hSet

/-- What the handle at place `j` owns replaces what the one at place `i` owned. -/
theorem held_replaced (hi : slot l i = some a) (hj : slot l j = some b) (hne : i ≠ j)
    (hEmpty : owned empty = []) :
    (held owned ((l.set i (some b)).set j (some empty)) ++ owned a).Perm (held owned l) := by
  have hj' : slot (l.set i (some b)) j = some b := by
    rw [slot_set (lt_of_slot hi), Function.update_of_ne hne.symm, hj]
  have hFirst := held_set owned hi (some b)
  have hSecond := held_set owned hj' (some empty)
  simp only [Option.map_some, Option.getD_some, hEmpty, List.append_nil] at hFirst hSecond
  refine (List.perm_append_right_iff (owned b)).mp ?_
  calc (_ ++ owned a ++ owned b).Perm (_ ++ (owned b ++ owned a)) := by
        rw [List.append_assoc]
        exact List.perm_append_comm.append_left _
    _ = _ ++ owned b ++ owned a := (List.append_assoc ..).symm
    List.Perm _ (held owned (l.set i (some b)) ++ owned a) := hSecond.append_right _
    List.Perm _ (held owned l ++ owned b) := hFirst

theorem mem_held : r ∈ held owned l ↔ ∃ i a, slot l i = some a ∧ r ∈ owned a := by
  rw [held, List.mem_flatMap]
  constructor
  · rintro ⟨v, hv, hr⟩
    cases v with
    | none => cases hr
    | some a =>
      obtain ⟨i, hi, hAt⟩ := List.mem_iff_getElem.mp hv
      exact ⟨i, a, (slot_of_lt hi).trans hAt, hr⟩
  · rintro ⟨i, a, hAt, hr⟩
    exact ⟨some a, mem_of_slot hAt, hr⟩

end Kit
