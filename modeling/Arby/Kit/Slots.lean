import Mathlib.Data.List.NodupEquivFin
import Mathlib.Logic.Function.Basic
import Mathlib.Order.Lattice

/-! Objects named by their place in a list. A destroyed object leaves `none` behind, and a new one
takes the place after the last, so that a name is never used again. -/

namespace Kit

variable {α β : Type*} {l : List (Option α)} {i j : ℕ} {a : α}

/-- The object at place `i`, `none` when there is none. -/
def slot (l : List (Option α)) (i : ℕ) : Option α := l[i]?.join

theorem slot_of_lt (h : i < l.length) : slot l i = l[i] := by simp [slot, h]

theorem slot_of_ge (h : l.length ≤ i) : slot l i = none := by
  simp [slot, List.getElem?_eq_none h]

theorem lt_of_slot (h : slot l i = some a) : i < l.length := by
  by_contra hLe
  rw [slot_of_ge (not_lt.mp hLe)] at h
  cases h

theorem mem_of_slot (h : slot l i = some a) : some a ∈ l := by
  have hLt := lt_of_slot h
  rw [slot_of_lt hLt] at h
  exact h ▸ List.getElem_mem hLt

/-- A new object. -/
theorem slot_concat (l : List (Option α)) (v : Option α) :
    slot (l ++ [v]) = Function.update (slot l) l.length v := by
  funext k
  rcases lt_trichotomy k l.length with hk | rfl | hk
  · rw [Function.update_of_ne hk.ne, slot, slot, List.getElem?_append_left hk]
  · rw [Function.update_self]
    simp [slot]
  · rw [Function.update_of_ne hk.ne', slot_of_ge hk.le, slot_of_ge]
    rw [List.length_append, List.length_singleton]
    exact hk

/-- A changed or a destroyed object. -/
theorem slot_set (h : i < l.length) (v : Option α) :
    slot (l.set i v) = Function.update (slot l) i v := by
  funext k
  by_cases hk : k = i
  · rw [hk, Function.update_self]
    simp [slot, h]
  · rw [Function.update_of_ne hk, slot, slot, List.getElem?_set_ne (Ne.symm hk)]

variable [DecidableEq α]

/-- An object in two places is counted twice. -/
theorem two_le_countP (hi : slot l i = some a) (hj : slot l j = some a) (hne : j ≠ i) :
    2 ≤ l.countP (· = some a) := by
  have hiLt := lt_of_slot hi
  have hjLt := lt_of_slot hj
  rw [slot_of_lt hiLt] at hi
  rw [slot_of_lt hjLt] at hj
  have hDuplicate : List.Duplicate (some a) l := by
    rw [List.duplicate_iff_exists_distinct_get]
    rcases lt_or_gt_of_ne hne with hlt | hgt
    · exact ⟨⟨j, hjLt⟩, ⟨i, hiLt⟩, hlt, hj.symm, hi.symm⟩
    · exact ⟨⟨i, hiLt⟩, ⟨j, hjLt⟩, hgt, hi.symm, hj.symm⟩
  exact List.duplicate_iff_two_le_count.mp hDuplicate

/-- The count of an object when the object at place `i` is replaced. -/
theorem countP_set_slot (h : slot l i = some a) (v b : Option α) :
    (l.set i v).countP (· = b) + (if some a = b then 1 else 0) =
      l.countP (· = b) + (if v = b then 1 else 0) := by
  have hLt := lt_of_slot h
  rw [slot_of_lt hLt] at h
  rw [List.countP_set hLt, h]
  simp only [decide_eq_true_eq]
  split
  · rename_i hSame
    have hPos : 0 < l.countP (· = b) :=
      List.countP_pos_iff.mpr ⟨l[i], List.getElem_mem hLt, decide_eq_true (h.trans hSame)⟩
    omega
  · omega

/-- An object that is not counted once is in another place as well. -/
theorem exists_slot_ne (hi : slot l i = some a) (hCount : l.countP (· = some a) ≠ 1) :
    ∃ j, j ≠ i ∧ slot l j = some a := by
  have hPos : 0 < l.countP (· = some a) :=
    List.countP_pos_iff.mpr ⟨_, mem_of_slot hi, decide_eq_true rfl⟩
  have hTwo : 2 ≤ l.countP (· = some a) := by omega
  obtain ⟨m, n, hlt, hm, hn⟩ :=
    List.duplicate_iff_exists_distinct_get.mp (List.duplicate_iff_two_le_count.mpr hTwo)
  by_cases hmi : (m : ℕ) = i
  · refine ⟨n, fun hni => hlt.ne (Fin.ext (hmi.trans hni.symm)), ?_⟩
    rw [slot_of_lt n.2]
    exact hn.symm
  · refine ⟨m, hmi, ?_⟩
    rw [slot_of_lt m.2]
    exact hm.symm

end Kit
