import Mathlib.Data.List.Nodup
import Mathlib.Data.List.Perm.Subperm

/-! Objects with identities: no two of a list share one, and the identities from a bound on are
free. -/

namespace Kit

variable {α : Type*} {f : α → ℕ} {n : ℕ} {os os' : List α} {a b : α}

/-- The objects `os` have distinct identities `f`, all below `n`. -/
structure Allocated (f : α → ℕ) (n : ℕ) (os : List α) : Prop where
  distinct : (os.map f).Nodup
  below : ∀ o ∈ os, f o < n

namespace Allocated

theorem perm (h : Allocated f n os) (hp : os'.Perm os) : Allocated f n os' where
  distinct := (hp.map f).nodup_iff.mpr h.distinct
  below o ho := h.below o (hp.mem_iff.mp ho)

theorem sublist (h : Allocated f n os) (hs : os'.Sublist os) : Allocated f n os' where
  distinct := (hs.map f).nodup h.distinct
  below o ho := h.below o (hs.subset ho)

theorem subperm (h : Allocated f n os) (hs : os'.Subperm os) : Allocated f n os' := by
  obtain ⟨l, hPerm, hSub⟩ := hs
  exact (h.sublist hSub).perm hPerm.symm

theorem update (h : Allocated f n (a :: os)) (hab : f b = f a) : Allocated f n (b :: os) where
  distinct := by
    rw [List.map_cons, hab]
    exact h.distinct
  below := by
    intro o ho
    rcases List.mem_cons.mp ho with rfl | ho
    · rw [hab]
      exact h.below a List.mem_cons_self
    · exact h.below o (List.mem_cons_of_mem a ho)

theorem cons (h : Allocated f n os) (ha : f a = n) : Allocated f (n + 1) (a :: os) where
  distinct := by
    rw [List.map_cons, List.nodup_cons]
    refine ⟨fun hMem => ?_, h.distinct⟩
    obtain ⟨o, ho, hoa⟩ := List.mem_map.mp hMem
    have := h.below o ho
    omega
  below := by
    intro o ho
    rcases List.mem_cons.mp ho with rfl | ho
    · omega
    · have := h.below o ho
      omega

theorem eq_of_identity (h : Allocated f n os) (ha : a ∈ os) (hb : b ∈ os) (hab : f a = f b) :
    a = b :=
  List.inj_on_of_nodup_map h.distinct ha hb hab

/-- A lookup by identity finds an object exactly when the list has it. -/
theorem find?_eq_some (h : Allocated f n os) :
    (os.find? fun o => f o = f a) = some a ↔ a ∈ os := by
  constructor
  · exact List.mem_of_find?_eq_some
  · intro ha
    obtain ⟨b, hb⟩ := Option.isSome_iff_exists.mp
      (List.find?_isSome.mpr ⟨a, ha, decide_eq_true rfl⟩ : (os.find? fun o => f o = f a).isSome)
    have hba : f b = f a := by simpa using List.find?_some hb
    rw [hb, h.eq_of_identity (List.mem_of_find?_eq_some hb) ha hba]

end Allocated

end Kit
