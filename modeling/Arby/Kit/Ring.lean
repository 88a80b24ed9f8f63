import Mathlib.Data.List.Nodup
import Mathlib.Logic.Function.Basic
import Mathlib.Logic.Relation
import Mathlib.Order.Lattice

/-! Doubly linked rings: the nodes of a list hang between two ends by pointers to the next node and
to the previous one. Both directions are paths, and what is proved about one of them holds of the
other with the list reversed. -/

namespace Kit

variable {α : Type*}

theorem headD_reverse (xs : List α) (a : α) : xs.reverse.headD a = xs.getLastD a := by
  rw [List.headD_eq_head?_getD, List.head?_reverse, List.getLastD_eq_getLast?]

theorem getLastD_reverse (xs : List α) (a : α) : xs.reverse.getLastD a = xs.headD a := by
  rw [← headD_reverse, List.reverse_reverse]

/-- The pointers `f` lead from `a` through `xs` to `b`. -/
def Path (f : α → Option α) (a : α) (xs : List α) (b : α) : Prop :=
  match xs with
  | [] => f a = some b
  | x :: xs => f a = some x ∧ Path f x xs b

namespace Path

variable {f f' : α → Option α} {a a' b b' x : α} {xs ys : List α}

theorem append_cons : Path f a (xs ++ x :: ys) b ↔ Path f a xs x ∧ Path f x ys b := by
  induction xs generalizing a with
  | nil => exact Iff.rfl
  | cons y xs ih => exact (and_congr_right fun _ => ih).trans and_assoc.symm

theorem first (h : Path f a xs b) : f a = some (xs.headD b) := by
  cases xs with
  | nil => exact h
  | cons x xs => exact h.1

/-- The path from another node that points to the same one. -/
theorem congr (h : Path f a xs b) (ha : f' a' = f a) (hxs : ∀ x ∈ xs, f' x = f x) :
    Path f' a' xs b := by
  induction xs generalizing a a' with
  | nil => exact ha.trans h
  | cons x xs ih =>
    exact ⟨ha.trans h.1, ih h.2 (hxs x List.mem_cons_self) fun y hy => hxs y (.tail _ hy)⟩

/-- The nodes of a path can be reached from where it starts. -/
theorem reaches (h : Path f a xs b) (hx : x ∈ a :: xs) :
    Relation.ReflTransGen (fun y z => f y = some z) a x := by
  induction xs generalizing a with
  | nil => exact List.mem_singleton.mp hx ▸ .refl
  | cons y xs ih =>
    rcases List.mem_cons.mp hx with rfl | hx
    · exact .refl
    · exact .head h.1 (ih h.2 hx)

/-- The last pointer of the path is turned to `b'`. -/
theorem redirect (h : Path f a xs b) (hNodup : (a :: xs).Nodup)
    (hLast : f' (xs.getLastD a) = some b')
    (hKept : ∀ x ∈ a :: xs, x ≠ xs.getLastD a → f' x = f x) : Path f' a xs b' := by
  induction xs generalizing a with
  | nil => exact hLast
  | cons x xs ih =>
    rw [List.getLastD_cons] at hLast hKept
    obtain ⟨ha, hRest⟩ := List.nodup_cons.mp hNodup
    have hne : a ≠ xs.getLastD x := by
      rintro rfl
      exact ha List.getLastD_mem_cons
    refine ⟨(hKept a List.mem_cons_self hne).trans h.1, ih h.2 hRest hLast fun y hy => ?_⟩
    exact hKept y (.tail _ hy)

/-- The node `x` is left out. -/
theorem skip (h : Path f a (xs ++ x :: ys) b) (hNodup : (a :: (xs ++ x :: ys)).Nodup)
    (hLast : f' (xs.getLastD a) = some (ys.headD b))
    (hKept : ∀ y ∈ a :: (xs ++ x :: ys), y ≠ xs.getLastD a → f' y = f y) :
    Path f' a (xs ++ ys) b := by
  obtain ⟨hBefore, hAfter⟩ := append_cons.mp h
  obtain ⟨hFront, hBack, hDisjoint⟩ := List.nodup_append.mp (List.cons_append .. ▸ hNodup)
  have hRedirect : Path f' a xs (ys.headD b) :=
    hBefore.redirect hFront hLast fun y hy => hKept y (List.mem_append_left (x :: ys) hy)
  cases ys with
  | nil => exact (List.append_nil xs).symm ▸ hRedirect
  | cons y ys =>
    have hSame : ∀ z ∈ y :: ys, f' z = f z := by
      intro z hz
      refine hKept z (List.mem_append_right (a :: xs) (.tail _ hz)) fun hLast => ?_
      exact hDisjoint _ List.getLastD_mem_cons z (.tail _ hz) hLast.symm
    refine append_cons.mpr ⟨hRedirect, hAfter.2.congr (hSame y List.mem_cons_self) ?_⟩
    exact fun z hz => hSame z (.tail _ hz)

end Path

/-- The pointers `next` lead from `s` through `xs` back to `s`, and the pointers `prev` lead the
other way round. -/
structure IsRing (next prev : α → Option α) (s : α) (xs : List α) : Prop where
  nodup : (s :: xs).Nodup
  next : Path next s xs s
  prev : Path prev s xs.reverse s

namespace IsRing

variable {next prev next' prev' : α → Option α} {s x : α} {xs ys : List α}

theorem reverse (h : IsRing next prev s xs) : IsRing prev next s xs.reverse where
  nodup := by
    have := h.nodup
    rw [List.nodup_cons] at this ⊢
    simpa using this
  next := h.prev
  prev := by
    rw [List.reverse_reverse]
    exact h.next

theorem next_self (h : IsRing next prev s xs) : next s = some (xs.headD s) := h.next.first

theorem prev_self (h : IsRing next prev s xs) : prev s = some (xs.getLastD s) :=
  headD_reverse xs s ▸ h.prev.first

theorem next_mem (h : IsRing next prev s (xs ++ x :: ys)) : next x = some (ys.headD s) :=
  (Path.append_cons.mp h.next).2.first

theorem prev_mem (h : IsRing next prev s (xs ++ x :: ys)) : prev x = some (xs.getLastD s) := by
  have hReverse : (xs ++ x :: ys).reverse = ys.reverse ++ x :: xs.reverse := by simp
  exact headD_reverse xs s ▸ (Path.append_cons.mp (hReverse ▸ h.prev)).2.first

/-- From a node to the next one and back. -/
theorem next_prev (h : IsRing next prev s xs) (hx : x ∈ s :: xs) :
    ∃ y ∈ s :: xs, next x = some y ∧ prev y = some x := by
  rcases List.mem_cons.mp hx with rfl | hx
  · refine ⟨_, ?_, h.next_self, ?_⟩
    · cases xs <;> simp
    · cases xs with
      | nil => exact h.prev_self
      | cons y ys =>
        have hFront : IsRing next prev x ([] ++ y :: ys) := h
        exact hFront.prev_mem
  · obtain ⟨before, after, rfl⟩ := List.append_of_mem hx
    refine ⟨_, ?_, h.next_mem, ?_⟩
    · cases after <;> simp
    · cases after with
      | nil => simpa using h.prev_self
      | cons y ys =>
        have hSplit : before ++ x :: y :: ys = (before ++ [x]) ++ y :: ys := by simp
        have hPrev := prev_mem (hSplit ▸ h)
        rwa [List.getLastD_concat] at hPrev

theorem prev_next (h : IsRing next prev s xs) (hx : x ∈ s :: xs) :
    ∃ y ∈ s :: xs, prev x = some y ∧ next y = some x := by
  simpa using h.reverse.next_prev (x := x) (by simpa using hx)

/-- What can be reached from the sentinel is the ring. -/
theorem reachable_iff (h : IsRing next prev s xs) :
    Relation.ReflTransGen (fun y z => next y = some z) s x ↔ x ∈ s :: xs := by
  refine ⟨fun hReach => ?_, h.next.reaches⟩
  induction hReach with
  | refl => exact List.mem_cons_self
  | tail _ hNext ih =>
    obtain ⟨y, hy, hNext', -⟩ := h.next_prev ih
    exact Option.some.inj (hNext'.symm.trans hNext) ▸ hy

theorem next_self_iff (h : IsRing next prev s xs) : next s = some s ↔ xs = [] := by
  rw [h.next_self, Option.some.injEq]
  cases xs with
  | nil => simp
  | cons x xs =>
    simpa using ne_of_mem_of_not_mem List.mem_cons_self (List.nodup_cons.mp h.nodup).1

/-- The ring depends on the pointers of its own nodes only. -/
theorem congr (h : IsRing next prev s xs) (hNext : ∀ x ∈ s :: xs, next' x = next x)
    (hPrev : ∀ x ∈ s :: xs, prev' x = prev x) : IsRing next' prev' s xs where
  nodup := h.nodup
  next := h.next.congr (hNext s List.mem_cons_self) fun x hx => hNext x (.tail _ hx)
  prev := h.prev.congr (hPrev s List.mem_cons_self) fun x hx =>
    hPrev x (.tail _ (List.mem_reverse.mp hx))

section Stores

variable [DecidableEq α]

/-- A new node `x` at the end of the ring. -/
theorem concat (h : IsRing next prev s xs) (hx : x ∉ s :: xs) :
    IsRing (Function.update (Function.update next x (some s)) (xs.getLastD s) (some x))
      (Function.update (Function.update prev x (some (xs.getLastD s))) s (some x)) s
      (xs ++ [x]) where
  nodup := by
    have := h.nodup
    simp only [List.nodup_cons, List.mem_append, List.nodup_append, List.mem_cons] at this hx ⊢
    grind
  next := by
    have hLast : xs.getLastD s ∈ s :: xs := List.getLastD_mem_cons
    refine Path.append_cons.mpr ⟨h.next.redirect h.nodup (Function.update_self ..) ?_, ?_⟩
    · intro y hy hne
      rw [Function.update_of_ne hne, Function.update_of_ne (ne_of_mem_of_not_mem hy hx)]
    · show Function.update _ _ _ x = _
      rw [Function.update_of_ne (ne_of_mem_of_not_mem hLast hx).symm, Function.update_self]
  prev := by
    have hs : x ≠ s := fun hEq => hx (hEq ▸ List.mem_cons_self)
    rw [List.reverse_append, List.reverse_singleton, List.singleton_append]
    refine ⟨Function.update_self .., h.prev.congr ?_ fun y hy => ?_⟩
    · rw [Function.update_of_ne hs, Function.update_self, h.prev_self]
    · have hy' := List.mem_reverse.mp hy
      rw [Function.update_of_ne (ne_of_mem_of_not_mem hy' (List.nodup_cons.mp h.nodup).1),
        Function.update_of_ne (ne_of_mem_of_not_mem (List.mem_cons_of_mem s hy') hx)]

/-- The node `x` taken out of the ring. -/
theorem remove (h : IsRing next prev s (xs ++ x :: ys)) :
    IsRing (Function.update next (xs.getLastD s) (some (ys.headD s)))
      (Function.update prev (ys.headD s) (some (xs.getLastD s))) s (xs ++ ys) where
  nodup := h.nodup.sublist (.cons_cons _ (.append_left (List.sublist_cons_self ..) xs))
  next := h.next.skip h.nodup (Function.update_self ..) fun y _ hne => Function.update_of_ne hne ..
  prev := by
    have hReverse := h.reverse
    rw [List.reverse_append, List.reverse_cons, List.append_assoc, List.singleton_append] at hReverse
    rw [List.reverse_append]
    refine hReverse.next.skip hReverse.nodup ?_ fun y _ hne => ?_
    · rw [getLastD_reverse, headD_reverse, Function.update_self]
    · rw [getLastD_reverse] at hne
      exact Function.update_of_ne hne ..

end Stores

end IsRing

end Kit
