import Mathlib.Data.List.Basic

/-! Calls that return, throw or have undefined behaviour, and decoders that are compared with strict
ones. A decoder makes some readings of its input one after another. `Tracks` says that the readings
tell its outcome, and what the strict decoder gives. -/

namespace Kit

inductive Outcome (α : Type)
  | ok (a : α)
  | throws
  | undefined
deriving DecidableEq

namespace Outcome

variable {α β : Type}

def bind (x : Outcome α) (f : α → Outcome β) : Outcome β :=
  match x with
  | .ok a => f a
  | .throws => .throws
  | .undefined => .undefined

instance : Monad Outcome where
  pure := ok
  bind := bind

@[simp] theorem pure_eq (a : α) : (pure a : Outcome α) = ok a := rfl

@[simp] theorem ok_bind (a : α) (f : α → Outcome β) : (ok a >>= f) = f a := rfl

@[simp] theorem throws_bind (f : α → Outcome β) : ((throws : Outcome α) >>= f) = throws := rfl

@[simp] theorem undefined_bind (f : α → Outcome β) :
    ((undefined : Outcome α) >>= f) = undefined := rfl

instance : LawfulMonad Outcome :=
  LawfulMonad.mk' Outcome (fun x => by cases x <;> rfl) (fun _ _ => rfl)
    (fun x _ _ => by cases x <;> rfl)

end Outcome

/-- What one reading of the input comes to: the value that is there, an exception, another value in
the place of one that cannot be read, or undefined behaviour. -/
inductive Reading
  | good
  | refused
  | replaced
  | undefined
deriving DecidableEq, Repr

namespace Reading

/-- What readings come to one after another: the first that does not return decides. -/
def verdict : List Reading → Reading
  | [] => good
  | good :: rs => verdict rs
  | refused :: _ => refused
  | undefined :: _ => undefined
  | replaced :: rs =>
    match verdict rs with
    | good => replaced
    | r => r

theorem verdict_good_iff {rs : List Reading} : verdict rs = good ↔ ∀ r ∈ rs, r = good := by
  induction rs with
  | nil => simp [verdict]
  | cons r rs ih =>
    cases r with
    | good => simp [verdict, ih]
    | refused | undefined => simp [verdict]
    | replaced =>
      simp only [verdict, List.forall_mem_cons]
      split <;> simp_all

theorem verdict_refused_iff {rs : List Reading} :
    verdict rs = refused ↔ ∃ pre post, rs = pre ++ refused :: post ∧ undefined ∉ pre := by
  induction rs with
  | nil => simp [verdict]
  | cons r rs ih =>
    -- A reading that returns goes before those that come first among the others.
    have hLater : r ≠ refused → r ≠ undefined →
        ((∃ pre post, r :: rs = pre ++ refused :: post ∧ undefined ∉ pre) ↔
          ∃ pre post, rs = pre ++ refused :: post ∧ undefined ∉ pre) := by
      intro hRefused hUndefined
      constructor
      · rintro ⟨pre, post, hSplit, hPre⟩
        cases pre with
        | nil => exact absurd (List.cons.inj hSplit).1 hRefused
        | cons r' pre =>
          exact ⟨pre, post, (List.cons.inj hSplit).2, fun h => hPre (List.mem_cons_of_mem _ h)⟩
      · rintro ⟨pre, post, rfl, hPre⟩
        refine ⟨r :: pre, post, rfl, ?_⟩
        rw [List.mem_cons, not_or]
        exact ⟨Ne.symm hUndefined, hPre⟩
    cases r with
    | good => rw [hLater (by decide) (by decide), ← ih, verdict]
    | refused => exact ⟨fun _ => ⟨[], rs, rfl, by simp⟩, fun _ => rfl⟩
    | undefined =>
      constructor
      · intro h
        cases h
      · rintro ⟨pre, post, hSplit, hPre⟩
        cases pre with
        | nil => cases hSplit
        | cons r' pre =>
          rw [← (List.cons.inj hSplit).1] at hPre
          exact absurd List.mem_cons_self hPre
    | replaced =>
      rw [hLater (by decide) (by decide), ← ih, verdict]
      split <;> simp_all

theorem verdict_append (rs rs' : List Reading) :
    verdict (rs ++ rs') = verdict (verdict rs :: rs') := by
  induction rs with
  | nil => rfl
  | cons r rs ih =>
    cases r with
    | good => exact ih
    | refused | undefined => rfl
    | replaced =>
      rw [List.cons_append, verdict, ih]
      cases hFirst : verdict rs with
      | good =>
        simp only [verdict, hFirst]
      | refused | undefined => simp only [verdict, hFirst]
      | replaced =>
        simp only [verdict, hFirst]
        cases verdict rs' <;> rfl

end Reading

/-- The readings `rs` tell the outcome of the decoder `o` and the result of the strict one `s`. -/
def Tracks {α : Type} (o : Outcome α) (s : Option α) (rs : List Reading) : Prop :=
  match Reading.verdict rs with
  | .good => ∃ a, o = .ok a ∧ s = some a
  | .refused => o = .throws ∧ s = none
  | .replaced => (∃ a, o = .ok a) ∧ s = none
  | .undefined => o = .undefined ∧ s = none

namespace Tracks

variable {α β : Type} {o : Outcome α} {s : Option α} {rs rs' : List Reading}

theorem pure (a : α) : Tracks (.ok a) (some a) [] := ⟨a, rfl, rfl⟩

/-- One decoder after another. The readings of the second do not depend on the first. -/
theorem bind (h : Tracks o s rs) {f : α → Outcome β} {g : α → Option β}
    (hNext : ∀ a, Tracks (f a) (g a) rs') : Tracks (o >>= f) (s >>= g) (rs ++ rs') := by
  unfold Tracks at h ⊢
  rw [Reading.verdict_append]
  cases hFirst : Reading.verdict rs with
  | good =>
    rw [hFirst] at h
    obtain ⟨a, rfl, rfl⟩ := h
    exact hNext a
  | refused =>
    rw [hFirst] at h
    obtain ⟨rfl, rfl⟩ := h
    exact ⟨rfl, rfl⟩
  | undefined =>
    rw [hFirst] at h
    obtain ⟨rfl, rfl⟩ := h
    exact ⟨rfl, rfl⟩
  | replaced =>
    rw [hFirst] at h
    obtain ⟨⟨a, rfl⟩, rfl⟩ := h
    have hSecond := hNext a
    unfold Tracks at hSecond
    rw [Reading.verdict]
    cases hRest : Reading.verdict rs' with
    | good =>
      rw [hRest] at hSecond
      obtain ⟨b, hOutcome, -⟩ := hSecond
      exact ⟨⟨b, hOutcome⟩, rfl⟩
    | refused | undefined | replaced =>
      rw [hRest] at hSecond
      exact ⟨hSecond.1, rfl⟩

/-- A loop over a list. -/
theorem mapM {f : α → Outcome β} {g : α → Option β} {readings : α → List Reading}
    (h : ∀ a, Tracks (f a) (g a) (readings a)) (as : List α) :
    Tracks (as.mapM f) (as.mapM g) (as.flatMap readings) := by
  induction as with
  | nil =>
    rw [List.mapM_nil, List.mapM_nil]
    exact pure []
  | cons a as ih =>
    rw [List.mapM_cons, List.mapM_cons, List.flatMap_cons]
    refine (h a).bind fun b => ?_
    have hEnd := ih.bind (f := fun bs => .ok (b :: bs)) (g := fun bs => some (b :: bs))
      fun bs => pure (b :: bs)
    rwa [List.append_nil] at hEnd

/-- The decoder throws or gives what the strict one gives, exactly when all readings are good or one
throws before any has undefined behaviour. -/
theorem sound_iff (h : Tracks o s rs) : (o = .throws ∨ ∃ a, o = .ok a ∧ s = some a) ↔
    (∀ r ∈ rs, r = .good) ∨ ∃ pre post, rs = pre ++ .refused :: post ∧ Reading.undefined ∉ pre := by
  rw [← Reading.verdict_good_iff, ← Reading.verdict_refused_iff]
  unfold Tracks at h
  cases hVerdict : Reading.verdict rs with
  | good =>
    rw [hVerdict] at h
    simp [h]
  | refused =>
    rw [hVerdict] at h
    simp [h.1]
  | replaced =>
    rw [hVerdict] at h
    obtain ⟨⟨a, rfl⟩, rfl⟩ := h
    simp
  | undefined =>
    rw [hVerdict] at h
    obtain ⟨rfl, rfl⟩ := h
    simp

end Tracks

end Kit
