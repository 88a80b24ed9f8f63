import Arby.Kit.Run

/-! Linearization. The calls on a shared object take several steps each, which interleave with those of
other calls; each takes effect in one of them. A run then does what its effects do one after another,
in the order of these steps. -/

namespace Kit

variable {σ α ι ε κ : Type*} {step : σ → ι → Option σ} {effect : σ → ι → List ε}
  {s s' : σ} {is : List ι}

/-- The effects of the steps of a run, in their order. -/
def linearization (step : σ → ι → Option σ) (effect : σ → ι → List ε) : σ → List ι → List ε
  | _, [] => []
  | s, i :: is =>
    effect s i ++
      match step s i with
      | some s' => linearization step effect s' is
      | none => []

theorem linearization_cons {i : ι} (hStep : step s i = some s') :
    linearization step effect s (i :: is) = effect s i ++ linearization step effect s' is := by
  rw [linearization, hStep]

/-- When each step does what its effects do, so does the run. -/
theorem run_linearization {I : σ → Prop} {apply : α → ε → Option α} {content : σ → α}
    (hEffect : ∀ s i s', I s → step s i = some s' →
      run apply (content s) (effect s i) = some (content s') ∧ I s')
    (h : I s) (hRun : run step s is = some s') :
    run apply (content s) (linearization step effect s is) = some (content s') := by
  induction is generalizing s with
  | nil =>
    obtain rfl := Option.some.inj hRun
    rfl
  | cons i is ih =>
    obtain ⟨s₁, hStep, hRest⟩ := Option.bind_eq_some_iff.mp hRun
    obtain ⟨hFirst, h₁⟩ := hEffect s i s₁ h hStep
    rw [linearization_cons hStep, run_append, hFirst]
    exact ih h₁ hRest

/-- When each step passes on what was called for and has not taken effect, the calls that were made
are those that took effect, in the order in which they were made, and then those that have not. -/
theorem calls_linearization {I : σ → Prop} (made : ι → List κ) (done : ε → Option κ)
    (pending : σ → List κ)
    (hCalls : ∀ s i s', I s → step s i = some s' →
      pending s ++ made i = (effect s i).filterMap done ++ pending s' ∧ I s')
    (h : I s) (hRun : run step s is = some s') :
    pending s ++ is.flatMap made =
      (linearization step effect s is).filterMap done ++ pending s' := by
  induction is generalizing s with
  | nil =>
    obtain rfl := Option.some.inj hRun
    simp [linearization]
  | cons i is ih =>
    obtain ⟨s₁, hStep, hRest⟩ := Option.bind_eq_some_iff.mp hRun
    obtain ⟨hFirst, h₁⟩ := hCalls s i s₁ h hStep
    calc pending s ++ (i :: is).flatMap made
        = pending s ++ made i ++ is.flatMap made := by rw [List.flatMap_cons, List.append_assoc]
      _ = (effect s i).filterMap done ++ (pending s₁ ++ is.flatMap made) := by
          rw [hFirst, List.append_assoc]
      _ = _ := by
          rw [ih h₁ hRest, linearization_cons hStep, List.filterMap_append, List.append_assoc]

end Kit
