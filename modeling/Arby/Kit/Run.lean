import Mathlib.Data.List.Basic

/-! Runs of a partial step function. A step that returns `none` has no defined result: the run
stops there. `Along` states a condition on every step that a run reaches, and `Safe` states that
every step returns, with a relation between the states before and after it. -/

namespace Kit

variable {σ ι : Type*} (step : σ → ι → Option σ)

/-- The state after the inputs `is` from `s`, `none` when a step on the way has no result. -/
def run (s : σ) (is : List ι) : Option σ := is.foldlM step s

/-- Every step that the run of `is` from `s` reaches meets `C`. -/
def Along (C : σ → ι → Prop) : σ → List ι → Prop
  | _, [] => True
  | s, i :: is => C s i ∧ ∀ s', step s i = some s' → Along C s' is

/-- Every step of the run of `is` from `s` returns a state, related to the one before by `G`. -/
def Safe (G : σ → ι → σ → Prop) : σ → List ι → Prop
  | _, [] => True
  | s, i :: is => ∃ s', step s i = some s' ∧ G s i s' ∧ Safe G s' is

/-- A step that always has a result. -/
def always (f : σ → ι → σ) : σ → ι → Option σ := fun s i => some (f s i)

instance decidableAlong {C : σ → ι → Prop} [∀ s i, Decidable (C s i)] :
    ∀ s is, Decidable (Along step C s is)
  | _, [] => .isTrue trivial
  | s, i :: is =>
    match h : step s i with
    | none => decidable_of_iff (C s i) (by simp [Along, h])
    | some s' =>
      have : Decidable (Along step C s' is) := decidableAlong s' is
      decidable_of_iff (C s i ∧ Along step C s' is) (by simp [Along, h])

instance decidableSafe {G : σ → ι → σ → Prop} [∀ s i s', Decidable (G s i s')] :
    ∀ s is, Decidable (Safe step G s is)
  | _, [] => .isTrue trivial
  | s, i :: is =>
    match h : step s i with
    | none => .isFalse (by simp [Safe, h])
    | some s' =>
      have : Decidable (Safe step G s' is) := decidableSafe s' is
      decidable_of_iff (G s i s' ∧ Safe step G s' is) (by simp [Safe, h])

variable {step}

@[simp] theorem run_nil (s : σ) : run step s [] = some s := rfl

@[simp] theorem run_cons (s : σ) (i : ι) (is : List ι) :
    run step s (i :: is) = (step s i).bind fun s' => run step s' is := rfl

theorem run_append (s : σ) (is js : List ι) :
    run step s (is ++ js) = (run step s is).bind fun s' => run step s' js := by
  simp [run, List.foldlM_append]

theorem run_concat (s : σ) (is : List ι) (i : ι) :
    run step s (is ++ [i]) = (run step s is).bind fun s' => step s' i := by
  rw [run_append]
  congr 1
  funext s'
  cases h : step s' i <;> simp [h]

theorem run_always (f : σ → ι → σ) (s : σ) (is : List ι) :
    run (always f) s is = some (is.foldl f s) := by
  induction is generalizing s with
  | nil => rfl
  | cons i is ih => exact ih (f s i)

theorem run_invariant {I : σ → Prop}
    (hStep : ∀ s i s', I s → step s i = some s' → I s') {s s' : σ} {is : List ι} (h : I s)
    (hRun : run step s is = some s') : I s' := by
  induction is generalizing s with
  | nil => simpa [← Option.some.inj hRun] using h
  | cons i is ih =>
    obtain ⟨s₁, h₁, hRest⟩ := Option.bind_eq_some_iff.mp hRun
    exact ih (hStep s i s₁ h h₁) hRest

/-- A condition on the inputs alone. -/
theorem along_of_forall {C : ι → Prop} {is : List ι} (hC : ∀ i ∈ is, C i) (s : σ) :
    Along step (fun _ i => C i) s is := by
  induction is generalizing s with
  | nil => trivial
  | cons i is ih => exact ⟨hC i (by simp), fun s' _ => ih (fun j hj => hC j (by simp [hj])) s'⟩

theorem along_append {C : σ → ι → Prop} {s : σ} {is js : List ι} :
    Along step C s (is ++ js) ↔
      Along step C s is ∧ ∀ s', run step s is = some s' → Along step C s' js := by
  induction is generalizing s with
  | nil => simp [Along]
  | cons i is ih =>
    simp only [List.cons_append, Along, ih, run_cons, Option.bind_eq_some_iff]
    constructor
    · rintro ⟨hC, hRest⟩
      exact ⟨⟨hC, fun s' hs' => (hRest s' hs').1⟩, fun s' ⟨s₁, h₁, hRun⟩ => (hRest s₁ h₁).2 s' hRun⟩
    · rintro ⟨⟨hC, hFirst⟩, hRest⟩
      exact ⟨hC, fun s' hs' => ⟨hFirst s' hs', fun s₁ hRun => hRest s₁ ⟨s', hs', hRun⟩⟩⟩

theorem Along.and {C D : σ → ι → Prop} {s : σ} {is : List ι} (hC : Along step C s is)
    (hD : Along step D s is) : Along step (fun s i => C s i ∧ D s i) s is := by
  induction is generalizing s with
  | nil => trivial
  | cons i is ih => exact ⟨⟨hC.1, hD.1⟩, fun s' hs' => ih (hC.2 s' hs') (hD.2 s' hs')⟩

/-- What the steps of a run that meets `C` preserve holds at its end. -/
theorem Along.invariant {I : σ → Prop} {C : σ → ι → Prop}
    (hStep : ∀ s i s', I s → C s i → step s i = some s' → I s') {s s' : σ} {is : List ι}
    (h : I s) (hC : Along step C s is) (hRun : run step s is = some s') : I s' := by
  induction is generalizing s with
  | nil => simpa [← Option.some.inj hRun] using h
  | cons i is ih =>
    obtain ⟨s₁, h₁, hRest⟩ := Option.bind_eq_some_iff.mp hRun
    exact ih (hStep s i s₁ h hC.1 h₁) (hC.2 s₁ h₁) hRest

/-- A run whose steps meet `C` has a result and keeps the invariant, when such steps do. -/
theorem Along.exists_run {I : σ → Prop} {C : σ → ι → Prop}
    (hStep : ∀ s i, I s → C s i → ∃ s', step s i = some s' ∧ I s') {s : σ} {is : List ι} (h : I s)
    (hC : Along step C s is) : ∃ s', run step s is = some s' ∧ I s' := by
  induction is generalizing s with
  | nil => exact ⟨s, rfl, h⟩
  | cons i is ih =>
    obtain ⟨s₁, h₁, hI⟩ := hStep s i h hC.1
    rw [run_cons, h₁]
    exact ih hI (hC.2 s₁ h₁)

/-- A run that follows another step by step, as long as the other meets `C`, follows it to its
end. -/
theorem Along.simulate {τ : Type*} {step' : τ → ι → Option τ} {C : σ → ι → Prop}
    {R : τ → σ → Prop}
    (hStep : ∀ t s i s', R t s → C s i → step s i = some s' → ∃ t', step' t i = some t' ∧ R t' s')
    {t : τ} {s s' : σ} {is : List ι} (h : R t s) (hC : Along step C s is)
    (hRun : run step s is = some s') : ∃ t', run step' t is = some t' ∧ R t' s' := by
  induction is generalizing t s with
  | nil => exact ⟨t, rfl, Option.some.inj hRun ▸ h⟩
  | cons i is ih =>
    obtain ⟨s₁, h₁, hRest⟩ := Option.bind_eq_some_iff.mp hRun
    obtain ⟨t₁, ht₁, hR⟩ := hStep t s i s₁ h hC.1 h₁
    obtain ⟨t', ht', hR'⟩ := ih hR (hC.2 s₁ h₁) hRest
    exact ⟨t', by rw [run_cons, ht₁]; exact ht', hR'⟩

/-- A run has a result exactly when its steps meet `C`, if from the invariant each step has one
exactly when it meets `C`. -/
theorem isSome_run_iff {I : σ → Prop} {C : σ → ι → Prop}
    (hStep : ∀ s i, I s → ((step s i).isSome ↔ C s i))
    (hKeep : ∀ s i s', I s → step s i = some s' → I s') {s : σ} {is : List ι} (h : I s) :
    (run step s is).isSome ↔ Along step C s is := by
  induction is generalizing s with
  | nil => simp [Along]
  | cons i is ih =>
    rw [run_cons, Along, ← hStep s i h]
    cases hs : step s i with
    | none => simp
    | some s' => simpa using ih (hKeep s i s' h hs)

theorem run_filterMap {κ : Type*} (f : κ → Option ι) (s : σ) (ks : List κ) :
    run step s (ks.filterMap f) = run (fun s k => (f k).elim (some s) (step s)) s ks := by
  induction ks generalizing s with
  | nil => rfl
  | cons k ks ih =>
    cases hk : f k with
    | none => rw [List.filterMap_cons_none hk, ih, run_cons, hk]; rfl
    | some i =>
      rw [List.filterMap_cons_some hk, run_cons, run_cons, hk]
      exact congrArg _ (funext ih)

/-- A run all of whose steps meet `C` is safe when such steps return, relate the states as `G`
says, and keep the invariant. -/
theorem safe_of_along {I : σ → Prop} {C : σ → ι → Prop} {G : σ → ι → σ → Prop}
    (hStep : ∀ s i, I s → C s i → ∃ s', step s i = some s' ∧ G s i s' ∧ I s')
    {s : σ} {is : List ι} (h : I s) (hC : Along step C s is) : Safe step G s is := by
  induction is generalizing s with
  | nil => trivial
  | cons i is ih =>
    obtain ⟨s', hs', hG, hI⟩ := hStep s i h hC.1
    exact ⟨s', hs', hG, ih hI (hC.2 s' hs')⟩

/-- Inputs that nobody notices may be left out, when other steps keep the relation between two states
or are both undefined. -/
theorem run_filter {R : σ → σ → Prop} {p : ι → Bool}
    (hKept : ∀ s t i, R s t → p i = true → Option.Rel R (step s i) (step t i))
    (hDropped : ∀ s t i, R s t → p i = false → ∃ t', step t i = some t' ∧ R s t') {s t : σ}
    (h : R s t) (is : List ι) : Option.Rel R (run step s (is.filter p)) (run step t is) := by
  induction is generalizing s t with
  | nil => exact .some h
  | cons i is ih =>
    cases hp : p i with
    | true =>
      have hStep := hKept s t i h hp
      rw [List.filter_cons_of_pos hp, run_cons, run_cons]
      cases hs : step s i <;> cases ht : step t i <;> rw [hs, ht] at hStep
      · exact .none
      · cases hStep
      · cases hStep
      · cases hStep with
        | some hNext => exact ih hNext
    | false =>
      obtain ⟨t', ht, hNext⟩ := hDropped s t i h hp
      rw [List.filter_cons_of_neg (by simp [hp]), run_cons t, ht]
      exact ih hNext

/-- A run is safe when from the invariant every step returns, does `G` and keeps the invariant. -/
theorem safe_of_invariant {I : σ → Prop} {G : σ → ι → σ → Prop}
    (hStep : ∀ s i, I s → ∃ s', step s i = some s' ∧ G s i s' ∧ I s') {s : σ} (h : I s)
    (is : List ι) : Safe step G s is := by
  induction is generalizing s with
  | nil => trivial
  | cons i is ih =>
    obtain ⟨s', hs', hG, hI⟩ := hStep s i h
    exact ⟨s', hs', hG, ih hI⟩

theorem Safe.mono {G G' : σ → ι → σ → Prop} (hG : ∀ s i s', G s i s' → G' s i s') {s : σ}
    {is : List ι} (h : Safe step G s is) : Safe step G' s is := by
  induction is generalizing s with
  | nil => trivial
  | cons i is ih =>
    obtain ⟨s', hs', hStep, hRest⟩ := h
    exact ⟨s', hs', hG s i s' hStep, ih hRest⟩

/-- A run that has a result is safe when from the invariant every step with a result does `G` and
keeps the invariant. -/
theorem safe_of_run {I : σ → Prop} {G : σ → ι → σ → Prop}
    (hStep : ∀ s i s', I s → step s i = some s' → G s i s' ∧ I s') {s s' : σ} {is : List ι}
    (h : I s) (hRun : run step s is = some s') : Safe step G s is := by
  induction is generalizing s with
  | nil => trivial
  | cons i is ih =>
    obtain ⟨s₁, h₁, hRest⟩ := Option.bind_eq_some_iff.mp hRun
    obtain ⟨hG, hI⟩ := hStep s i s₁ h h₁
    exact ⟨s₁, h₁, hG, ih hI hRest⟩

/-- Within the domain `A`, a run is safe exactly when its steps meet `C`, if each step from the
invariant does `G` exactly when it meets `C` and then keeps the invariant. -/
theorem safe_iff_along {I : σ → Prop} {A C : σ → ι → Prop} {G : σ → ι → σ → Prop}
    (hStep : ∀ s i, I s → A s i → (C s i ↔ ∃ s', step s i = some s' ∧ G s i s'))
    (hKeep : ∀ s i s', I s → A s i → C s i → step s i = some s' → I s')
    {s : σ} {is : List ι} (h : I s) (hA : Along step A s is) :
    Safe step G s is ↔ Along step C s is := by
  induction is generalizing s with
  | nil => exact Iff.rfl
  | cons i is ih =>
    constructor
    · rintro ⟨s', hs', hG, hSafe⟩
      have hC := (hStep s i h hA.1).mpr ⟨s', hs', hG⟩
      refine ⟨hC, fun t ht => ?_⟩
      obtain rfl : s' = t := Option.some.inj (hs'.symm.trans ht)
      exact (ih (hKeep s i s' h hA.1 hC hs') (hA.2 s' hs')).mp hSafe
    · rintro ⟨hC, hRest⟩
      obtain ⟨s', hs', hG⟩ := (hStep s i h hA.1).mp hC
      exact ⟨s', hs', hG, (ih (hKeep s i s' h hA.1 hC hs') (hA.2 s' hs')).mpr (hRest s' hs')⟩

/-- A run that has a result is safe exactly when its steps meet `C`, if each step from the invariant
does `G` exactly when it meets `C` and then keeps the invariant. -/
theorem safe_iff_of_run {I : σ → Prop} {C : σ → ι → Prop} {G : σ → ι → σ → Prop}
    (hStep : ∀ s i s', I s → step s i = some s' → (C s i ↔ G s i s'))
    (hKeep : ∀ s i s', I s → G s i s' → step s i = some s' → I s')
    {s s' : σ} {is : List ι} (h : I s) (hRun : run step s is = some s') :
    Safe step G s is ↔ Along step C s is := by
  induction is generalizing s with
  | nil => exact Iff.rfl
  | cons i is ih =>
    obtain ⟨s₁, h₁, hRest⟩ := Option.bind_eq_some_iff.mp hRun
    simp only [Safe, Along, h₁, Option.some.injEq, exists_eq_left', forall_eq']
    rw [hStep s i s₁ h h₁]
    exact and_congr_right fun hG => ih (hKeep s i s₁ h hG h₁) hRest

end Kit
