import Arby.Kit.Handles
import Arby.Kit.Run

/-! The handles that a program has on its connectors and tick loggers. What a handle lets go is stopped,
on the executor of its implementation. -/

namespace Arby.PowerTrade

open Kit

/-- The classes of handles. -/
inductive HandleClass
  | connector
  | tickLogger
deriving DecidableEq, Repr

/-- The implementations of one class and the handles on them. A handle is what its `impl_` points to, if
anything, and an implementation is called by the number of those made before it. `pending` are the
calls of `stop` that wait on executors, and `stopped` those that have run. -/
structure ImplHandles where
  made : ℕ := 0
  handles : List (Option (Option ℕ)) := []
  pending : List ℕ := []
  stopped : List ℕ := []
deriving DecidableEq, Repr

/-- `atOnce` says that the executor runs at once what is dispatched to it. -/
inductive ImplOp
  | construct
  | moveConstruct (j : ℕ)
  | moveAssign (i j : ℕ) (atOnce : Bool)
  | destroy (i : ℕ) (atOnce : Bool)
  | runStop (e : ℕ)
deriving DecidableEq, Repr

namespace ImplHandles

variable (cls : HandleClass)

/-- `stop` on the executor of `e`. That of a connector asserts that it was not stopped before. -/
def stop (s : ImplHandles) (e : ℕ) : Option ImplHandles :=
  if cls = .connector ∧ e ∈ s.stopped then none else some { s with stopped := s.stopped ++ [e] }

/-- `stop` is dispatched, when there is an implementation. -/
def dispatchStop (s : ImplHandles) (impl : Option ℕ) (atOnce : Bool) : Option ImplHandles :=
  match impl with
  | none => some s
  | some e => if atOnce then s.stop cls e else some { s with pending := s.pending ++ [e] }

/-- What the destructor does, and an assignment before anything else. `tick_logger::destroy` leaves
`impl_` empty, `~connector` does not. -/
def letGo (s : ImplHandles) (i : ℕ) (impl : Option ℕ) (atOnce : Bool) : Option ImplHandles :=
  (s.dispatchStop cls impl atOnce).map fun s =>
    match cls with
    | .connector => s
    | .tickLogger => { s with handles := s.handles.set i (some none) }

/-- One operation, `none` when an assertion fails or it names what there is not. A pointer that is
moved to itself stays as it is. -/
def step (s : ImplHandles) : ImplOp → Option ImplHandles
  | .construct =>
    some { s with made := s.made + 1, handles := s.handles ++ [some (some s.made)] }
  | .moveConstruct j => do
    let impl ← slot s.handles j
    return { s with handles := s.handles.set j (some none) ++ [some impl] }
  | .moveAssign i j atOnce => do
    let mine ← slot s.handles i
    let s ← s.letGo cls i mine atOnce
    let impl ← slot s.handles j
    if i = j then return s
    return { s with handles := (s.handles.set i (some impl)).set j (some none) }
  | .destroy i atOnce => do
    let mine ← slot s.handles i
    let s ← s.letGo cls i mine atOnce
    return { s with handles := s.handles.set i none }
  | .runStop e =>
    if e ∈ s.pending then { s with pending := s.pending.erase e }.stop cls e else none

/-- The operation names handles and tasks that there are. -/
def Names (s : ImplHandles) : ImplOp → Prop
  | .construct => True
  | .moveConstruct j => (slot s.handles j).isSome
  | .moveAssign i j _ => (slot s.handles i).isSome ∧ (slot s.handles j).isSome
  | .destroy i _ => (slot s.handles i).isSome
  | .runStop e => e ∈ s.pending

/-- It does not move a connector that has an implementation to itself. -/
def Distinct (s : ImplHandles) : ImplOp → Prop
  | .moveAssign i j _ => cls = .connector → i = j → slot s.handles i = some none
  | _ => True

instance (s : ImplHandles) (op : ImplOp) : Decidable (s.Names op) :=
  match op with
  | .construct | .moveConstruct _ | .moveAssign .. | .destroy .. | .runStop _ => by
    dsimp only [Names]
    infer_instance

instance (s : ImplHandles) (op : ImplOp) : Decidable (s.Distinct cls op) :=
  match op with
  | .construct | .moveConstruct _ | .moveAssign .. | .destroy .. | .runStop _ => by
    dsimp only [Distinct]
    infer_instance

/-- Each implementation that was made has one handle, or its stop waits, or it was stopped. -/
def Accounted (s : ImplHandles) : Prop :=
  (held Option.toList s.handles ++ (s.pending ++ s.stopped)).Perm (List.range s.made)

variable {cls} {s s' : ImplHandles} {op : ImplOp}

/-- What is let go is stopped, or will be, when it was not before. -/
theorem dispatchStop_returns (cls : HandleClass) (s : ImplHandles) {impl : Option ℕ} (atOnce : Bool)
    (hNew : ∀ e ∈ impl, e ∉ s.stopped) :
    ∃ s', s.dispatchStop cls impl atOnce = some s' ∧ s'.handles = s.handles ∧ s'.made = s.made ∧
      (s'.pending ++ s'.stopped).Perm (impl.toList ++ (s.pending ++ s.stopped)) := by
  cases impl with
  | none => exact ⟨s, rfl, rfl, rfl, .refl _⟩
  | some e =>
    cases atOnce with
    | true =>
      refine ⟨{ s with stopped := s.stopped ++ [e] }, ?_, rfl, rfl, ?_⟩
      · simp [dispatchStop, stop, hNew e rfl]
      · rw [← List.append_assoc]
        exact List.perm_append_comm
    | false =>
      refine ⟨{ s with pending := s.pending ++ [e] }, rfl, rfl, rfl, ?_⟩
      have hPerm : (s.pending ++ [e]).Perm ([e] ++ s.pending) := List.perm_append_comm
      exact hPerm.append_right s.stopped

/-- The rest of what the handles had, and the stop of what one of them let go. -/
theorem Accounted.released (h : s.Accounted) (mine : Option ℕ) (hMade : s'.made = s.made)
    (hHeld : (held Option.toList s'.handles ++ mine.toList).Perm (held Option.toList s.handles))
    (hStops : (s'.pending ++ s'.stopped).Perm (mine.toList ++ (s.pending ++ s.stopped))) :
    s'.Accounted := by
  rw [Accounted, hMade]
  refine ((hStops.append_left _).trans ?_).trans h
  rw [← List.append_assoc]
  exact hHeld.append_right _

theorem Accounted.nodup (h : s.Accounted) :
    (held Option.toList s.handles ++ (s.pending ++ s.stopped)).Nodup :=
  h.nodup_iff.mpr List.nodup_range

/-- What a handle has was not stopped. -/
theorem Accounted.running (h : s.Accounted) {i : ℕ} {impl : Option ℕ}
    (hAt : slot s.handles i = some impl) : ∀ e ∈ impl, e ∉ s.stopped := by
  intro e he hStopped
  have hHeld : e ∈ held Option.toList s.handles :=
    mem_held.mpr ⟨i, impl, hAt, Option.mem_toList.mpr he⟩
  exact List.disjoint_of_nodup_append h.nodup hHeld (List.mem_append_right _ hStopped)

theorem Accounted.moveConstruct (h : s.Accounted) {j : ℕ} (hName : s.Names (.moveConstruct j)) :
    ∃ s', s.step cls (.moveConstruct j) = some s' ∧ s'.Accounted := by
  obtain ⟨impl, hAt⟩ := Option.isSome_iff_exists.mp hName
  refine ⟨{ s with handles := s.handles.set j (some none) ++ [some impl] },
    by simp [ImplHandles.step, hAt], ?_⟩
  exact h.released none rfl
    (by simpa using held_moved hAt (show Option.toList (none : Option ℕ) = [] from rfl)) (.refl _)

theorem Accounted.destroy (h : s.Accounted) {i : ℕ} (atOnce : Bool)
    (hName : s.Names (.destroy i atOnce)) :
    ∃ s', s.step cls (.destroy i atOnce) = some s' ∧ s'.Accounted := by
  obtain ⟨mine, hAt⟩ := Option.isSome_iff_exists.mp hName
  obtain ⟨s₁, hStop, hHandles, hMade, hStops⟩ :=
    dispatchStop_returns cls s atOnce (h.running hAt)
  have hHeld := held_set Option.toList hAt none
  refine ⟨{ s₁ with handles := s.handles.set i none }, ?_, h.released _ hMade (by simpa using hHeld) hStops⟩
  cases cls <;> simp [ImplHandles.step, letGo, hAt, hStop, hHandles]

/-- The handle that is assigned to lets go what it has first. -/
theorem Accounted.moveAssign (h : s.Accounted) {i j : ℕ} (atOnce : Bool)
    (hName : s.Names (.moveAssign i j atOnce)) (hDistinct : s.Distinct cls (.moveAssign i j atOnce)) :
    ∃ s', s.step cls (.moveAssign i j atOnce) = some s' ∧ s'.Accounted := by
  obtain ⟨mine, hi⟩ := Option.isSome_iff_exists.mp hName.1
  obtain ⟨theirs, hj⟩ := Option.isSome_iff_exists.mp hName.2
  obtain ⟨s₁, hStop, hHandles, hMade, hStops⟩ :=
    dispatchStop_returns cls s atOnce (h.running hi)
  by_cases hSelf : i = j
  · subst hSelf
    cases cls with
    | connector =>
      obtain rfl := Option.some.inj (hi.symm.trans (hDistinct rfl rfl))
      refine ⟨s₁, ?_, h.released _ hMade (by rw [hHandles]; simp) hStops⟩
      simp [ImplHandles.step, letGo, hi, hStop, hHandles]
    | tickLogger =>
      have hHeld := held_set Option.toList hi (some none)
      refine ⟨{ s₁ with handles := s.handles.set i (some none) }, ?_,
        h.released _ hMade (by simpa using hHeld) hStops⟩
      simp [ImplHandles.step, letGo, hi, hStop, hHandles, slot_set (lt_of_slot hi)]
  · have hHeld := held_replaced hi hj hSelf (show Option.toList (none : Option ℕ) = [] from rfl)
    refine ⟨{ s₁ with handles := (s.handles.set i (some theirs)).set j (some none) }, ?_,
      h.released _ hMade hHeld hStops⟩
    cases cls <;>
      simp [ImplHandles.step, letGo, hi, hj, hStop, hHandles, hSelf, slot_set (lt_of_slot hi),
        Function.update_of_ne (Ne.symm hSelf)]

theorem Accounted.runStop (h : s.Accounted) {e : ℕ} (hName : s.Names (.runStop e)) :
    ∃ s', s.step cls (.runStop e) = some s' ∧ s'.Accounted := by
  have hMem : e ∈ s.pending := hName
  have hNew : e ∉ s.stopped :=
    List.disjoint_of_nodup_append (List.nodup_append.mp h.nodup).2.1 hMem
  refine ⟨{ s with pending := s.pending.erase e, stopped := s.stopped ++ [e] }, ?_,
    h.released none rfl (by simp) ?_⟩
  · simp [ImplHandles.step, stop, hMem, hNew]
  · calc (s.pending.erase e ++ (s.stopped ++ [e])).Perm (e :: (s.pending.erase e ++ s.stopped)) := by
          rw [← List.append_assoc]
          exact List.perm_append_singleton ..
      List.Perm _ (s.pending ++ s.stopped) := (List.perm_cons_erase hMem).symm.append_right _

/-- The step lemma. -/
theorem Accounted.step (h : s.Accounted) (hName : s.Names op) (hDistinct : s.Distinct cls op) :
    ∃ s', s.step cls op = some s' ∧ s'.Accounted := by
  cases op with
  | construct =>
    refine ⟨_, rfl, ?_⟩
    have hMore : (held Option.toList s.handles ++ (s.pending ++ s.stopped) ++ [s.made]).Perm
        (List.range s.made ++ [s.made]) := h.append_right _
    rw [Accounted, List.range_succ]
    refine List.Perm.trans ?_ hMore
    simp only [held_concat, List.append_assoc, Option.map_some, Option.getD_some,
      Option.toList_some]
    refine List.Perm.append_left _ ?_
    rw [← List.append_assoc s.pending]
    exact List.perm_append_comm
  | moveConstruct j => exact h.moveConstruct hName
  | moveAssign i j atOnce => exact h.moveAssign atOnce hName hDistinct
  | destroy i atOnce => exact h.destroy atOnce hName
  | runStop e => exact h.runStop hName

/-- The second stop of `e` waits, and its assertion fails whenever it runs. -/
def StopsTwice (e : ℕ) (s : ImplHandles) : Prop :=
  2 ≤ (s.pending ++ s.stopped).count e ∧ s.stopped.count e ≤ 1

theorem StopsTwice.pending {e : ℕ} (h : s.StopsTwice e) : e ∈ s.pending := by
  obtain ⟨hTwo, hOne⟩ := h
  rw [List.count_append] at hTwo
  exact List.count_pos_iff.mp (by omega)

/-- A call of `stop` that returns. -/
theorem stop_connector {e : ℕ} (hStop : s.stop .connector e = some s') :
    e ∉ s.stopped ∧ s' = { s with stopped := s.stopped ++ [e] } := by
  simp only [stop, true_and] at hStop
  split at hStop
  · cases hStop
  · rename_i hNew
    exact ⟨hNew, (Option.some.inj hStop).symm⟩

theorem dispatchStop_cases {impl : Option ℕ} {atOnce : Bool}
    (hStop : s.dispatchStop .connector impl atOnce = some s') :
    s'.handles = s.handles ∧ (s'.pending = s.pending ++ impl.toList ∧ s'.stopped = s.stopped ∨
      s'.pending = s.pending ∧ s'.stopped = s.stopped ++ impl.toList ∧ ∀ e ∈ impl, e ∉ s.stopped) := by
  cases impl with
  | none =>
    obtain rfl := Option.some.inj hStop
    exact ⟨rfl, .inl ⟨by simp, rfl⟩⟩
  | some e =>
    cases atOnce with
    | false =>
      obtain rfl := Option.some.inj hStop
      exact ⟨rfl, .inl ⟨rfl, rfl⟩⟩
    | true =>
      obtain ⟨hNew, rfl⟩ := stop_connector hStop
      exact ⟨rfl, .inr ⟨rfl, rfl, by simpa using hNew⟩⟩

/-- What is let go is stopped once more. -/
theorem count_dispatchStop {impl : Option ℕ} {atOnce : Bool}
    (hStop : s.dispatchStop .connector impl atOnce = some s') (e : ℕ) :
    (s'.pending ++ s'.stopped).count e = (s.pending ++ s.stopped).count e + impl.toList.count e ∧
      (s.stopped.count e ≤ 1 → s'.stopped.count e ≤ 1) := by
  obtain ⟨-, ⟨hPending, hStopped⟩ | ⟨hPending, hStopped, hNew⟩⟩ := dispatchStop_cases hStop
  · rw [hPending, hStopped]
    simp only [List.count_append]
    exact ⟨by omega, id⟩
  · rw [hPending, hStopped]
    simp only [List.count_append]
    refine ⟨by omega, fun hOne => ?_⟩
    cases impl with
    | none => simpa using hOne
    | some e' =>
      by_cases hSame : e' = e
      · subst hSame
        simp [List.count_eq_zero_of_not_mem (hNew e' rfl)]
      · simpa [List.count_singleton, hSame] using hOne

theorem StopsTwice.dispatched {e : ℕ} (h : s.StopsTwice e) {impl : Option ℕ} {atOnce : Bool}
    (hStop : s.dispatchStop .connector impl atOnce = some s') : s'.StopsTwice e := by
  obtain ⟨hCount, hOne⟩ := count_dispatchStop hStop e
  exact ⟨by have := h.1; omega, hOne h.2⟩

theorem StopsTwice.step {e : ℕ} (h : s.StopsTwice e) (hStep : s.step .connector op = some s') :
    s'.StopsTwice e := by
  cases op with
  | construct =>
    obtain rfl := Option.some.inj hStep
    exact h
  | moveConstruct j =>
    obtain ⟨impl, -, hStep⟩ := Option.bind_eq_some_iff.mp hStep
    obtain rfl := Option.some.inj hStep
    exact h
  | moveAssign i j atOnce =>
    obtain ⟨mine, -, hStep⟩ := Option.bind_eq_some_iff.mp hStep
    obtain ⟨s₁, hGo, hStep⟩ := Option.bind_eq_some_iff.mp hStep
    obtain ⟨s₁, hStop, rfl⟩ := Option.map_eq_some_iff.mp hGo
    obtain ⟨impl, -, hStep⟩ := Option.bind_eq_some_iff.mp hStep
    have h₁ := h.dispatched hStop
    split at hStep
    · obtain rfl := Option.some.inj hStep
      exact h₁
    · obtain rfl := Option.some.inj hStep
      exact h₁
  | destroy i atOnce =>
    obtain ⟨mine, -, hStep⟩ := Option.bind_eq_some_iff.mp hStep
    obtain ⟨s₁, hGo, hStep⟩ := Option.bind_eq_some_iff.mp hStep
    obtain ⟨s₁, hStop, rfl⟩ := Option.map_eq_some_iff.mp hGo
    obtain rfl := Option.some.inj hStep
    have h₁ : s₁.StopsTwice e := h.dispatched hStop
    exact h₁
  | runStop e' =>
    simp only [ImplHandles.step] at hStep
    split at hStep
    · rename_i hMem
      obtain ⟨hNew, rfl⟩ := stop_connector hStep
      obtain ⟨hTwo, hOne⟩ := h
      have hCount := (List.perm_cons_erase hMem).count_eq e
      simp only [StopsTwice, List.count_append, List.count_cons, List.count_nil, Nat.zero_add]
        at hTwo hCount ⊢
      by_cases hSame : e' = e
      · subst hSame
        have hNone : s.stopped.count e' = 0 := List.count_eq_zero_of_not_mem hNew
        simp only [beq_self_eq_true, ↓reduceIte] at hCount ⊢
        omega
      · simp only [beq_iff_eq, hSame, ↓reduceIte] at hCount ⊢
        omega
    · cases hStep

theorem letGo_connector {i : ℕ} {impl : Option ℕ} {atOnce : Bool} :
    s.letGo .connector i impl atOnce = s.dispatchStop .connector impl atOnce :=
  Option.map_id_apply

/-- A connector that is moved to itself is stopped, and still has what was stopped. -/
theorem step_moveAssign_self {i : ℕ} {mine : Option ℕ} (hAt : slot s.handles i = some mine)
    (atOnce : Bool) :
    s.step .connector (.moveAssign i i atOnce) = s.dispatchStop .connector mine atOnce := by
  simp only [ImplHandles.step, hAt, letGo_connector, Option.bind_eq_bind, Option.bind_some, if_true]
  cases hStop : s.dispatchStop .connector mine atOnce with
  | none => rfl
  | some s₁ =>
    rw [Option.bind_some, (dispatchStop_cases hStop).1, hAt]
    rfl

theorem step_destroy {i : ℕ} {mine : Option ℕ} {atOnce : Bool} (hAt : slot s.handles i = some mine)
    (hStep : s.step .connector (.destroy i atOnce) = some s') :
    ∃ s₁, s.dispatchStop .connector mine atOnce = some s₁ ∧
      s' = { s₁ with handles := s₁.handles.set i none } := by
  simp only [ImplHandles.step, hAt, letGo_connector, Option.bind_eq_bind, Option.bind_some] at hStep
  obtain ⟨s₁, hStop, hEnd⟩ := Option.bind_eq_some_iff.mp hStep
  exact ⟨s₁, hStop, (Option.some.inj hEnd).symm⟩

theorem Accounted.movedToSelf (h : s.Accounted) {i e : ℕ} (hAt : slot s.handles i = some (some e))
    {b b' : Bool}
    (hRun : run (ImplHandles.step .connector) s [.moveAssign i i b, .destroy i b'] = some s') :
    s'.StopsTwice e := by
  obtain ⟨s₁, hStop, hRest⟩ := Option.bind_eq_some_iff.mp hRun
  rw [step_moveAssign_self hAt] at hStop
  obtain ⟨s₂, hDestroy, hEnd⟩ := Option.bind_eq_some_iff.mp hRest
  obtain rfl := Option.some.inj hEnd
  have hStill : slot s₁.handles i = some (some e) := by rw [(dispatchStop_cases hStop).1, hAt]
  obtain ⟨s₂, hStop', rfl⟩ := step_destroy hStill hDestroy
  have hNone : (s.pending ++ s.stopped).count e = 0 := by
    refine List.count_eq_zero_of_not_mem fun hMem => ?_
    refine List.disjoint_of_nodup_append h.nodup (mem_held.mpr ⟨i, some e, hAt, ?_⟩) hMem
    exact Option.mem_toList.mpr rfl
  obtain ⟨hFirst, hOnce⟩ := count_dispatchStop hStop e
  obtain ⟨hSecond, hTwice⟩ := count_dispatchStop hStop' e
  rw [List.count_append] at hNone
  have hTwo : (s₂.pending ++ s₂.stopped).count e = 2 := by
    rw [hSecond, hFirst, List.count_append]
    simp only [Option.toList_some, List.count_singleton_self]
    omega
  exact ⟨hTwo.ge, hTwice (hOnce (by omega))⟩

theorem accounted_start : Accounted {} := .refl _

/-- In every run of handles of either class in which no connector that has an implementation is moved
to itself: no assertion fails, and each implementation either has one handle, or its stop waits, or it
was stopped, once. A connector that is moved to itself and destroyed leaves a stop that never gets
done: it waits in every state that is reached from there, and its assertion fails when it runs. -/
theorem stops_run (cls : HandleClass) (ops : List ImplOp)
    (hNames : Along (step cls) Names {} ops) (hDistinct : Along (step cls) (Distinct cls) {} ops) :
    ∃ s, run (step cls) {} ops = some s ∧ s.Accounted ∧
      (cls = .connector → ∀ i e, slot s.handles i = some (some e) → ∀ b b' more s',
        run (step cls) s (.moveAssign i i b :: .destroy i b' :: more) = some s' →
          e ∈ s'.pending) := by
  obtain ⟨s, hRun, h⟩ := (hNames.and hDistinct).exists_run
    (fun s op h hOp => Accounted.step h hOp.1 hOp.2) accounted_start
  refine ⟨s, hRun, h, fun hConnector i e hAt b b' more s' hMore => ?_⟩
  subst hConnector
  have hSplit : run (step .connector) s ([.moveAssign i i b, .destroy i b'] ++ more) = some s' :=
    hMore
  rw [run_append] at hSplit
  obtain ⟨s₁, hSelf, hRest⟩ := Option.bind_eq_some_iff.mp hSplit
  exact (run_invariant (I := StopsTwice e) (fun _ _ _ h hStep => h.step hStep)
    (Accounted.movedToSelf h hAt hSelf) hRest).pending

/-- A program that replaces its connector. -/
def replaced : List ImplOp :=
  [.construct, .construct, .moveConstruct 0, .moveAssign 2 1 false, .runStop 0, .destroy 0 true]

theorem replaced_stops : ∃ s, run (step .connector) {} replaced = some s ∧ s.Accounted ∧
    (HandleClass.connector = .connector → ∀ i e, slot s.handles i = some (some e) →
      ∀ b b' more s', run (step .connector) s (.moveAssign i i b :: .destroy i b' :: more) = some s' →
        e ∈ s'.pending) :=
  stops_run .connector replaced (by decide) (by decide)

end ImplHandles

end Arby.PowerTrade
