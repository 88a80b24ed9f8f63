import Arby.Entity.EntityHandle

/-! Runs of operations on handles: every entity has at most one claim on it, a handle or a stop that
waits. -/

namespace Arby.Entity

open Kit

namespace HandleHeap

/-- The calls that an entity has returned from when it is in this state. -/
def callsOf : EntityState → List EntityCall
  | .notStarted => []
  | .started => [.start]
  | .stopped => [.start, .stop]

/-- The handles on entity `e`, of which there are `owners e`, and the stops that wait for it: there
is at most one of both, only on a started entity, and when they are gone the entity is stopped. -/
structure Accounted (s : HandleHeap) (owners : ℕ → ℕ) : Prop where
  known : ∀ e ∈ s.held, e < s.entities.length
  log : ∀ (e : ℕ) (x : EntityBase), s.entities[e]? = some x → x.calls = callsOf x.estate
  single : ∀ e, owners e + s.pending.count (.stop e) ≤ 1
  live : ∀ e, owners e + s.pending.count (.stop e) = 1 →
    e ∈ s.held ∧ ∃ x, s.entities[e]? = some x ∧ x.estate = .started
  done : ∀ (e : ℕ) (x : EntityBase), s.entities[e]? = some x → e ∈ s.held →
    owners e + s.pending.count (.stop e) = 0 → x.estate = .stopped

variable {s s' : HandleHeap} {owners rest : ℕ → ℕ} {e : ℕ} {x : EntityBase} {impl : Option ℕ}

theorem Accounted.lawful (h : s.Accounted s.owners) (hEntity : s.entities[e]? = some x) :
    s.Lawful e x where
  order := by
    rw [h.log e x hEntity]
    cases x.estate <;> decide
  kept hStop := by
    by_contra hOwned
    have hSingle := h.single e
    obtain ⟨-, y, hSame, hStarted⟩ := h.live e (by omega)
    obtain rfl : x = y := Option.some.inj (hEntity.symm.trans hSame)
    rw [h.log e x hEntity, hStarted] at hStop
    cases hStop with
    | tail _ hNil => cases hNil
  released hHeld hFree hNone := by
    have hStopped := h.done e x hEntity hHeld (by rw [hFree, List.count_eq_zero.mpr hNone])
    rw [h.log e x hEntity, hStopped]
    decide

theorem start_eq (hEntity : s.entities[e]? = some x) (hNew : x.estate = .notStarted) :
    s.start e = some { s with
      entities := s.entities.set e { estate := .started, calls := x.calls ++ [.start] }
      pending := s.pending ++ [.handleStart e] } := by
  simp [HandleHeap.start, EntityBase.start, hEntity, hNew]

theorem stop_eq (hEntity : s.entities[e]? = some x) (hStarted : x.estate = .started) :
    s.stop e = some { s with
      entities := s.entities.set e { estate := .stopped, calls := x.calls ++ [.stop] }
      pending := s.pending ++ [.handleStop e] } := by
  simp [HandleHeap.stop, EntityBase.stop, hEntity, hStarted]

/-- A stop for the only claim on an entity. -/
theorem Accounted.stop (h : s.Accounted owners)
    (hRest : ∀ e', owners e' = rest e' + if some e' = some e then 1 else 0) :
    ∃ s', s.stop e = some s' ∧ s'.handles = s.handles ∧ s'.Accounted rest := by
  have hSingle := h.single e
  have hOwner := hRest e
  rw [if_pos rfl] at hOwner
  obtain ⟨hHeld, x, hEntity, hStarted⟩ := h.live e (by omega)
  have hLt : e < s.entities.length := (List.getElem?_eq_some_iff.mp hEntity).1
  refine ⟨_, stop_eq hEntity hStarted, rfl, ?_⟩
  have hCount : ∀ e', (s.pending ++ [HandleTask.handleStop e]).count (.stop e') =
      s.pending.count (.stop e') := by
    intro e'
    simp
  constructor
  · intro e' hHeld'
    rw [List.length_set]
    exact h.known e' hHeld'
  · intro e' x' hEntity'
    rw [List.getElem?_set] at hEntity'
    split at hEntity'
    · cases hEntity'
      rw [h.log e x hEntity, hStarted]
      rfl
    · exact h.log e' x' hEntity'
  · intro e'
    have hLe := h.single e'
    rw [hRest] at hLe
    rw [hCount]
    omega
  · intro e' hOne
    rw [hCount] at hOne
    have hLe := h.single e'
    rw [hRest] at hLe
    have hNe : ¬ some e' = some e := by
      rintro ⟨⟩
      rw [if_pos rfl] at hLe
      omega
    obtain ⟨hHeld', x', hEntity', hStarted'⟩ := h.live e' (by rw [hRest, if_neg hNe]; omega)
    refine ⟨hHeld', x', ?_, hStarted'⟩
    rw [List.getElem?_set_ne (fun hSame => hNe (congrArg some hSame.symm))]
    exact hEntity'
  · intro e' x' hEntity' hHeld' hNone
    rw [hCount] at hNone
    rw [List.getElem?_set] at hEntity'
    split at hEntity'
    · cases hEntity'
      rfl
    · rename_i hNe
      refine h.done e' x' hEntity' hHeld' ?_
      rw [hRest, if_neg (fun hSame => hNe (Option.some.inj hSame).symm)]
      omega

/-- A handle that lets go stops its entity or leaves that to the executor. -/
theorem Accounted.stopCheck (h : s.Accounted owners) (atOnce : Bool)
    (hRest : ∀ e, owners e = rest e + if some e = impl then 1 else 0) :
    ∃ s', s.stopCheck impl atOnce = some s' ∧ s'.handles = s.handles ∧ s'.Accounted rest := by
  cases impl with
  | none =>
    obtain rfl : owners = rest := funext fun e => by simpa using hRest e
    exact ⟨s, rfl, rfl, h⟩
  | some e =>
    cases atOnce with
    | true => exact h.stop hRest
    | false =>
      refine ⟨_, rfl, rfl, ?_⟩
      have hCount : ∀ e', rest e' + (s.pending ++ [HandleTask.stop e]).count (.stop e') =
          owners e' + s.pending.count (.stop e') := by
        intro e'
        rw [hRest, List.count_append, List.count_singleton]
        simp only [beq_iff_eq, HandleTask.stop.injEq, Option.some.injEq]
        simp only [eq_comm (a := e)]
        omega
      constructor
      · exact h.known
      · exact h.log
      · intro e'
        rw [hCount]
        exact h.single e'
      · intro e' hOne
        rw [hCount] at hOne
        exact h.live e' hOne
      · intro e' x' hEntity' hHeld' hNone
        rw [hCount] at hNone
        exact h.done e' x' hEntity' hHeld' hNone

/-- A handle on an entity that is started and has no claim on it. -/
theorem Accounted.hold (h : s.Accounted rest)
    (hStarted : ∀ e ∈ impl, (∃ x, s.entities[e]? = some x ∧ x.estate = .started) ∧
      rest e + s.pending.count (.stop e) = 0)
    (hRest : ∀ e, owners e = rest e + if some e = impl then 1 else 0) :
    (s.hold impl).Accounted owners where
  known e hHeld := by
    rcases List.mem_append.mp hHeld with hHeld | hNew
    · exact h.known e hHeld
    · obtain ⟨⟨x, hEntity, -⟩, -⟩ := hStarted e (Option.mem_toList.mp hNew)
      exact (List.getElem?_eq_some_iff.mp hEntity).1
  log := h.log
  single e := by
    show owners e + s.pending.count (.stop e) ≤ 1
    have hSingle := h.single e
    rw [hRest]
    split
    · rename_i hImpl
      have hNone := (hStarted e hImpl.symm).2
      omega
    · omega
  live e hOne := by
    replace hOne : owners e + s.pending.count (.stop e) = 1 := hOne
    rw [hRest] at hOne
    split at hOne
    · rename_i hImpl
      obtain ⟨hEntity, -⟩ := hStarted e hImpl.symm
      exact ⟨List.mem_append_right _ (by simp [← hImpl]), hEntity⟩
    · obtain ⟨hHeld, hEntity⟩ := h.live e (by omega)
      exact ⟨List.mem_append_left _ hHeld, hEntity⟩
  done e x hEntity hHeld hNone := by
    replace hNone : owners e + s.pending.count (.stop e) = 0 := hNone
    rw [hRest] at hNone
    rcases List.mem_append.mp hHeld with hHeld | hNew
    · exact h.done e x hEntity hHeld (by omega)
    · rw [Option.mem_toList] at hNew
      rw [if_pos hNew.symm] at hNone
      omega

/-- A new entity has no claim on it. -/
theorem Accounted.fresh (h : s.Accounted owners) :
    owners s.entities.length + s.pending.count (.stop s.entities.length) = 0 := by
  have hSingle := h.single s.entities.length
  by_contra hOne
  obtain ⟨-, x, hEntity, -⟩ := h.live s.entities.length (by omega)
  rw [List.getElem?_eq_none le_rfl] at hEntity
  cases hEntity

/-- A new entity. -/
theorem Accounted.append (h : s.Accounted owners) {tasks : List HandleTask}
    (hCount : ∀ e, tasks.count (.stop e) = s.pending.count (.stop e))
    (hLog : x.calls = callsOf x.estate) :
    Accounted { s with entities := s.entities ++ [x], pending := tasks } owners := by
  constructor
  · intro e hHeld
    have hLt := h.known e hHeld
    rw [List.length_append]
    omega
  · intro e y hEntity
    rw [List.getElem?_append] at hEntity
    split at hEntity
    · exact h.log e y hEntity
    · rw [List.getElem?_singleton] at hEntity
      split at hEntity
      · cases hEntity
        exact hLog
      · cases hEntity
  · intro e
    rw [hCount]
    exact h.single e
  · intro e hOne
    rw [hCount] at hOne
    obtain ⟨hHeld, y, hEntity, hStarted⟩ := h.live e hOne
    refine ⟨hHeld, y, ?_, hStarted⟩
    rw [List.getElem?_append_left (h.known e hHeld)]
    exact hEntity
  · intro e y hEntity hHeld hNone
    rw [hCount] at hNone
    rw [List.getElem?_append_left (h.known e hHeld)] at hEntity
    exact h.done e y hEntity hHeld hNone

theorem Accounted.create (h : s.Accounted owners) : s.create.Accounted owners :=
  h.append (fun _ => rfl) rfl

/-- A new entity that is started. -/
theorem Accounted.start (h : s.Accounted owners) :
    ∃ s', s.create.start s.entities.length = some s' ∧ s'.handles = s.handles ∧
      s'.pending = s.pending ++ [.handleStart s.entities.length] ∧ s'.Accounted owners ∧
      ∃ x, s'.entities[s.entities.length]? = some x ∧ x.estate = .started := by
  have hEntity : s.create.entities[s.entities.length]? = some {} := by
    simp [HandleHeap.create]
  have hSet : s.create.entities.set s.entities.length
      { estate := .started, calls := [.start] } =
      s.entities ++ [{ estate := .started, calls := [.start] }] := by
    simp [HandleHeap.create]
  refine ⟨_, start_eq hEntity rfl, rfl, rfl, ?_, { estate := .started, calls := [.start] }, ?_, rfl⟩
  · have hNew : Accounted { s with
        entities := s.entities ++ [{ estate := .started, calls := [.start] }]
        pending := s.pending ++ [.handleStart s.entities.length] } owners :=
      h.append (fun e => by simp) rfl
    rw [← hSet] at hNew
    exact hNew
  · simp [HandleHeap.create]

/-- The owners depend on the handles only. -/
theorem owners_congr (hHandles : s'.handles = s.handles) : s'.owners = s.owners := by
  unfold HandleHeap.owners
  rw [hHandles]

theorem owners_hold (s : HandleHeap) (impl : Option ℕ) (e : ℕ) :
    (s.hold impl).owners e = s.owners e + if some e = impl then 1 else 0 := by
  rw [owners, hold, List.countP_append, List.countP_singleton]
  simp only [decide_eq_true_eq, Option.some.injEq, eq_comm (a := impl)]
  rfl

/-- The handles play no part in what the invariant says for given owners. -/
theorem Accounted.handles (h : s.Accounted owners) (handles : List (Option (Option ℕ))) :
    Accounted { s with handles } owners :=
  ⟨h.known, h.log, h.single, h.live, h.done⟩

/-- The owners that are left when the handle on `impl` gives way to one on nothing, or to none. -/
theorem owners_set {handles : List (Option (Option ℕ))} {i : ℕ}
    (hMine : slot handles i = some impl) {v : Option (Option ℕ)} (hNone : ∀ e, v ≠ some (some e))
    (e : ℕ) : handles.countP (· = some (some e)) =
      (handles.set i v).countP (· = some (some e)) + if some e = impl then 1 else 0 := by
  have hCount := countP_set_slot hMine v (some (some e))
  rw [if_neg (hNone e)] at hCount
  simp only [Option.some.injEq, eq_comm (a := impl)] at hCount
  omega

/-- A handle takes what another has: its own entity loses an owner, and no other does. -/
theorem owners_move {handles : List (Option (Option ℕ))} {i j : ℕ} {mine : Option ℕ} (hNe : i ≠ j)
    (hMine : slot handles i = some mine) (hImpl : slot handles j = some impl) (e : ℕ) :
    handles.countP (· = some (some e)) =
      ((handles.set i (some impl)).set j (some none)).countP (· = some (some e)) +
        if some e = mine then 1 else 0 := by
  have hTake := countP_set_slot hMine (some impl) (some (some e))
  have hStill : slot (handles.set i (some impl)) j = some impl := by
    rw [slot_set (lt_of_slot hMine), Function.update_of_ne hNe.symm]
    exact hImpl
  have hGive := owners_set hStill (v := some none) (by simp) e
  simp only [Option.some.injEq, eq_comm (a := impl), eq_comm (a := mine)] at hTake
  omega

/-- A new handle takes what another has, which keeps nothing. -/
theorem owners_moveConstruct {j : ℕ} (hImpl : slot s.handles j = some impl) :
    s.owners =
      HandleHeap.owners { s with handles := s.handles.set j (some none) ++ [some impl] } := by
  funext e
  have hGive := owners_set hImpl (v := some none) (by simp) e
  rw [owners, owners, List.countP_append, List.countP_singleton, hGive]
  simp only [decide_eq_true_eq, Option.some.injEq, eq_comm (a := impl)]

theorem step_moveConstruct {j : ℕ} (hImpl : slot s.handles j = some impl) :
    s.step (.moveConstruct j) =
      some { s with handles := s.handles.set j (some none) ++ [some impl] } := by
  simp [HandleHeap.step, hImpl]

theorem step_moveAssign {i j : ℕ} {mine : Option ℕ} {atOnce : Bool} (hSelf : i ≠ j)
    (hMine : slot s.handles i = some mine) (hImpl : slot s.handles j = some impl)
    (hCheck : s.stopCheck mine atOnce = some s') : s.step (.moveAssign i j atOnce) =
      some { s' with handles := (s'.handles.set i (some impl)).set j (some none) } := by
  simp [HandleHeap.step, hMine, hImpl, hSelf, hCheck]

theorem step_destroy {i : ℕ} {atOnce : Bool} (hMine : slot s.handles i = some impl)
    (hCheck : s.stopCheck impl atOnce = some s') :
    s.step (.destroy i atOnce) = some { s' with handles := s'.handles.set i none } := by
  simp [HandleHeap.step, hMine, hCheck]

/-- A task is taken from the executor: a stop then counts as an owner until it is made. -/
theorem Accounted.take (h : s.Accounted owners) {task : HandleTask} (hMem : task ∈ s.pending) :
    Accounted { s with pending := s.pending.erase task }
      (fun e => owners e + if task = .stop e then 1 else 0) := by
  have hCount : ∀ e, (owners e + if task = .stop e then 1 else 0) +
      (s.pending.erase task).count (.stop e) = owners e + s.pending.count (.stop e) := by
    intro e
    rw [List.count_erase]
    simp only [beq_iff_eq]
    split
    · rename_i hSame
      have hPos : 0 < s.pending.count (.stop e) := List.count_pos_iff.mpr (hSame ▸ hMem)
      omega
    · omega
  refine ⟨h.known, h.log, ?_, ?_, ?_⟩
  · intro e
    rw [hCount]
    exact h.single e
  · intro e hOne
    rw [hCount] at hOne
    exact h.live e hOne
  · intro e x hEntity hHeld hNone
    rw [hCount] at hNone
    exact h.done e x hEntity hHeld hNone

/-- The step lemma: where a handle takes over only what it may, no assertion fails. -/
theorem Accounted.step (h : s.Accounted s.owners) {op : HandleOp} (hNames : s.Names op)
    (hTakes : s.TakesOver op) : ∃ s', s.step op = some s' ∧ s'.Accounted s'.owners := by
  cases op with
  | make begun =>
    cases begun with
    | true =>
      obtain ⟨s', hStart, hHandles, -, h', -⟩ := h.start
      exact ⟨s', hStart, owners_congr hHandles ▸ h'⟩
    | false => exact ⟨s.create, rfl, h.create⟩
  | construct =>
    obtain ⟨s', hStart, hHandles, hPending, h', hEntity⟩ := h.start
    refine ⟨s'.hold (some s.entities.length), by simp [HandleHeap.step, hStart], ?_⟩
    refine h'.hold ?_ (fun e => by rw [owners_hold, owners_congr hHandles])
    intro e he
    obtain rfl : s.entities.length = e := Option.some.inj he
    refine ⟨hEntity, ?_⟩
    have hFresh := h.fresh
    rw [hPending, List.count_append]
    simpa using hFresh
  | adopt impl =>
    refine ⟨s.hold impl, rfl, h.hold ?_ (fun e => owners_hold s impl e)⟩
    intro e he
    obtain ⟨hStarted, hFree, hNone⟩ := hTakes e he
    refine ⟨?_, by rw [hFree, List.count_eq_zero.mpr hNone]⟩
    obtain ⟨x, hEntity, hState⟩ := (Option.any_eq_true _ _).mp hStarted
    exact ⟨x, hEntity, of_decide_eq_true hState⟩
  | moveConstruct j =>
    obtain ⟨impl, hImpl⟩ := Option.isSome_iff_exists.mp hNames
    refine ⟨_, step_moveConstruct hImpl, ?_⟩
    exact owners_moveConstruct hImpl ▸ h.handles _
  | moveAssign i j atOnce =>
    obtain ⟨mine, hMine⟩ := Option.isSome_iff_exists.mp hNames.1
    obtain ⟨impl, hImpl⟩ := Option.isSome_iff_exists.mp hNames.2
    by_cases hSelf : i = j
    · exact ⟨s, by simp [HandleHeap.step, hImpl, hSelf], h⟩
    · obtain ⟨s', hCheck, hHandles, h'⟩ := h.stopCheck atOnce (owners_move hSelf hMine hImpl)
      refine ⟨_, step_moveAssign hSelf hMine hImpl hCheck, ?_⟩
      rw [← hHandles] at h'
      exact h'.handles _
  | destroy i atOnce =>
    obtain ⟨mine, hMine⟩ := Option.isSome_iff_exists.mp hNames
    obtain ⟨s', hCheck, hHandles, h'⟩ :=
      h.stopCheck atOnce (owners_set hMine (v := none) (by simp))
    refine ⟨_, step_destroy hMine hCheck, ?_⟩
    rw [← hHandles] at h'
    exact h'.handles _
  | run task =>
    have hMem : task ∈ s.pending := hNames
    have hTaken := h.take hMem
    cases task with
    | stop e =>
      have hRest : ∀ e', (s.owners e' + if HandleTask.stop e = .stop e' then 1 else 0) =
          s.owners e' + if some e' = some e then 1 else 0 := by
        intro e'
        simp only [HandleTask.stop.injEq, Option.some.injEq, eq_comm (a := e)]
      obtain ⟨s', hStop, hHandles, h'⟩ := hTaken.stop hRest
      exact ⟨s', by simp [HandleHeap.step, hMem, hStop], owners_congr hHandles ▸ h'⟩
    | handleStart e =>
      have hKept : Accounted { s with pending := s.pending.erase (.handleStart e) } s.owners := by
        simpa using hTaken
      exact ⟨_, if_pos hMem, hKept⟩
    | handleStop e =>
      have hKept : Accounted { s with pending := s.pending.erase (.handleStop e) } s.owners := by
        simpa using hTaken
      exact ⟨_, if_pos hMem, hKept⟩

theorem accounted_empty : Accounted {} fun _ => 0 where
  known := by simp
  log := by simp
  single := by simp
  live := by simp
  done := by simp

/-- In every run whose handles take over only what they may, all assertions hold and every entity is
started and stopped as it should be. -/
theorem paired_run {ops : List HandleOp} (hNames : Along step Names {} ops)
    (hTakes : Along step TakesOver {} ops) :
    Safe step (fun _ _ s' => ∀ e x, s'.entities[e]? = some x → s'.Lawful e x) {} ops := by
  refine safe_of_along (I := fun s => s.Accounted s.owners)
    (C := fun s op => s.Names op ∧ s.TakesOver op) ?_ accounted_empty (hNames.and hTakes)
  intro s op h hC
  obtain ⟨s', hStep, h'⟩ := h.step hC.1 hC.2
  exact ⟨s', hStep, fun e x hEntity => h'.lawful hEntity, h'⟩

/-- A handle takes over an entity from its maker and gives it on, by construction and by assignment
over a handle with an entity of its own. -/
theorem handover_paired : Safe step
    (fun _ _ s' => ∀ e x, s'.entities[e]? = some x → s'.Lawful e x) {}
    [.make true, .adopt (some 0), .moveConstruct 0, .construct, .moveAssign 2 1 false,
      .moveAssign 2 2 true, .run (.stop 1), .destroy 2 true, .destroy 0 true] :=
  paired_run (by decide) (by decide)

/-- A handle that takes over an entity that was not started stops it all the same. -/
theorem adopted_unpaired : ¬ ∀ ops, Along step Names {} ops →
    Safe step (fun _ _ s' => ∀ e x, s'.entities[e]? = some x → s'.Lawful e x) {} ops := by
  intro h
  obtain ⟨s₁, hMake, -, s₂, hAdopt, -, s₃, hDestroy, -, -⟩ :=
    h [.make false, .adopt (some 0), .destroy 0 true] (by decide)
  obtain rfl := Option.some.inj hMake
  obtain rfl := Option.some.inj hAdopt
  cases hDestroy

end HandleHeap

end Arby.Entity
