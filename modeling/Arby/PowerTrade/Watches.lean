import Arby.Kit.Handles
import Arby.Kit.Run

/-! The slots that watch a connector. What holds one of them is moved about on any executor, and
lets it go on that of the connector. -/

namespace Arby.PowerTrade

open Kit

variable {τ μ : Type}

/-- The signals of a connector, one for each key, and what holds their slots. A slot has the number
of those connected before it; `slots` has them in the order in which they were connected, and
`calls` what they were called with. A `cross_executor_connection` holds one slot or none, and
`pending` are the disconnections that wait on the executor. -/
structure Watches (τ μ : Type) where
  made : ℕ := 0
  slots : List (ℕ × τ) := []
  connections : List (Option (Option ℕ)) := []
  pending : List ℕ := []
  calls : List (ℕ × μ) := []
deriving DecidableEq, Repr

/-- `atOnce` says that the executor runs at once what is dispatched to it. -/
inductive WatchOp (τ μ : Type)
  | watch (key : τ)
  | construct
  | moveConstruct (j : ℕ)
  | moveAssign (i j : ℕ) (atOnce : Bool)
  | disconnect (i : ℕ) (atOnce : Bool)
  | destroy (i : ℕ) (atOnce : Bool)
  | runDisconnect (id : ℕ)
  | signal (key : τ) (m : μ)
deriving DecidableEq, Repr

namespace Watches

/-- `connection::disconnect` on the executor. A slot that is gone is gone. -/
def remove (w : Watches τ μ) (id : ℕ) : Watches τ μ :=
  { w with slots := w.slots.filter (·.1 ≠ id) }

/-- `cross_executor_connection::disconnect` of one that holds `held?`. It still holds it then. -/
def letGo (w : Watches τ μ) (held? : Option ℕ) (atOnce : Bool) : Watches τ μ :=
  match held? with
  | none => w
  | some id => if atOnce then w.remove id else { w with pending := w.pending ++ [id] }

/-- What slot `id` has been called with. -/
def heard (w : Watches τ μ) (id : ℕ) : List μ :=
  w.calls.filterMap fun call => if call.1 = id then some call.2 else none

/-- `watch_messages` and `watch_connection_state` on the executor, and what holds their result. -/
def watched (w : Watches τ μ) (key : τ) : Watches τ μ :=
  { w with
    made := w.made + 1
    slots := w.slots ++ [(w.made, key)]
    connections := w.connections ++ [some (some w.made)] }

variable [DecidableEq τ]

/-- The signal of `key` calls its slots. -/
def signalled (w : Watches τ μ) (key : τ) (m : μ) : Watches τ μ :=
  { w with calls := w.calls ++ (w.slots.filter (·.2 = key)).map fun s => (s.1, m) }

/-- One operation, `none` when it names what there is not. -/
def step (w : Watches τ μ) : WatchOp τ μ → Option (Watches τ μ)
  | .watch key => some (w.watched key)
  | .construct => some { w with connections := w.connections ++ [some none] }
  | .moveConstruct j => do
    let other ← slot w.connections j
    return { w with connections := w.connections.set j (some none) ++ [some other] }
  | .moveAssign i j atOnce => do
    let mine ← slot w.connections i
    let other ← slot w.connections j
    let w := w.letGo mine atOnce
    if i = j then return w
    return { w with connections := (w.connections.set i (some other)).set j (some none) }
  | .disconnect i atOnce => do
    let mine ← slot w.connections i
    return w.letGo mine atOnce
  | .destroy i atOnce => do
    let mine ← slot w.connections i
    let w := w.letGo mine atOnce
    return { w with connections := w.connections.set i none }
  | .runDisconnect id =>
    if id ∈ w.pending then some ({ w with pending := w.pending.erase id }.remove id) else none
  | .signal key m => some (w.signalled key m)

/-- The operation names what there is. -/
def Names (w : Watches τ μ) : WatchOp τ μ → Prop
  | .watch _ | .construct | .signal _ _ => True
  | .moveConstruct j => (slot w.connections j).isSome
  | .moveAssign i j _ => (slot w.connections i).isSome ∧ (slot w.connections j).isSome
  | .disconnect i _ | .destroy i _ => (slot w.connections i).isSome
  | .runDisconnect id => id ∈ w.pending

/-- It leaves slot `id` connected: it neither disconnects what holds the slot, nor destroys it, nor
assigns to it, and runs no disconnection of the slot. -/
def Keeps (id : ℕ) (w : Watches τ μ) : WatchOp τ μ → Prop
  | .watch _ | .construct | .signal _ _ | .moveConstruct _ => True
  | .moveAssign i _ _ | .disconnect i _ | .destroy i _ => slot w.connections i ≠ some (some id)
  | .runDisconnect id' => id' ≠ id

instance (w : Watches τ μ) (op : WatchOp τ μ) : Decidable (w.Names op) :=
  match op with
  | .watch _ | .construct | .signal .. | .moveConstruct _ | .moveAssign .. | .disconnect ..
  | .destroy .. | .runDisconnect _ => by
    dsimp only [Names]
    infer_instance

instance (id : ℕ) (w : Watches τ μ) (op : WatchOp τ μ) : Decidable (Keeps id w op) :=
  match op with
  | .watch _ | .construct | .signal .. | .moveConstruct _ | .moveAssign .. | .disconnect ..
  | .destroy .. | .runDisconnect _ => by
    dsimp only [Keeps]
    infer_instance

end Watches

/-- The message that is signalled, with its key. -/
def WatchOp.message? : WatchOp τ μ → Option (τ × μ)
  | .signal key m => some (key, m)
  | _ => none

namespace Watches

/-- Every slot that is connected is held in one place, or its disconnection waits. -/
structure Accounted (w : Watches τ μ) : Prop where
  once : (w.slots.map Prod.fst).Nodup
  sole : (held Option.toList w.connections).Nodup
  owned : ∀ s ∈ w.slots, s.1 ∈ held Option.toList w.connections ∨ s.1 ∈ w.pending

/-- The invariant. -/
structure Numbered (w : Watches τ μ) : Prop extends w.Accounted where
  slots : ∀ s ∈ w.slots, s.1 < w.made
  held : ∀ id ∈ held Option.toList w.connections, id < w.made
  calls : ∀ call ∈ w.calls, call.1 < w.made

variable {w w' : Watches τ μ} {held? : Option ℕ} {atOnce : Bool} {id : ℕ} {s : ℕ × τ}

@[simp] theorem letGo_made : (w.letGo held? atOnce).made = w.made := by
  cases held? <;> cases atOnce <;> rfl

@[simp] theorem letGo_calls : (w.letGo held? atOnce).calls = w.calls := by
  cases held? <;> cases atOnce <;> rfl

@[simp] theorem letGo_connections : (w.letGo held? atOnce).connections = w.connections := by
  cases held? <;> cases atOnce <;> rfl

theorem letGo_slots : (w.letGo held? atOnce).slots.Sublist w.slots := by
  cases held? with
  | none => exact .refl _
  | some id =>
    cases atOnce with
    | true => exact List.filter_sublist
    | false => exact .refl _

theorem mem_letGo_pending (hId : id ∈ w.pending) : id ∈ (w.letGo held? atOnce).pending := by
  cases held? with
  | none => exact hId
  | some id' =>
    cases atOnce with
    | true => exact hId
    | false => exact List.mem_append_left _ hId

/-- A slot that is let go and still connected is disconnected later. -/
theorem letGo_waits (hs : s ∈ (w.letGo held? atOnce).slots) (hHeld : s.1 ∈ held?.toList) :
    s.1 ∈ (w.letGo held? atOnce).pending := by
  cases held? with
  | none => cases hHeld
  | some id =>
    obtain hSame : s.1 = id := List.mem_singleton.mp hHeld
    cases atOnce with
    | true => exact absurd hSame (of_decide_eq_true (List.mem_filter.mp hs).2)
    | false => exact List.mem_append_right _ hHeld

/-- What a step does that neither connects a slot nor calls one. What was held in `gone` is not held
any more. -/
structure Releases (gone : Option ℕ) (w w' : Watches τ μ) : Prop where
  made : w'.made = w.made
  calls : w'.calls = w.calls
  slots : w'.slots.Sublist w.slots
  held : (Kit.held Option.toList w'.connections ++ gone.toList).Perm
    (Kit.held Option.toList w.connections)
  waits : ∀ s ∈ w'.slots, s.1 ∈ w.pending ∨ s.1 ∈ gone.toList → s.1 ∈ w'.pending

theorem Numbered.released {gone : Option ℕ} (h : w.Numbered) (hReleases : Releases gone w w') :
    w'.Numbered where
  once := h.once.sublist (hReleases.slots.map _)
  sole := (List.nodup_append.mp (hReleases.held.nodup_iff.mpr h.sole)).1
  owned s hs := by
    rcases h.owned s (hReleases.slots.subset hs) with hHeld | hPending
    · rcases List.mem_append.mp (hReleases.held.mem_iff.mpr hHeld) with hHeld | hGone
      · exact .inl hHeld
      · exact .inr (hReleases.waits s hs (.inr hGone))
    · exact .inr (hReleases.waits s hs (.inl hPending))
  slots s hs := by
    rw [hReleases.made]
    exact h.slots s (hReleases.slots.subset hs)
  held id hId := by
    rw [hReleases.made]
    exact h.held id (hReleases.held.subset (List.mem_append_left _ hId))
  calls call hCall := by
    rw [hReleases.calls] at hCall
    rw [hReleases.made]
    exact h.calls call hCall

/-- What was let go is not held any more. -/
theorem letGo_releases {connections : List (Option (Option ℕ))}
    (hHeld : (Kit.held Option.toList connections ++ held?.toList).Perm
      (Kit.held Option.toList w.connections)) :
    Releases held? w { w.letGo held? atOnce with connections } where
  made := letGo_made
  calls := letGo_calls
  slots := letGo_slots
  held := hHeld
  waits _ hs hWas := hWas.elim mem_letGo_pending (letGo_waits hs)

/-- It is still held. -/
theorem letGo_releases_none : Releases none w (w.letGo held? atOnce) where
  made := letGo_made
  calls := letGo_calls
  slots := letGo_slots
  held := by simp
  waits _ _ hWas := hWas.elim mem_letGo_pending (by simp)

theorem Numbered.watched (h : w.Numbered) (key : τ) : (w.watched key).Numbered := by
  refine ⟨⟨?_, ?_, fun s hs => ?_⟩, fun s hs => ?_, fun id hId => ?_, fun call hCall => ?_⟩
  · simp only [Watches.watched, List.map_append, List.nodup_append]
    refine ⟨h.once, List.nodup_singleton _, fun id hId id' hNew => ?_⟩
    obtain ⟨s, hs, rfl⟩ := List.mem_map.mp hId
    rw [List.mem_singleton.mp hNew]
    exact (h.slots s hs).ne
  · simp only [Watches.watched, held_concat, List.nodup_append]
    refine ⟨h.sole, List.nodup_singleton _, fun id hId id' hNew => ?_⟩
    rw [List.mem_singleton.mp hNew]
    exact (h.held id hId).ne
  · simp only [Watches.watched, held_concat, List.mem_append]
    rcases List.mem_append.mp hs with hs | hNew
    · exact (h.owned s hs).imp_left .inl
    · rw [List.mem_singleton.mp hNew]
      exact .inl (.inr (List.mem_singleton_self _))
  · rcases List.mem_append.mp hs with hs | hNew
    · exact (h.slots s hs).trans (Nat.lt_succ_self _)
    · rw [List.mem_singleton.mp hNew]
      exact Nat.lt_succ_self _
  · simp only [Watches.watched, held_concat] at hId
    rcases List.mem_append.mp hId with hId | hNew
    · exact (h.held id hId).trans (Nat.lt_succ_self _)
    · rw [List.mem_singleton.mp hNew]
      exact Nat.lt_succ_self _
  · exact (h.calls call hCall).trans (Nat.lt_succ_self _)

theorem construct_releases :
    Releases none w { w with connections := w.connections ++ [some none] } where
  made := rfl
  calls := rfl
  slots := .refl _
  held := by simp
  waits s _ hWas := by simpa using hWas

variable [DecidableEq τ] {op : WatchOp τ μ} {key : τ} {m : μ} {i j : ℕ}

theorem moveConstruct_releases (hName : w.Names (.moveConstruct j)) :
    ∃ w', w.step (.moveConstruct j) = some w' ∧ Releases none w w' := by
  obtain ⟨other, hOther⟩ := Option.isSome_iff_exists.mp hName
  refine ⟨{ w with connections := w.connections.set j (some none) ++ [some other] },
    Option.bind_eq_some_iff.mpr ⟨other, hOther, rfl⟩, rfl, rfl, .refl _, ?_, fun s _ hWas => ?_⟩
  · simpa using held_moved hOther (show Option.toList (none : Option ℕ) = [] from rfl)
  · simpa using hWas

theorem moveAssign_releases (atOnce : Bool) (hName : w.Names (.moveAssign i j atOnce)) :
    ∃ gone w', w.step (.moveAssign i j atOnce) = some w' ∧ Releases gone w w' := by
  obtain ⟨mine, hMine⟩ := Option.isSome_iff_exists.mp hName.1
  obtain ⟨other, hOther⟩ := Option.isSome_iff_exists.mp hName.2
  by_cases hSelf : i = j
  · subst hSelf
    have hStep : w.step (.moveAssign i i atOnce) = some (w.letGo mine atOnce) :=
      Option.bind_eq_some_iff.mpr
        ⟨mine, hMine, Option.bind_eq_some_iff.mpr ⟨mine, hMine, if_pos rfl⟩⟩
    exact ⟨none, _, hStep, letGo_releases_none⟩
  · refine ⟨mine, { w.letGo mine atOnce with
      connections := (w.connections.set i (some other)).set j (some none) },
      Option.bind_eq_some_iff.mpr
        ⟨mine, hMine, Option.bind_eq_some_iff.mpr ⟨other, hOther, by simp [hSelf]⟩⟩,
      letGo_releases ?_⟩
    exact held_replaced hMine hOther hSelf rfl

theorem disconnect_releases (atOnce : Bool) (hName : w.Names (.disconnect i atOnce)) :
    ∃ w', w.step (.disconnect i atOnce) = some w' ∧ Releases none w w' := by
  obtain ⟨mine, hMine⟩ := Option.isSome_iff_exists.mp hName
  exact ⟨w.letGo mine atOnce, Option.bind_eq_some_iff.mpr ⟨mine, hMine, rfl⟩, letGo_releases_none⟩

theorem destroy_releases (atOnce : Bool) (hName : w.Names (.destroy i atOnce)) :
    ∃ gone w', w.step (.destroy i atOnce) = some w' ∧ Releases gone w w' := by
  obtain ⟨mine, hMine⟩ := Option.isSome_iff_exists.mp hName
  refine ⟨mine, { w.letGo mine atOnce with connections := w.connections.set i none },
    Option.bind_eq_some_iff.mpr ⟨mine, hMine, by simp⟩, letGo_releases ?_⟩
  simpa using held_set Option.toList hMine none

theorem runDisconnect_releases (hName : w.Names (.runDisconnect id)) :
    ∃ w', w.step (.runDisconnect id) = some w' ∧ Releases none w w' := by
  have hMem : id ∈ w.pending := hName
  have hStep : w.step (.runDisconnect id) =
      some ({ w with pending := w.pending.erase id }.remove id) := if_pos hMem
  refine ⟨_, hStep, rfl, rfl, List.filter_sublist, by simp [remove], fun s hs hWas => ?_⟩
  have hne : s.1 ≠ id := of_decide_eq_true (List.mem_filter.mp hs).2
  have hPending : s.1 ∈ w.pending := by simpa using hWas
  exact (List.mem_erase_of_ne hne).mpr hPending

theorem Numbered.signalled (h : w.Numbered) (key : τ) (m : μ) : (w.signalled key m).Numbered := by
  refine ⟨⟨h.once, h.sole, h.owned⟩, h.slots, h.held, fun call hCall => ?_⟩
  rcases List.mem_append.mp hCall with hCall | hNew
  · exact h.calls call hCall
  · obtain ⟨s, hs, rfl⟩ := List.mem_map.mp hNew
    exact h.slots s (List.mem_filter.mp hs).1

/-- A step connects a slot, calls slots or releases some. -/
inductive Effect (w : Watches τ μ) : WatchOp τ μ → Watches τ μ → Prop
  | watch (key : τ) : Effect w (.watch key) (w.watched key)
  | signal (key : τ) (m : μ) : Effect w (.signal key m) (w.signalled key m)
  | releases {op : WatchOp τ μ} {w' : Watches τ μ} (gone : Option ℕ) (h : Releases gone w w')
    (hOp : op.message? = none) : Effect w op w'

theorem step_effect (hName : w.Names op) : ∃ w', w.step op = some w' ∧ Effect w op w' := by
  cases op with
  | watch key => exact ⟨_, rfl, .watch key⟩
  | signal key m => exact ⟨_, rfl, .signal key m⟩
  | construct => exact ⟨_, rfl, .releases _ construct_releases rfl⟩
  | moveConstruct j =>
    obtain ⟨w', hStep, hReleases⟩ := moveConstruct_releases hName
    exact ⟨w', hStep, .releases _ hReleases rfl⟩
  | moveAssign i j atOnce =>
    obtain ⟨gone, w', hStep, hReleases⟩ := moveAssign_releases atOnce hName
    exact ⟨w', hStep, .releases _ hReleases rfl⟩
  | disconnect i atOnce =>
    obtain ⟨w', hStep, hReleases⟩ := disconnect_releases atOnce hName
    exact ⟨w', hStep, .releases _ hReleases rfl⟩
  | destroy i atOnce =>
    obtain ⟨gone, w', hStep, hReleases⟩ := destroy_releases atOnce hName
    exact ⟨w', hStep, .releases _ hReleases rfl⟩
  | runDisconnect id =>
    obtain ⟨w', hStep, hReleases⟩ := runDisconnect_releases hName
    exact ⟨w', hStep, .releases _ hReleases rfl⟩

theorem Numbered.of_effect (h : w.Numbered) (hEffect : Effect w op w') : w'.Numbered := by
  cases hEffect with
  | watch key => exact h.watched key
  | signal key m => exact h.signalled key m
  | releases gone hReleases => exact h.released hReleases

/-- The step lemma. -/
theorem Numbered.step (h : w.Numbered) (hName : w.Names op) :
    ∃ w', w.step op = some w' ∧ w'.Numbered := by
  obtain ⟨w', hStep, hEffect⟩ := step_effect hName
  exact ⟨w', hStep, h.of_effect hEffect⟩

end Watches

end Arby.PowerTrade
