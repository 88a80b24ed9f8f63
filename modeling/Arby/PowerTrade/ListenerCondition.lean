import Arby.Kit.Run
import Arby.PowerTrade.ListenerRun

/-! What the listener advertises: a snapshot that it emits is good only while the connection is up
and the book was rebuilt since, as long as ticks keep to the order of a fresh subscription. -/

namespace Arby.PowerTrade

open Trading Kit

theorem OrderbookListenerImpl.conditionOf_good {cstate : ConnectionState} :
    (conditionOf cstate).state = .good ↔ cstate.up = true := by
  unfold conditionOf
  rw [cstate.down_eq_not_up]
  cases cstate.up <;> simp

theorem OrderbookListenerImpl.responseCondition_not_good (code : Json) :
    (responseCondition code).state ≠ .good := by
  unfold responseCondition
  split <;> decide

namespace ListenerRun

/-- A good snapshot is emitted only while the connection is up and rebuilt. -/
def Honest (st : ListenerRun) : Prop :=
  ∀ snap ∈ st.emitted, snap.condition.state = .good →
    st.listener.connstate.up = true ∧ st.rebuilt = true

instance (st : ListenerRun) : Decidable st.Honest := by
  dsimp only [Honest]
  infer_instance

/-- The connection does not come up with a good book, and while it is up and not rebuilt the only
ticks are snapshots. -/
def Rebuilds (st : ListenerRun) : ListenerOp → Prop
  | .onConnectionState cstate =>
    cstate.up = true → st.listener.connstate.down = true → st.listener.bookCondition.state ≠ .good
  | .onTick tick _ =>
    tick.isSnapshot = false → st.listener.connstate.up = true → st.rebuilt = true
  | _ => True

instance (st : ListenerRun) (op : ListenerOp) : Decidable (st.Rebuilds op) :=
  match op with
  | .onConnectionState _ | .onCommandResponse _ | .onTick _ _ | .subscribe | .disconnect | .release _
  | .deallocateSnapshot _ => by
    dsimp only [Rebuilds]
    infer_instance

/-- The invariant of honest runs. -/
structure Advertised (st : ListenerRun) : Prop where
  connection : st.listener.connectionCondition.state = .good ↔ st.listener.connstate.up = true
  book : st.listener.connstate.up = true → st.listener.bookCondition.state = .good →
    st.rebuilt = true

theorem advertised_start (symbol : MarketKey) (now : TimestampType) :
    (start symbol now).Advertised where
  connection := iff_of_false nofun nofun
  book := nofun

variable {st st' : ListenerRun} {op : ListenerOp}

/-- A step that emits the listener's snapshot. -/
structure Emits (st : ListenerRun) : Prop where
  emitted : st.emitted = some st.listener.snapshot
  shown : st.listener.snapshot.condition = st.listener.condition
  connection : st.listener.connectionCondition.state = .good ↔ st.listener.connstate.up = true

theorem Emits.honest_iff (h : st.Emits) : st.Honest ↔ st.Advertised := by
  have hGood : st.listener.snapshot.condition.state = .good ↔
      st.listener.connstate.up = true ∧ st.listener.bookCondition.state = .good := by
    rw [h.shown, OrderbookListenerImpl.condition, FeedCondition.merge_state,
      FeedState.max_eq_good, h.connection]
  constructor
  · intro hHonest
    refine ⟨h.connection, fun hUp hBook => ?_⟩
    exact (hHonest _ h.emitted (hGood.mpr ⟨hUp, hBook⟩)).2
  · intro hAdv snap hSnap hSnapGood
    obtain rfl := Option.some.inj (h.emitted.symm.trans hSnap)
    obtain ⟨hUp, hBook⟩ := hGood.mp hSnapGood
    exact ⟨hUp, hAdv.book hUp hBook⟩

theorem emits_onConnectionState {cstate : ConnectionState}
    (hStep : st.step (.onConnectionState cstate) = some st') : st'.Emits ∧
      st'.listener.connstate = cstate ∧
      st'.listener.bookCondition =
        (if cstate.down then st.listener.bookCondition.mergeState .stale
          else st.listener.bookCondition) ∧
      st'.rebuilt = (st.rebuilt && !(st.listener.connstate.down && cstate.up)) := by
  rw [step_onConnectionState, OrderbookListenerImpl.onConnectionState_fst,
    OrderbookListenerImpl.update_eq] at hStep
  obtain rfl := Option.some.inj hStep
  exact ⟨⟨rfl, rfl, OrderbookListenerImpl.conditionOf_good⟩, rfl, rfl, rfl⟩

theorem emits_onTick {tick : TickRecord} {now : TimestampType} (h : st.Advertised)
    (hStep : st.step (.onTick tick now) = some st') : st'.Emits ∧
      st'.listener.connstate = st.listener.connstate ∧
      st'.listener.bookCondition.state = .good ∧
      st'.rebuilt = (st.rebuilt || tick.isSnapshot) := by
  obtain ⟨listener, hTick, hStep⟩ := Option.bind_eq_some_iff.mp hStep
  obtain ⟨snapshotService, snapshot, -, rfl⟩ := OrderbookListenerImpl.onTick_eq_some.mp hTick
  obtain rfl := Option.some.inj hStep
  obtain ⟨retired, freeSnaps, hLetGo⟩ := letGo_eq { st with
    listener := { st.listener with
      snapshotService
      snapshot
      bookCondition := st.listener.bookCondition.reset .good }.update
    rebuilt := st.rebuilt || tick.isSnapshot } st.listener.snapshot
  rw [hLetGo, OrderbookListenerImpl.update_eq]
  exact ⟨⟨rfl, rfl, h.connection⟩, rfl, rfl, rfl⟩

theorem emits_onCommandResponse {payload : JsonObject} {listener : OrderbookListenerImpl}
    (h : st.Advertised) (hCall : st.listener.onCommandResponse payload = some listener) :
    Emits { st with listener }.signal ∧ listener.bookCondition.state ≠ .good := by
  obtain ⟨code, -, rfl⟩ := OrderbookListenerImpl.onCommandResponse_eq_some.mp hCall
  rw [OrderbookListenerImpl.update_eq]
  exact ⟨⟨rfl, rfl, h.connection⟩, OrderbookListenerImpl.responseCondition_not_good code⟩

/-- A step that emits nothing and leaves what the conditions depend on. -/
structure Quiet (st st' : ListenerRun) : Prop where
  emitted : st'.emitted = none
  connstate : st'.listener.connstate = st.listener.connstate
  connectionCondition : st'.listener.connectionCondition = st.listener.connectionCondition
  bookCondition : st'.listener.bookCondition = st.listener.bookCondition
  rebuilt : st'.rebuilt = st.rebuilt

theorem Quiet.honest (h : Quiet st st') : st'.Honest := by
  intro snap hSnap
  rw [h.emitted] at hSnap
  cases hSnap

theorem Quiet.advertised (hQuiet : Quiet st st') (h : st.Advertised) : st'.Advertised := by
  constructor
  · rw [hQuiet.connectionCondition, hQuiet.connstate]
    exact h.connection
  · rw [hQuiet.connstate, hQuiet.bookCondition, hQuiet.rebuilt]
    exact h.book

/-- A step that comes up, or goes down, or stays as it is: the book was rebuilt since exactly when
the connection did not come up with a good book. -/
theorem Advertised.onConnectionState_iff {cstate : ConnectionState} (h : st.Advertised)
    (hStep : st.step (.onConnectionState cstate) = some st') :
    st.Rebuilds (.onConnectionState cstate) ↔ st'.Advertised := by
  obtain ⟨hEmits, hState, hBook, hRebuilt⟩ := emits_onConnectionState hStep
  have hDown : cstate.down = !cstate.up := cstate.down_eq_not_up
  have hWasDown : st.listener.connstate.down = !st.listener.connstate.up :=
    st.listener.connstate.down_eq_not_up
  constructor
  · intro hRebuilds
    refine ⟨hEmits.connection, fun hUp hGood => ?_⟩
    rw [hState] at hUp
    rw [hBook, hDown, hUp] at hGood
    cases hWas : st.listener.connstate.up with
    | true => simp [hRebuilt, hWasDown, hWas, h.book hWas hGood]
    | false => exact absurd hGood (hRebuilds hUp (by simp [hWasDown, hWas]))
  · intro hAdv hUp hDownBefore hGood
    have hClaim := hAdv.book (by rw [hState, hUp]) (by rw [hBook, hDown, hUp]; exact hGood)
    rw [hRebuilt, hDownBefore, hUp] at hClaim
    simp at hClaim

theorem Advertised.onTick_iff {tick : TickRecord} {now : TimestampType} (h : st.Advertised)
    (hStep : st.step (.onTick tick now) = some st') :
    st.Rebuilds (.onTick tick now) ↔ st'.Advertised := by
  obtain ⟨hEmits, hState, hBook, hRebuilt⟩ := emits_onTick h hStep
  constructor
  · intro hRebuilds
    refine ⟨hEmits.connection, fun hUp _ => ?_⟩
    rw [hState] at hUp
    cases hTick : tick.isSnapshot with
    | true => simp [hRebuilt, hTick]
    | false => simp [hRebuilt, hTick, hRebuilds hTick hUp]
  · intro hAdv hTick hUp
    have hClaim := hAdv.book (by rw [hState, hUp]) hBook
    simpa [hRebuilt, hTick] using hClaim

/-- From the invariant, a step meets the condition exactly when the invariant goes on, and exactly
when what it emits is honest. -/
theorem Advertised.step_iff (h : st.Advertised) (hStep : st.step op = some st') :
    (st.Rebuilds op ↔ st'.Advertised) ∧ (st'.Honest ↔ st'.Advertised) := by
  have hQuiet : Quiet st st' → (True ↔ st'.Advertised) ∧ (st'.Honest ↔ st'.Advertised) := by
    intro hQuiet
    have hAdv := hQuiet.advertised h
    exact ⟨iff_of_true trivial hAdv, iff_of_true hQuiet.honest hAdv⟩
  cases op with
  | onConnectionState cstate =>
    exact ⟨h.onConnectionState_iff hStep, (emits_onConnectionState hStep).1.honest_iff⟩
  | onTick tick now => exact ⟨h.onTick_iff hStep, (emits_onTick h hStep).1.honest_iff⟩
  | onCommandResponse payload =>
    obtain ⟨-, rfl⟩ | ⟨code, listener, -, hCall, rfl⟩ := onCommandResponse_cases hStep
    · exact hQuiet ⟨rfl, rfl, rfl, rfl, rfl⟩
    · obtain ⟨hEmits, hBook⟩ := emits_onCommandResponse h hCall
      have hAdv : Advertised { st with listener }.signal :=
        ⟨hEmits.connection, fun _ hGood => absurd hGood hBook⟩
      exact ⟨iff_of_true trivial hAdv, hEmits.honest_iff⟩
  | subscribe | disconnect | release =>
    obtain rfl := Option.some.inj hStep
    exact hQuiet ⟨rfl, rfl, rfl, rfl, rfl⟩
  | deallocateSnapshot i =>
    obtain rfl | ⟨snap, -, rfl⟩ := deallocateSnapshot_cases hStep
    all_goals exact hQuiet ⟨rfl, rfl, rfl, rfl, rfl⟩

/-- In every run the listener is honest exactly when it never comes up with a good book, and takes
no tick but snapshots while it is up and not rebuilt. -/
theorem honest_run_iff {symbol : MarketKey} {created : TimestampType} {ops : List ListenerOp}
    (hRun : run step (start symbol created) ops = some st) :
    Safe step (fun _ _ st => st.Honest) (start symbol created) ops ↔
      Along step Rebuilds (start symbol created) ops :=
  safe_iff_of_run (I := Advertised)
    (fun _ _ _ h hStep => (h.step_iff hStep).1.trans (h.step_iff hStep).2.symm)
    (fun _ _ _ h hHonest hStep => (h.step_iff hStep).2.mp hHonest)
    (advertised_start symbol created) hRun

/-- A subscription that is answered by a snapshot and an addition. -/
def freshSubscription : List ListenerOp :=
  [.onConnectionState { ec := 0 }, .onCommandResponse [("error_code", .string "0")],
    .onTick (.snapshot (.ofSides [⟨"1", 39628, 1, 1, .buy⟩] [])) 10,
    .onTick (.add ⟨"2", 39631, 1, 2, .sell⟩) 20, .onConnectionState {}]

theorem freshSubscription_honest :
    Safe step (fun _ _ st => st.Honest) (start (.spot ⟨"btc", "usd"⟩) 0) freshSubscription :=
  (honest_run_iff (Option.getD_of_ne_none (by decide +kernel)
    (start (.spot ⟨"btc", "usd"⟩) 0)).symm).mpr (by decide +kernel)

/-- A subscription that is answered by an addition before the snapshot. -/
def earlyAddition : List ListenerOp :=
  [.onConnectionState { ec := 0 }, .onCommandResponse [("error_code", .string "0")],
    .onTick (.add ⟨"2", 39631, 1, 2, .sell⟩) 20]

/-- The run returns, and its last snapshot is good without a snapshot tick. -/
theorem earlyAddition_dishonest :
    (run step (start (.spot ⟨"btc", "usd"⟩) 0) earlyAddition).isSome ∧
      ¬Safe step (fun _ _ st => st.Honest) (start (.spot ⟨"btc", "usd"⟩) 0) earlyAddition := by
  decide +kernel

end ListenerRun

end Arby.PowerTrade
