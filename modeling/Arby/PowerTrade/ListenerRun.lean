import Arby.PowerTrade.OrderbookListenerImpl

/-! The runs of a listener with its subscribers: events of the connector and subscriptions come in
any order, and subscribers keep the snapshots that they receive for as long as they like. -/

namespace Arby.PowerTrade

open Trading Kit

namespace OrderbookListenerImpl

variable {l l' : OrderbookListenerImpl} {tick : TickRecord} {now : TimestampType}

/-- The condition that the listener's next snapshot shows. -/
def condition (l : OrderbookListenerImpl) : FeedCondition :=
  l.connectionCondition.merge l.bookCondition

theorem update_eq (l : OrderbookListenerImpl) :
    l.update = { l with snapshot := { l.snapshot with condition := l.condition } } := by
  unfold update condition
  rw [FeedCondition.reset_merge]

/-- The condition that `on_connection_state` gives to the connection. -/
def conditionOf (cstate : ConnectionState) : FeedCondition :=
  if cstate.down then { state := .stale, errors := ["connection dropped"] }
  else { state := .good }

/-- The condition that `on_command_response` gives to the book. -/
def responseCondition (code : Json) : FeedCondition :=
  if code.ifString = some "0" then { state := .notReady, errors := ["subscribed"] }
  else { state := .error, errors := ["failed to subscribe"] }

theorem onConnectionState_fst (l : OrderbookListenerImpl) (cstate : ConnectionState) :
    (l.onConnectionState cstate).1 = { l with
      connstate := cstate
      connectionCondition := conditionOf cstate
      bookCondition :=
        if cstate.down then l.bookCondition.mergeState .stale else l.bookCondition }.update := by
  unfold onConnectionState conditionOf
  cases hDown : cstate.down <;> simp [hDown, FeedCondition.reset, FeedCondition.pushError]

theorem onCommandResponse_eq_some {payload : JsonObject} : l.onCommandResponse payload = some l' ↔
    ∃ code, payload.ifContains "error_code" = some code ∧
      l' = { l with bookCondition := responseCondition code }.update := by
  unfold onCommandResponse responseCondition
  simp only [Option.bind_eq_bind, Option.bind_eq_some_iff, Option.pure_def, Option.some.injEq,
    FeedCondition.reset, FeedCondition.pushError, List.nil_append, @eq_comm _ l']

theorem onTick_eq_some : l.onTick tick now = some l' ↔
    ∃ snapshotService snapshot,
      l.snapshotService.processTick tick now = some (snapshotService, snapshot) ∧
      l' = { l with
        snapshotService
        snapshot
        bookCondition := l.bookCondition.reset .good }.update := by
  simp only [onTick, Option.bind_eq_bind, Option.bind_eq_some_iff, Prod.exists, Option.pure_def,
    Option.some.injEq, @eq_comm _ l']

end OrderbookListenerImpl

/-- The listener and the pointers to its snapshots. `slots` slots are connected to `signal_`. A
receipt is a pointer outside the listener, and says what its snapshot was when it was received. The
objects of `retired` were replaced as the listener's snapshot and are pointed to by receipts; those
of `returning` are on their way back to the service. `rebuilt` says whether a snapshot tick came
since the connection last came up, `emitted` what the last step passed to `signal_`, and `sent` what
went to the connector. -/
structure ListenerRun where
  listener : OrderbookListenerImpl
  slots : ℕ := 0
  receipts : List OrderbookSnapshot := []
  retired : List OrderbookSnapshot := []
  returning : List OrderbookSnapshot := []
  sent : List Json := []
  rebuilt : Bool := false
  emitted : Option OrderbookSnapshot := none

/-- An event of the listener, or a step of a subscriber: it disconnects a slot, releases a receipt,
or an object that has lost its last pointer reaches the service. -/
inductive ListenerOp
  | onConnectionState (cstate : ConnectionState)
  | onCommandResponse (payload : JsonObject)
  | onTick (tick : TickRecord) (now : TimestampType)
  | subscribe
  | disconnect
  | release (i : ℕ)
  | deallocateSnapshot (i : ℕ)

namespace ListenerRun

def isHeld (st : ListenerRun) (object : ℕ) : Bool := st.receipts.any fun r => r.object = object

/-- `signal_(snapshot_)`: every connected slot receives the snapshot. -/
def signal (st : ListenerRun) : ListenerRun :=
  { st with
    emitted := some st.listener.snapshot
    receipts := List.replicate st.slots st.listener.snapshot ++ st.receipts }

/-- The listener's pointer to `old` is replaced. When it was the last one the deleter runs at once,
since the listener is on its own executor. Object 0 has no deleter, and is destroyed. -/
def letGo (st : ListenerRun) (old : OrderbookSnapshot) : ListenerRun :=
  if st.isHeld old.object then { st with retired := old :: st.retired }
  else if old.object = 0 then st
  else
    { st with listener := { st.listener with
      snapshotService := st.listener.snapshotService.deallocateSnapshot old } }

/-- The deleters of the retired objects that no receipt points to any more. -/
def sweep (st : ListenerRun) : ListenerRun :=
  { st with
    retired := st.retired.filter fun o => st.isHeld o.object
    returning := (st.retired.filter fun o => !st.isHeld o.object && o.object ≠ 0) ++ st.returning }

def step (st : ListenerRun) : ListenerOp → Option ListenerRun
  | .onConnectionState cstate =>
    let (listener, commands) := st.listener.onConnectionState cstate
    some { st with
      listener
      sent := st.sent ++ commands
      rebuilt := st.rebuilt && !(st.listener.connstate.down && cstate.up) }.signal
  | .onCommandResponse payload =>
    match st.listener.onCommandResponse payload with
    | none => some { st with emitted := none }
    | some listener => some { st with listener }.signal
  | .onTick tick now => do
    let listener ← st.listener.onTick tick now
    let rebuilt := st.rebuilt || tick.isSnapshot
    return ({ st with listener, rebuilt }.letGo st.listener.snapshot).signal
  | .subscribe =>
    some { st with
      slots := st.slots + 1
      receipts := st.listener.snapshot :: st.receipts
      emitted := none }
  | .disconnect => some { st with slots := st.slots - 1, emitted := none }
  | .release i => some { st with receipts := st.receipts.eraseIdx i, emitted := none }.sweep
  | .deallocateSnapshot i =>
    match st.returning[i]? with
    | none => some { st with emitted := none }
    | some snap =>
      some { st with
        listener := { st.listener with
          snapshotService := st.listener.snapshotService.deallocateSnapshot snap }
        returning := st.returning.eraseIdx i
        emitted := none }

variable {st st' : ListenerRun}

theorem step_onConnectionState (st : ListenerRun) (cstate : ConnectionState) :
    st.step (.onConnectionState cstate) = some { st with
      listener := (st.listener.onConnectionState cstate).1
      sent := st.sent ++ (st.listener.onConnectionState cstate).2
      rebuilt := st.rebuilt && !(st.listener.connstate.down && cstate.up) }.signal := rfl

/-- A response without an error code goes unnoticed. -/
theorem onCommandResponse_cases {payload : JsonObject}
    (hStep : st.step (.onCommandResponse payload) = some st') :
    payload.ifContains "error_code" = none ∧ st' = { st with emitted := none } ∨
      ∃ code listener, payload.ifContains "error_code" = some code ∧
        st.listener.onCommandResponse payload = some listener ∧ st' = signal { st with listener } := by
  simp only [step] at hStep
  cases hCall : st.listener.onCommandResponse payload with
  | none =>
    rw [hCall] at hStep
    refine .inl ⟨?_, (Option.some.inj hStep).symm⟩
    by_contra hCode
    obtain ⟨code, hCode⟩ := Option.ne_none_iff_exists'.mp hCode
    cases hCall.symm.trans
      (OrderbookListenerImpl.onCommandResponse_eq_some.mpr ⟨code, hCode, rfl⟩)
  | some listener =>
    rw [hCall] at hStep
    obtain ⟨code, hCode, -⟩ := OrderbookListenerImpl.onCommandResponse_eq_some.mp hCall
    exact .inr ⟨code, listener, hCode, rfl, (Option.some.inj hStep).symm⟩

theorem deallocateSnapshot_cases {i : ℕ} (hStep : st.step (.deallocateSnapshot i) = some st') :
    st' = { st with emitted := none } ∨
      ∃ snap, st.returning[i]? = some snap ∧ st' = { st with
        listener := { st.listener with
          snapshotService := st.listener.snapshotService.deallocateSnapshot snap }
        returning := st.returning.eraseIdx i
        emitted := none } := by
  simp only [step] at hStep
  cases hSnap : st.returning[i]? with
  | none =>
    rw [hSnap] at hStep
    exact .inl (Option.some.inj hStep).symm
  | some snap =>
    rw [hSnap] at hStep
    exact .inr ⟨snap, rfl, (Option.some.inj hStep).symm⟩

theorem letGo_eq (st : ListenerRun) (old : OrderbookSnapshot) : ∃ retired freeSnaps,
    st.letGo old = { st with
      retired
      listener := { st.listener with
        snapshotService := { st.listener.snapshotService with freeSnaps } } } := by
  unfold letGo
  split
  · exact ⟨old :: st.retired, st.listener.snapshotService.freeSnaps, rfl⟩
  · split
    · exact ⟨st.retired, st.listener.snapshotService.freeSnaps, rfl⟩
    · exact ⟨st.retired, old :: st.listener.snapshotService.freeSnaps, rfl⟩

def start (symbol : MarketKey) (now : TimestampType) : ListenerRun :=
  { listener := .construct symbol now }

end ListenerRun

end Arby.PowerTrade
