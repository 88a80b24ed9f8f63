import Arby.PowerTrade.ConnectorImpl
import Arby.PowerTrade.ListenerStart

/-! The subscribe commands of a listener over the connector's connections. The listener sends one
for each connection, and the send queue keeps those that a connection has not written. -/

namespace Arby.PowerTrade

open Trading Kit

/-! ### A kind of message that a connection writes once -/

namespace ConnectorImpl

variable {μ : Type*} {p : μ → Bool} {c c' : ConnectorImpl μ} {op : ConnectorOp μ} {s : μ}

/-- `send_loop` may still write on this connection. -/
def writes (c : ConnectorImpl μ) : Bool :=
  c.connstate.up && !c.cancelled && c.sendLoop ≠ .wrote false && c.sendLoop ≠ .finished

/-- The messages of the queue whose write has not been started. -/
def ahead (c : ConnectorImpl μ) : List μ :=
  if c.sendLoop = .writing ∨ c.sendLoop = .wrote true then c.sendQueue.tail else c.sendQueue

/-- A connection finds at most one message of this kind in the queue, and gets one only when it has
not started one and has none ahead. -/
def Fresh (p : μ → Bool) (c : ConnectorImpl μ) : ConnectorOp μ → Prop
  | .send s => p s = true → c.writes = true → c.started.countP p = 0 ∧ c.ahead.countP p = 0
  | .connected => c.phase = .connecting → c.sendQueue.countP p ≤ 1
  | _ => True

instance (c : ConnectorImpl μ) (op : ConnectorOp μ) : Decidable (c.Fresh p op) :=
  match op with
  | .send _ | .stop | .connected | .connectFailed _ | .startSend | .wake | .writeDone | .writeFailed
  | .resumeSend | .receiveFailed _ | .cancelSend | .disconnected _ | .retry => by
    dsimp only [Fresh]
    infer_instance

/-- The invariant: the latest connection has started at most one message of this kind, and will not
start another. -/
structure Single (p : μ → Bool) (c : ConnectorImpl μ) : Prop where
  started : c.started.countP p ≤ 1
  ahead : c.writes = true → c.started.countP p + c.ahead.countP p ≤ 1

theorem Single.silent (h : c.Single p) (hStarted : c'.started = c.started)
    (hSilent : c'.writes = false) : c'.Single p where
  started := hStarted ▸ h.started
  ahead hWrites := by
    rw [hSilent] at hWrites
    cases hWrites

theorem writes_of_down (hDown : c.connstate.up = false) : c.writes = false := by
  simp [writes, hDown]

theorem writes_of_cancelled (hCancelled : c.cancelled = true) : c.writes = false := by
  simp [writes, hCancelled]

theorem writes_of_finished (hLoop : c.sendLoop = .finished) : c.writes = false := by
  simp [writes, hLoop]

theorem setConnectionState_down (c : ConnectorImpl μ) {ec : ErrorCode} (hError : ec ≠ 0) :
    (c.setConnectionState ec).connstate.up = false := by
  simp [setConnectionState, ConnectionState.set, ConnectionState.up, hError]

theorem writes_cancelTimer (c : ConnectorImpl μ) : c.cancelTimer.writes = c.writes := by
  simp [writes, cancelTimer]

theorem ahead_cancelTimer (c : ConnectorImpl μ) : c.cancelTimer.ahead = c.ahead := by
  simp [ConnectorImpl.ahead, cancelTimer]

theorem Single.cancelTimer (h : c.Single p) : c.cancelTimer.Single p where
  started := h.started
  ahead hWrites := by
    rw [ahead_cancelTimer]
    exact h.ahead (writes_cancelTimer c ▸ hWrites)

theorem Kept.ahead_send (h : c.Kept) (s : μ) : (c.send s).ahead = c.ahead ++ [s] := by
  rw [ConnectorImpl.send, ahead_cancelTimer]
  unfold ConnectorImpl.ahead
  split
  · rename_i hFront
    exact List.tail_append_of_ne_nil (h.front hFront)
  · rfl

theorem Single.send (hKept : c.Kept) (h : c.Single p) (hFresh : c.Fresh p (.send s)) :
    (c.send s).Single p where
  started := h.started
  ahead hWrites := by
    have hWas : c.writes = true := writes_cancelTimer { c with
      sendQueue := c.sendQueue ++ [s]
      sent := c.sent ++ [s] } ▸ hWrites
    show c.started.countP p + (c.send s).ahead.countP p ≤ 1
    rw [hKept.ahead_send, List.countP_append, List.countP_singleton]
    split
    · rename_i hKind
      obtain ⟨hStarted, hAhead⟩ := hFresh hKind hWas
      omega
    · exact h.ahead hWas

/-- A message that is written is no longer ahead. -/
theorem Single.sendTop (hStarted : c.started.countP p ≤ 1)
    (hAhead : c.connstate.up = true → c.cancelled = false →
      c.started.countP p + c.sendQueue.countP p ≤ 1) : c.sendTop.Single p := by
  have hSilent : Single p { c with sendLoop := .finished } :=
    ⟨hStarted, fun hWrites => nomatch hWrites.symm.trans (writes_of_finished rfl)⟩
  unfold ConnectorImpl.sendTop
  split
  · rename_i hIdle
    cases hCancelled : c.cancelled with
    | false => exact ⟨hStarted, fun _ => hAhead (Bool.and_eq_true_iff.mp hIdle).1 hCancelled⟩
    | true => exact ⟨hStarted, fun hWrites => nomatch hWrites.symm.trans (writes_of_finished rfl)⟩
  · split
    · exact hSilent
    · rename_i hUp
      rw [ConnectionState.down_eq_not_up, Bool.not_eq_true, Bool.not_eq_false'] at hUp
      split
      · exact hSilent
      · rename_i hCancelled
        have hTotal : (c.started ++ c.sendQueue.head?.toList).countP p +
            c.sendQueue.tail.countP p ≤ 1 := by
          have hBefore := hAhead hUp (Bool.not_eq_true _ ▸ hCancelled)
          cases hQueue : c.sendQueue with
          | nil => simpa [hQueue] using hBefore
          | cons s rest =>
            rw [hQueue, List.countP_cons] at hBefore
            rw [List.head?_cons, Option.toList_some, List.countP_append, List.countP_singleton,
              List.tail_cons]
            omega
        exact ⟨(Nat.le_add_right _ _).trans hTotal, fun _ => hTotal⟩

/-- What the loop has ahead at its top, when it may write. -/
theorem Single.top (h : c.Single p) (hLoop : c.sendLoop = .spawned ∨ c.sendLoop = .parked true) :
    c.sendTop.Single p := by
  refine .sendTop h.started fun hUp hCancelled => ?_
  have hAhead := h.ahead (by rcases hLoop with hLoop | hLoop <;> simp [writes, hUp, hCancelled, hLoop])
  rcases hLoop with hLoop | hLoop <;> simpa [ConnectorImpl.ahead, hLoop] using hAhead

theorem Single.setConnectionState (h : c.Single p) {ec : ErrorCode} (hError : ec ≠ 0) :
    (c.setConnectionState ec).Single p :=
  h.silent rfl (writes_of_down (c.setConnectionState_down hError))

theorem Single.leave (h : c.Single p) {ec : ErrorCode} (hError : ec ≠ 0) : (c.leave ec).Single p :=
  h.silent rfl (writes_of_down (c := c.leave ec) (c.setConnectionState_down hError))

/-- The step lemma. -/
theorem Single.step (hKept : c.Kept) (h : c.Single p) (hFresh : c.Fresh p op) :
    (c.step op).Single p := by
  cases op with
  | send s => exact h.send hKept hFresh
  | stop => exact ⟨h.started, h.ahead⟩
  | connected =>
    simp only [ConnectorImpl.step]
    split
    · rename_i hPhase
      have hQueue := hFresh hPhase
      refine ⟨Nat.zero_le _, fun _ => ?_⟩
      show 0 + c.sendQueue.countP p ≤ 1
      rwa [Nat.zero_add]
    · exact h
  | connectFailed ec =>
    simp only [ConnectorImpl.step]
    split
    · rename_i hFailed
      exact h.leave hFailed.2
    · exact h
  | startSend =>
    simp only [ConnectorImpl.step]
    split
    · rename_i hLoop
      exact h.top (.inl hLoop)
    · exact h
  | wake =>
    simp only [ConnectorImpl.step]
    split
    · rename_i hLoop
      exact h.top (.inr hLoop)
    · exact h
  | writeDone =>
    simp only [ConnectorImpl.step]
    split
    · rename_i hLoop _
      refine ⟨h.started, fun hWrites => ?_⟩
      have hAhead := h.ahead (by simpa [writes, hLoop] using hWrites)
      simpa [ConnectorImpl.ahead, hLoop] using hAhead
    · exact h
  | writeFailed =>
    simp only [ConnectorImpl.step]
    split
    · exact h.silent rfl (by simp [writes])
    · exact h
  | resumeSend =>
    simp only [ConnectorImpl.step]
    split
    · rename_i hLoop
      refine .sendTop h.started fun hUp (hCancelled : c.cancelled = false) => ?_
      have hAhead := h.ahead (by simp [writes, hUp, hCancelled, hLoop])
      simpa [ConnectorImpl.ahead, hLoop] using hAhead
    · exact h.silent rfl (writes_of_finished rfl)
    · exact h
  | receiveFailed ec =>
    simp only [ConnectorImpl.step]
    split
    · rename_i hFailed
      split
      · exact ⟨h.started, (h.setConnectionState hFailed.2).cancelTimer.ahead⟩
      · exact ⟨h.started, h.cancelTimer.ahead⟩
    · exact h
  | cancelSend =>
    simp only [ConnectorImpl.step]
    split
    · exact h.silent rfl (writes_of_cancelled rfl)
    · exact h
  | disconnected ec =>
    simp only [ConnectorImpl.step]
    split
    · rename_i hEnded
      exact h.leave hEnded.2.2.2
    · exact h
  | retry =>
    simp only [ConnectorImpl.step]
    split
    · exact ⟨h.started, h.ahead⟩
    · exact h

theorem single_start : Single p ({} : ConnectorImpl μ) :=
  ⟨Nat.zero_le _, nofun⟩

end ConnectorImpl

/-! ### The listener and the connector -/

/-- A message of the send queue: the listener's subscribe command, or what others send. -/
inductive Message
  | subscribe (request : Json)
  | other (s : String)

def Message.isSubscribe : Message → Bool
  | subscribe _ => true
  | other _ => false

def ConnectorOp.map {α β : Type*} (f : α → β) : ConnectorOp α → ConnectorOp β
  | send s => send (f s)
  | stop => stop
  | connected => connected
  | connectFailed ec => connectFailed ec
  | startSend => startSend
  | wake => wake
  | writeDone => writeDone
  | writeFailed => writeFailed
  | resumeSend => resumeSend
  | receiveFailed ec => receiveFailed ec
  | cancelSend => cancelSend
  | disconnected ec => disconnected ec
  | retry => retry

/-- A listener and its connector. `crossing` are the commands that `connector::send` has dispatched
from another executor, and that the connector's executor has still to take. -/
structure Subscription where
  connector : ConnectorImpl Message := {}
  listener : ListenerStart
  crossing : List Json := []

/-- A handler of the connector, in which others may send; a step of the listener's start or of its
executor; or the arrival of a command that crosses. -/
inductive SubscriptionOp
  | connector (op : ConnectorOp String)
  | enter
  | serve
  | runTask
  | arrive

namespace Subscription

/-- What the slot of the listener receives from `connstate_signal_` in a step of the connector. -/
def notify (sameExecutor : Bool) (listener : ListenerStart) (states : List ConnectionState) :
    ListenerStart :=
  states.foldl (fun listener cstate => listener.step sameExecutor (.setConnectionState cstate.ec))
    listener

/-- The commands that a step of the listener passes to `connector::send`. -/
def commands (sameExecutor : Bool) (st : Subscription) (op : StartOp) : List Json :=
  (st.listener.step sameExecutor op).sent.drop st.listener.sent.length

/-- `connector::send` dispatches: on the connector's executor the message is queued at once. -/
def listen (sameExecutor : Bool) (st : Subscription) (op : StartOp) : Subscription :=
  let requests := st.commands sameExecutor op
  let st := { st with listener := st.listener.step sameExecutor op }
  if sameExecutor then
    { st with connector := requests.foldl (fun c request => c.send (.subscribe request)) st.connector }
  else { st with crossing := st.crossing ++ requests }

def step (sameExecutor : Bool) (st : Subscription) : SubscriptionOp → Subscription
  | .connector op =>
    let connector := st.connector.step (op.map .other)
    let states := connector.signalled.drop st.connector.signalled.length
    { st with connector, listener := notify sameExecutor st.listener states }
  | .enter => st.listen sameExecutor .enter
  | .serve => st.listen sameExecutor .serve
  | .runTask => st.listen sameExecutor .runTask
  | .arrive =>
    match st.crossing with
    | [] => st
    | request :: crossing =>
      { st with connector := st.connector.send (.subscribe request), crossing }

def start (symbol : MarketKey) (created : TimestampType) : Subscription :=
  { listener := .start symbol created }

/-- The steps of the connector in a step. -/
def connectorOps (sameExecutor : Bool) (st : Subscription) :
    SubscriptionOp → List (ConnectorOp Message)
  | .connector op => [op.map .other]
  | .enter => if sameExecutor then sends (st.commands sameExecutor .enter) else []
  | .serve => if sameExecutor then sends (st.commands sameExecutor .serve) else []
  | .runTask => if sameExecutor then sends (st.commands sameExecutor .runTask) else []
  | .arrive => sends (st.crossing.take 1)
where
  sends (requests : List Json) : List (ConnectorOp Message) :=
    requests.map fun request => .send (.subscribe request)

/-- The latest connection has written at most one subscribe command. -/
def Once (st : Subscription) : Prop := st.connector.started.countP Message.isSubscribe ≤ 1

instance (st : Subscription) : Decidable st.Once := by
  dsimp only [Once]
  infer_instance

/-- A connection finds at most one subscribe command in the queue, and while it may still write it
gets one only when it has not started one and has none ahead. -/
def Fresh (sameExecutor : Bool) (st : Subscription) (op : SubscriptionOp) : Prop :=
  Along (always ConnectorImpl.step) (ConnectorImpl.Fresh Message.isSubscribe) st.connector
    (st.connectorOps sameExecutor op)

instance (sameExecutor : Bool) (st : Subscription) (op : SubscriptionOp) :
    Decidable (st.Fresh sameExecutor op) := by
  dsimp only [Fresh]
  infer_instance

variable {sameExecutor : Bool} {st : Subscription} {op : SubscriptionOp}

theorem foldl_sends (requests : List Json) (c : ConnectorImpl Message) :
    (connectorOps.sends requests).foldl ConnectorImpl.step c =
      requests.foldl (fun c request => c.send (.subscribe request)) c :=
  List.foldl_map

theorem listen_connector (sameExecutor : Bool) (st : Subscription) (op : StartOp) :
    (st.listen sameExecutor op).connector =
      (if sameExecutor then connectorOps.sends (st.commands sameExecutor op) else []).foldl
        ConnectorImpl.step st.connector := by
  unfold listen
  split
  · exact (foldl_sends _ _).symm
  · rfl

theorem step_connector (sameExecutor : Bool) (st : Subscription) (op : SubscriptionOp) :
    (st.step sameExecutor op).connector =
      (st.connectorOps sameExecutor op).foldl ConnectorImpl.step st.connector := by
  cases op with
  | connector op => rfl
  | enter => exact listen_connector sameExecutor st .enter
  | serve => exact listen_connector sameExecutor st .serve
  | runTask => exact listen_connector sameExecutor st .runTask
  | arrive =>
    simp only [step, connectorOps]
    cases st.crossing with
    | nil => rfl
    | cons request crossing => rfl

/-- The invariant is that of the connector. -/
structure Settled (st : Subscription) : Prop where
  kept : st.connector.Kept
  single : st.connector.Single Message.isSubscribe

theorem Settled.step (h : st.Settled) (hFresh : st.Fresh sameExecutor op) :
    (st.step sameExecutor op).Settled := by
  have hKept : (st.step sameExecutor op).connector.Kept ∧
      (st.step sameExecutor op).connector.Single Message.isSubscribe := by
    refine hFresh.invariant (I := fun c => c.Kept ∧ c.Single Message.isSubscribe)
      (fun c op c' hInvariant hOp hStep => ?_) ⟨h.kept, h.single⟩ ?_
    · obtain rfl := Option.some.inj hStep
      exact ⟨hInvariant.1.step, hInvariant.2.step hInvariant.1 hOp⟩
    · rw [run_always, step_connector]
  exact ⟨hKept.1, hKept.2⟩

theorem settled_start (symbol : MarketKey) (created : TimestampType) :
    (start symbol created).Settled :=
  ⟨ConnectorImpl.kept_start, ConnectorImpl.single_start⟩

/-- On either executor and in every interleaving, no connection writes a second subscribe command of
the listener, as long as no connection finds two of them in the queue, or gets one more. -/
theorem once_run (sameExecutor : Bool) (symbol : MarketKey) (created : TimestampType)
    (ops : List SubscriptionOp)
    (hFresh : Along (always (step sameExecutor)) (Fresh sameExecutor) (start symbol created) ops) :
    Safe (always (step sameExecutor)) (fun _ _ st => st.Once) (start symbol created) ops := by
  refine safe_of_along (I := Settled) (fun st op h hOp => ?_) (settled_start symbol created) hFresh
  have hStep := h.step hOp
  exact ⟨_, rfl, hStep.single.started, hStep⟩

/-- A connection that drops after the subscription, and another one. -/
def resubscription : List SubscriptionOp :=
  [.enter, .connector .connected, .runTask, .connector .startSend, .connector .writeDone,
    .connector .resumeSend, .connector (.receiveFailed 2), .connector .wake,
    .connector (.disconnected notConnected), .runTask, .runTask, .connector .retry,
    .connector .connected, .runTask, .connector .startSend, .connector .writeDone,
    .connector .resumeSend]

theorem resubscription_once : Safe (always (step true)) (fun _ _ st => st.Once)
    (start (.spot ⟨"btc", "usd"⟩) 0) resubscription :=
  once_run true (.spot ⟨"btc", "usd"⟩) 0 resubscription (by decide +kernel)

/-- A connection that drops while it writes its subscribe command, and another one. -/
def failedSubscription : List SubscriptionOp :=
  [.enter, .connector .connected, .runTask, .connector .startSend, .connector .writeFailed,
    .connector .resumeSend, .connector (.receiveFailed 2), .connector (.disconnected notConnected),
    .runTask, .runTask, .connector .retry, .connector .connected, .runTask, .connector .startSend,
    .connector .writeDone, .connector .resumeSend]

/-- The second connection writes the commands of both. -/
theorem failedSubscription_twice : ¬Safe (always (step true)) (fun _ _ st => st.Once)
    (start (.spot ⟨"btc", "usd"⟩) 0) failedSubscription := by
  decide +kernel

end Subscription

end Arby.PowerTrade
