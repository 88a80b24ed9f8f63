import Arby.Kit.Run
import Arby.PowerTrade.ListenerCondition

/-! The start of a listener: the coroutine `run` reads the state of the connection and registers
for its changes, while the connector goes up and down on an executor that may be another. -/

namespace Arby.PowerTrade

open Trading Kit

/-- What `run` asks of the connector. Each request runs on the connector's executor. -/
inductive WatchRequest
  | connectionState
  | messages (type : String)
deriving DecidableEq, Repr

/-- The requests of `run`, in order. -/
def watchRequests : List WatchRequest :=
  [.connectionState, .messages "command_response", .messages "snapshot", .messages "order_added",
    .messages "order_deleted", .messages "order_executed"]

/-- Where `run` is: before its first step, suspended in a request, suspended with the resumption
posted, or at its end. `rest` are the requests to come. -/
inductive StartPhase
  | created
  | requested (r : WatchRequest) (rest : List WatchRequest)
  | answered (rest : List WatchRequest)
  | finished
deriving DecidableEq, Repr

def StartPhase.isRegistered : StartPhase → Bool
  | created | requested .connectionState _ => false
  | _ => true

/-- A task in the queue of the listener's executor: a posted change of state, or the resumption of
`run`. -/
inductive ListenerTask
  | notify (cstate : ConnectionState)
  | resume
deriving DecidableEq, Repr

def ListenerTask.notification : ListenerTask → Option ConnectionState
  | notify cstate => some cstate
  | resume => none

def notifications (queue : List ListenerTask) : List ConnectionState :=
  queue.filterMap ListenerTask.notification

theorem notifications_concat_notify (queue : List ListenerTask) (cstate : ConnectionState) :
    notifications (queue ++ [.notify cstate]) = notifications queue ++ [cstate] :=
  List.filterMap_append

theorem notifications_concat_resume (queue : List ListenerTask) :
    notifications (queue ++ [.resume]) = notifications queue :=
  List.filterMap_append.trans (List.append_nil _)

/-- The connector's `connstate_` and slots, and the listener with its executor's queue. `captured`
is the local `connstate` of `run`. -/
structure ListenerStart where
  connstate : ConnectionState := {}
  registered : Bool := false
  watched : List String := []
  phase : StartPhase := .created
  captured : ConnectionState := {}
  queue : List ListenerTask := []
  listener : OrderbookListenerImpl
  sent : List Json := []

/-- A step of the connector, of `run`, or of the listener's executor. -/
inductive StartOp
  | setConnectionState (ec : ErrorCode)
  | enter
  | serve
  | runTask
deriving DecidableEq, Repr

namespace ListenerStart

/-- `connector_impl::watch_connection_state` and `watch_messages`. -/
def watch (st : ListenerStart) : WatchRequest → ListenerStart
  | .connectionState => { st with captured := st.connstate, registered := true }
  | .messages type => { st with watched := st.watched ++ [type] }

def onConnectionState (st : ListenerStart) (cstate : ConnectionState) : ListenerStart :=
  let (listener, commands) := st.listener.onConnectionState cstate
  { st with listener, sent := st.sent ++ commands }

/-- The end of `run`. -/
def finish (st : ListenerStart) : ListenerStart :=
  { st.onConnectionState st.captured with phase := .finished }

/-- `run` after an answer: it suspends in the next request, or ends. -/
def proceed (st : ListenerStart) : List WatchRequest → ListenerStart
  | [] => st.finish
  | r :: rest => { st with phase := .requested r rest }

/-- On the connector's own executor the requests do not suspend `run`. A step that cannot be taken
leaves the state. -/
def step (sameExecutor : Bool) (st : ListenerStart) : StartOp → ListenerStart
  | .setConnectionState ec =>
    let connstate := st.connstate.set ec
    let queue := if st.registered then st.queue ++ [.notify connstate] else st.queue
    { st with connstate, queue }
  | .enter =>
    match st.phase with
    | .created =>
      if sameExecutor then (watchRequests.foldl watch st).finish else st.proceed watchRequests
    | _ => st
  | .serve =>
    match st.phase with
    | .requested r rest =>
      { st.watch r with phase := .answered rest, queue := st.queue ++ [.resume] }
    | _ => st
  | .runTask =>
    match st.queue with
    | [] => st
    | .notify cstate :: queue => { st with queue }.onConnectionState cstate
    | .resume :: queue =>
      match st.phase with
      | .answered rest => { st with queue }.proceed rest
      | _ => { st with queue }

def start (symbol : MarketKey) (created : TimestampType) : ListenerStart :=
  { listener := .construct symbol created }

/-- Once `run` has finished and no change is pending, the listener has the state of the connector,
and shows it. -/
def Agrees (st : ListenerStart) : Prop :=
  st.phase = .finished → notifications st.queue = [] →
    st.listener.connstate.up = st.connstate.up ∧
      (st.listener.connectionCondition.state = .good ↔ st.connstate.up = true)

instance (st : ListenerStart) : Decidable st.Agrees := by
  dsimp only [Agrees]
  infer_instance

/-- When `run` resumes for the last time, the state that it captured is that of the connector, or a
change is still pending. -/
def Timely (st : ListenerStart) : StartOp → Prop
  | .runTask =>
    st.queue.head? = some .resume → st.phase = .answered [] →
      st.captured.up = st.connstate.up ∨ notifications st.queue ≠ []
  | _ => True

instance (st : ListenerStart) (op : StartOp) : Decidable (st.Timely op) :=
  match op with
  | .setConnectionState _ | .enter | .serve | .runTask => by
    dsimp only [Timely]
    infer_instance

variable {sameExecutor : Bool} {st : ListenerStart} {op : StartOp} {cstate : ConnectionState}

theorem onConnectionState_listener (st : ListenerStart) (cstate : ConnectionState) :
    (st.onConnectionState cstate).listener.connstate = cstate ∧
      ((st.onConnectionState cstate).listener.connectionCondition.state = .good ↔
        cstate.up = true) := by
  show (st.listener.onConnectionState cstate).1.connstate = cstate ∧
    ((st.listener.onConnectionState cstate).1.connectionCondition.state = .good ↔ _)
  rw [OrderbookListenerImpl.onConnectionState_fst, OrderbookListenerImpl.update_eq]
  exact ⟨rfl, OrderbookListenerImpl.conditionOf_good⟩

/-- The invariant of runs that agree: the last change that is pending is the connector's state. -/
structure InSync (st : ListenerStart) : Prop where
  pending : ∀ cstate ∈ (notifications st.queue).getLast?, cstate = st.connstate
  unregistered : st.registered = false → notifications st.queue = []
  registered : st.phase.isRegistered = true → st.registered = true
  agrees : st.Agrees

theorem inSync_start (symbol : MarketKey) (created : TimestampType) :
    (start symbol created).InSync where
  pending := nofun
  unregistered _ := rfl
  registered := nofun
  agrees := nofun

theorem InSync.setConnectionState (h : st.InSync) (ec : ErrorCode) :
    (st.step sameExecutor (.setConnectionState ec)).InSync := by
  cases hRegistered : st.registered with
  | false =>
    have hNone := h.unregistered hRegistered
    have hStep : st.step sameExecutor (.setConnectionState ec) =
        { st with connstate := st.connstate.set ec } := by
      simp [step, hRegistered]
    rw [hStep]
    refine ⟨fun cstate hLast => ?_, h.unregistered, h.registered, fun hFinished => ?_⟩
    · rw [hNone] at hLast
      cases hLast
    · have hPhase : st.phase = .finished := hFinished
      have := h.registered (by rw [hPhase]; rfl)
      rw [hRegistered] at this
      cases this
  | true =>
    have hStep : st.step sameExecutor (.setConnectionState ec) = { st with
        connstate := st.connstate.set ec
        queue := st.queue ++ [.notify (st.connstate.set ec)] } := by
      simp [step, hRegistered]
    rw [hStep]
    refine ⟨fun cstate hLast => ?_, fun hNot => ?_, fun _ => hRegistered, fun _ hNone => ?_⟩
    · rw [notifications_concat_notify, List.getLast?_concat] at hLast
      exact (Option.some.inj hLast).symm
    · cases hRegistered.symm.trans hNot
    · rw [notifications_concat_notify] at hNone
      simp at hNone

theorem agrees_finish (st : ListenerStart) :
    (st.captured.up = st.connstate.up ∨ notifications st.queue ≠ []) ↔ st.finish.Agrees := by
  obtain ⟨hState, hShown⟩ := onConnectionState_listener st st.captured
  have hAgrees : st.finish.Agrees ↔ (notifications st.queue = [] → st.captured.up = st.connstate.up ∧
      (st.captured.up = true ↔ st.connstate.up = true)) := by
    unfold Agrees finish
    rw [hState, hShown]
    exact ⟨fun h => h rfl, fun h _ => h⟩
  rw [hAgrees]
  constructor
  · rintro (hUp | hPending) hNone
    · exact ⟨hUp, by rw [hUp]⟩
    · exact absurd hNone hPending
  · intro h
    by_cases hNone : notifications st.queue = []
    · exact .inl (h hNone).1
    · exact .inr hNone

theorem InSync.finish (h : st.InSync) (hRegistered : st.registered = true)
    (hAgrees : st.finish.Agrees) : st.finish.InSync :=
  ⟨h.pending, h.unregistered, fun _ => hRegistered, hAgrees⟩

theorem InSync.enter (h : st.InSync) : (st.step sameExecutor .enter).InSync := by
  simp only [step]
  split
  · split
    · -- Everything happens in one handler: the captured state is the current one.
      have hWatched : (watchRequests.foldl watch st) = { st with
          captured := st.connstate
          registered := true
          watched := (watchRequests.foldl watch st).watched } := rfl
      have hAgrees := (agrees_finish (watchRequests.foldl watch st)).mp (.inl (by rw [hWatched]))
      exact ⟨h.pending, nofun, fun _ => rfl, hAgrees⟩
    · exact ⟨h.pending, h.unregistered, nofun, nofun⟩
  · exact h

theorem InSync.serve (h : st.InSync) : (st.step sameExecutor .serve).InSync := by
  simp only [step]
  split
  · rename_i r rest hPhase
    have hQueue := notifications_concat_resume st.queue
    cases r with
    | connectionState =>
      refine ⟨fun cstate hLast => h.pending cstate ?_, nofun, fun _ => rfl, nofun⟩
      rwa [hQueue] at hLast
    | messages type =>
      refine ⟨fun cstate hLast => h.pending cstate ?_, fun hNot => ?_,
        fun _ => h.registered (by rw [hPhase]; rfl), nofun⟩
      · rwa [hQueue] at hLast
      · exact hQueue.trans (h.unregistered hNot)
  · exact h

theorem InSync.notify {queue : List ListenerTask} (h : st.InSync)
    (hQueue : st.queue = .notify cstate :: queue) :
    (onConnectionState { st with queue } cstate).InSync := by
  have hNotified : notifications st.queue = cstate :: notifications queue := by
    rw [hQueue]
    rfl
  obtain ⟨hState, hShown⟩ := onConnectionState_listener { st with queue } cstate
  refine ⟨fun c hLast => h.pending c ?_, fun hNot => ?_, h.registered, fun _ hNone => ?_⟩
  · have hRest : c ∈ (notifications queue).getLast? := hLast
    rw [hNotified, List.getLast?_cons, Option.mem_def.mp hRest]
    rfl
  · have := h.unregistered hNot
    rw [hNotified] at this
    cases this
  · have hLast : cstate = st.connstate := by
      apply h.pending
      rw [hNotified, show notifications queue = [] from hNone]
      rfl
    rw [hState, hShown, hLast]
    exact ⟨rfl, Iff.rfl⟩

theorem InSync.resume {queue : List ListenerTask} {rest : List WatchRequest} (h : st.InSync)
    (hQueue : st.queue = .resume :: queue) (hPhase : st.phase = .answered rest) :
    (st.Timely .runTask ↔ (proceed { st with queue } rest).Agrees) ∧
      ((proceed { st with queue } rest).Agrees → (proceed { st with queue } rest).InSync) := by
  have hNotified : notifications st.queue = notifications queue := by
    rw [hQueue]
    rfl
  have hQueued : InSync { st with queue } :=
    ⟨hNotified ▸ h.pending, hNotified ▸ h.unregistered, h.registered,
      fun hFinished => nomatch hPhase.symm.trans hFinished⟩
  have hRegistered : st.registered = true := h.registered (by rw [hPhase]; rfl)
  cases rest with
  | nil =>
    constructor
    · rw [proceed, ← agrees_finish, Timely, hNotified, hQueue, hPhase]
      exact ⟨fun hTimely => hTimely rfl rfl, fun hUp _ _ => hUp⟩
    · exact hQueued.finish hRegistered
  | cons r rest =>
    refine ⟨iff_of_true (fun _ hLast => ?_) nofun, fun _ => ?_⟩
    · cases hPhase.symm.trans hLast
    · exact ⟨hQueued.pending, hQueued.unregistered, fun _ => hRegistered, nofun⟩

theorem timely_of_ne (hHead : st.queue.head? ≠ some .resume) : st.Timely .runTask :=
  fun hResume => absurd hResume hHead

theorem InSync.runTask (h : st.InSync) :
    (st.Timely .runTask ↔ (st.step sameExecutor .runTask).Agrees) ∧
      ((st.step sameExecutor .runTask).Agrees → (st.step sameExecutor .runTask).InSync) := by
  simp only [step]
  split
  · rename_i hQueue
    exact ⟨iff_of_true (timely_of_ne (by rw [hQueue]; nofun)) h.agrees, fun _ => h⟩
  · rename_i cstate queue hQueue
    have hSync := h.notify hQueue
    exact ⟨iff_of_true (timely_of_ne (by rw [hQueue]; nofun)) hSync.agrees, fun _ => hSync⟩
  · rename_i queue hQueue
    split
    · rename_i rest hPhase
      exact h.resume hQueue hPhase
    · -- No resumption is queued in the other phases, and one that were would do nothing.
      rename_i hPhase
      have hNotified : notifications st.queue = notifications queue := by
        rw [hQueue]
        rfl
      have hSync : InSync { st with queue } :=
        ⟨hNotified ▸ h.pending, hNotified ▸ h.unregistered, h.registered,
          fun hFinished hNone => h.agrees hFinished (hNotified.trans hNone)⟩
      exact ⟨iff_of_true (fun _ hLast => absurd hLast (hPhase [])) hSync.agrees, fun _ => hSync⟩

/-- From the invariant, a step is timely exactly when the listener agrees after it, and then the
invariant goes on. -/
theorem InSync.step_iff (h : st.InSync) :
    (st.Timely op ↔ (st.step sameExecutor op).Agrees) ∧
      ((st.step sameExecutor op).Agrees → (st.step sameExecutor op).InSync) := by
  have hKept : (st.step sameExecutor op).InSync → (True ↔ (st.step sameExecutor op).Agrees) ∧
      ((st.step sameExecutor op).Agrees → (st.step sameExecutor op).InSync) :=
    fun hSync => ⟨iff_of_true trivial hSync.agrees, fun _ => hSync⟩
  cases op with
  | setConnectionState ec => exact hKept (h.setConnectionState ec)
  | enter => exact hKept h.enter
  | serve => exact hKept h.serve
  | runTask => exact h.runTask

/-- On either executor and in every interleaving, the listener agrees with the connector after every
step exactly when `run` never ends with a state that the connector has left, unless a change is
still to come. -/
theorem agrees_run_iff (sameExecutor : Bool) (symbol : MarketKey) (created : TimestampType)
    (ops : List StartOp) :
    Safe (always (step sameExecutor)) (fun _ _ st => st.Agrees) (start symbol created) ops ↔
      Along (always (step sameExecutor)) Timely (start symbol created) ops := by
  refine safe_iff_of_run (I := InSync) (fun st op st' h hStep => ?_)
    (fun st op st' h hAgrees hStep => ?_) (inSync_start symbol created) (run_always _ _ ops)
  · obtain rfl := Option.some.inj hStep
    exact h.step_iff.1
  · obtain rfl := Option.some.inj hStep
    exact h.step_iff.2 hAgrees

/-- The connection drops while `run` of a listener on another executor waits for the connector. -/
def droppedStart : List StartOp :=
  [.setConnectionState 0, .enter, .serve, .setConnectionState notConnected, .runTask, .serve,
    .runTask, .runTask, .serve, .runTask, .serve, .runTask, .serve, .runTask, .serve, .runTask]

/-- The listener ends up with the state that it captured, and the connector is down. -/
theorem droppedStart_disagrees :
    ¬Safe (always (step false)) (fun _ _ st => st.Agrees) (start (.spot ⟨"btc", "usd"⟩) 0)
      droppedStart := by
  decide +kernel

def Unsuspended (st : ListenerStart) : Prop := st.phase = .created ∨ st.phase = .finished

theorem Unsuspended.timely (h : st.Unsuspended) : st.Timely op := by
  cases op with
  | runTask =>
    intro _ hLast
    rcases h with h | h <;> cases h.symm.trans hLast
  | setConnectionState | enter | serve => trivial

theorem Unsuspended.step (h : st.Unsuspended) : (st.step true op).Unsuspended := by
  cases op with
  | setConnectionState ec => exact h
  | enter =>
    simp only [ListenerStart.step]
    split
    · exact .inr rfl
    · exact h
  | serve =>
    simp only [ListenerStart.step]
    split
    · rename_i hPhase
      rcases h with h | h <;> cases h.symm.trans hPhase
    · exact h
  | runTask =>
    simp only [ListenerStart.step]
    split
    · exact h
    · exact h
    · split
      · rename_i hPhase
        rcases h with h | h <;> cases h.symm.trans hPhase
      · exact h

/-- On the connector's own executor `run` is never suspended, and the listener always agrees. -/
theorem agrees_sameExecutor (symbol : MarketKey) (created : TimestampType) (ops : List StartOp) :
    Safe (always (step true)) (fun _ _ st => st.Agrees) (start symbol created) ops := by
  refine safe_of_invariant (I := fun st => st.InSync ∧ st.Unsuspended)
    (fun st op ⟨hSync, hRun⟩ => ?_) ⟨inSync_start symbol created, .inl rfl⟩ ops
  have hTimely : st.Timely op := hRun.timely
  have hAgrees : (st.step true op).Agrees := hSync.step_iff.1.mp hTimely
  exact ⟨_, rfl, hAgrees, hSync.step_iff.2 hAgrees, hRun.step⟩

end ListenerStart

end Arby.PowerTrade
