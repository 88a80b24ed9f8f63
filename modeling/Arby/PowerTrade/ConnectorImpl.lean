import Arby.Kit.Run
import Arby.PowerTrade.ConnectionState

/-! The connector's send queue and the loops that a connection runs. The queue outlives connections;
`send_loop` takes a message off it only when its write has completed. -/

namespace Arby.PowerTrade

open Kit

/-- Where `send_loop` is. It is `parked` in the wait on `send_cv_`, which may be `woken` with the
resumption still to come; and it has `wrote` a message when the write has completed, or failed, and
the resumption is still to come. Without a connection it is `finished`. -/
inductive SendLoop
  | spawned
  | parked (woken : Bool)
  | writing
  | wrote (ok : Bool)
  | finished
deriving DecidableEq, Repr

/-- What a cancelled timer does to the loop: it reaches it only in a wait. -/
def SendLoop.notify : SendLoop → SendLoop
  | parked _ => parked true
  | sendLoop => sendLoop

/-- Where `run` is: in `interruptible_connect`, with both loops, in the reconnect delay, or ended. -/
inductive RunPhase
  | connecting
  | connected
  | delayed
  | ended
deriving DecidableEq, Repr

/-- `connector_impl`, as far as it sends, with messages of type `μ`. `cancelled` says that the
coroutine of `send_loop` has been cancelled, and `receiving` that `receive_loop` runs. `signalled` are
the calls of `connstate_signal_`, `sent` the arguments of `send`, `started` the messages that
`async_write` was given on the latest connection, and `completed` those whose write completed. -/
structure ConnectorImpl (μ : Type*) where
  connstate : ConnectionState := {}
  sendQueue : List μ := []
  stopped : Bool := false
  phase : RunPhase := .connecting
  sendLoop : SendLoop := .finished
  receiving : Bool := false
  cancelled : Bool := false
  signalled : List ConnectionState := []
  sent : List μ := []
  started : List μ := []
  completed : List μ := []

/-- A handler of the connector's executor. `cancelSend` cancels the coroutine of `send_loop`: for an
interrupt, a stop, or the end of `receive_loop`. What slots send from within a handler follows it. -/
inductive ConnectorOp (μ : Type*)
  | send (s : μ)
  | stop
  | connected
  | connectFailed (ec : ErrorCode)
  | startSend
  | wake
  | writeDone
  | writeFailed
  | resumeSend
  | receiveFailed (ec : ErrorCode)
  | cancelSend
  | disconnected (ec : ErrorCode)
  | retry

namespace ConnectorImpl

variable {μ : Type*}

def setConnectionState (c : ConnectorImpl μ) (ec : ErrorCode) : ConnectorImpl μ :=
  let connstate := c.connstate.set ec
  { c with connstate := connstate, signalled := c.signalled ++ [connstate] }

/-- `send_cv_.cancel()`. -/
def cancelTimer (c : ConnectorImpl μ) : ConnectorImpl μ := { c with sendLoop := c.sendLoop.notify }

def send (c : ConnectorImpl μ) (s : μ) : ConnectorImpl μ :=
  cancelTimer { c with sendQueue := c.sendQueue ++ [s], sent := c.sent ++ [s] }

/-- `send_loop` from the top of its loop to the next suspension. In a cancelled coroutine the next
`co_await` throws. -/
def sendTop (c : ConnectorImpl μ) : ConnectorImpl μ :=
  if c.connstate.up && c.sendQueue.isEmpty then
    { c with sendLoop := if c.cancelled then .finished else .parked false }
  else if c.connstate.down then { c with sendLoop := .finished }
  else if c.cancelled then { c with sendLoop := .finished }
  else { c with sendLoop := .writing, started := c.started ++ c.sendQueue.head?.toList }

/-- The end of `run_connection`, and the test of `stopped_` after it. -/
def leave (c : ConnectorImpl μ) (ec : ErrorCode) : ConnectorImpl μ :=
  { c.setConnectionState ec with phase := if c.stopped then .ended else .delayed }

/-- A step that cannot be taken leaves the state. -/
def step (c : ConnectorImpl μ) : ConnectorOp μ → ConnectorImpl μ
  | .send s => c.send s
  | .stop => { c with stopped := true }
  | .connected =>
    if c.phase = .connecting then
      { (c.setConnectionState 0).cancelTimer with
        phase := .connected
        sendLoop := .spawned
        receiving := true
        cancelled := false
        started := [] }
    else c
  | .connectFailed ec => if c.phase = .connecting ∧ ec ≠ 0 then c.leave ec else c
  | .startSend => if c.sendLoop = .spawned then c.sendTop else c
  | .wake => if c.sendLoop = .parked true then c.sendTop else c
  | .writeDone =>
    match c.sendLoop, c.sendQueue with
    | .writing, s :: _ => { c with sendLoop := .wrote true, completed := c.completed ++ [s] }
    | _, _ => c
  | .writeFailed => if c.sendLoop = .writing then { c with sendLoop := .wrote false } else c
  | .resumeSend =>
    match c.sendLoop with
    | .wrote true => { c with sendQueue := c.sendQueue.tail }.sendTop
    | .wrote false => { c with sendLoop := .finished }
    | _ => c
  | .receiveFailed ec =>
    if c.receiving ∧ ec ≠ 0 then
      let c := if c.connstate.up then c.setConnectionState ec else c
      { c.cancelTimer with receiving := false }
    else c
  | .cancelSend =>
    if c.phase = .connected then { c with cancelled := true }.cancelTimer else c
  | .disconnected ec =>
    if c.phase = .connected ∧ c.sendLoop = .finished ∧ !c.receiving ∧ ec ≠ 0 then c.leave ec else c
  | .retry => if c.phase = .delayed ∧ !c.stopped then { c with phase := .connecting } else c

/-- The queue without a message whose write has completed. -/
def unsent (c : ConnectorImpl μ) : List μ :=
  match c.sendLoop with
  | .wrote true => c.sendQueue.tail
  | _ => c.sendQueue

/-- The messages written are the first ones sent, and the others are still queued; and in a wait
without a wake-up on its way there is nothing to send, over a connection that is up. -/
structure Delivers (c : ConnectorImpl μ) : Prop where
  written : c.completed <+: c.sent
  kept : c.completed ++ c.unsent = c.sent
  parked : c.sendLoop = .parked false → c.sendQueue = [] ∧ c.connstate.up = true

/-- The invariant. -/
structure Kept (c : ConnectorImpl μ) : Prop where
  kept : c.completed ++ c.unsent = c.sent
  front : c.sendLoop = .writing ∨ c.sendLoop = .wrote true → c.sendQueue ≠ []
  parked : c.sendLoop = .parked false → c.sendQueue = [] ∧ c.connstate.up = true
  idle : c.phase ≠ .connected → c.sendLoop = .finished

variable {c c' : ConnectorImpl μ} {op : ConnectorOp μ} {s : μ}

theorem Kept.delivers (h : c.Kept) : c.Delivers where
  written := h.kept ▸ List.prefix_append ..
  kept := h.kept
  parked := h.parked

theorem unsent_of_ne (h : c.sendLoop ≠ .wrote true) : c.unsent = c.sendQueue := by
  unfold unsent
  split
  · rename_i hWrote
    exact absurd hWrote h
  · rfl

@[simp] theorem notify_eq_writing (sendLoop : SendLoop) :
    sendLoop.notify = .writing ↔ sendLoop = .writing := by
  cases sendLoop <;> simp [SendLoop.notify]

@[simp] theorem notify_eq_wrote (sendLoop : SendLoop) (ok : Bool) :
    sendLoop.notify = .wrote ok ↔ sendLoop = .wrote ok := by
  cases sendLoop <;> simp [SendLoop.notify]

@[simp] theorem notify_eq_finished (sendLoop : SendLoop) :
    sendLoop.notify = .finished ↔ sendLoop = .finished := by
  cases sendLoop <;> simp [SendLoop.notify]

theorem notify_ne_parked (sendLoop : SendLoop) : sendLoop.notify ≠ .parked false := by
  cases sendLoop <;> nofun

/-- Nothing but the wait sees a cancelled timer. -/
theorem Kept.cancelTimer (h : c.Kept) : c.cancelTimer.Kept where
  kept := by
    have hUnsent : c.cancelTimer.unsent = c.unsent := by
      unfold unsent ConnectorImpl.cancelTimer
      cases c.sendLoop <;> rfl
    rw [hUnsent]
    exact h.kept
  front hLoop := h.front (by simpa [ConnectorImpl.cancelTimer] using hLoop)
  parked hLoop := absurd hLoop (notify_ne_parked _)
  idle hPhase := (notify_eq_finished _).mpr (h.idle hPhase)

theorem Kept.unsent_send (h : c.Kept) (s : μ) : (c.send s).unsent = c.unsent ++ [s] := by
  cases hLoop : c.sendLoop with
  | wrote ok =>
    cases ok with
    | false => simp [unsent, ConnectorImpl.send, ConnectorImpl.cancelTimer, hLoop, SendLoop.notify]
    | true =>
      have hFront := h.front (.inr hLoop)
      simp [unsent, ConnectorImpl.send, ConnectorImpl.cancelTimer, hLoop, SendLoop.notify,
        List.tail_append_of_ne_nil hFront]
  | _ => simp [unsent, ConnectorImpl.send, ConnectorImpl.cancelTimer, hLoop, SendLoop.notify]

/-- A message joins the queue, and the wait ends. -/
theorem Kept.send (h : c.Kept) (s : μ) : (c.send s).Kept where
  kept := by
    rw [h.unsent_send, ← List.append_assoc]
    exact congrArg (· ++ [s]) h.kept
  front _ := List.append_ne_nil_of_right_ne_nil _ nofun
  parked hLoop := absurd hLoop (notify_ne_parked _)
  idle hPhase := (notify_eq_finished _).mpr (h.idle hPhase)

/-- The top of the loop, with the whole queue still to be sent. -/
theorem Kept.sendTop (hKept : c.completed ++ c.sendQueue = c.sent) (hPhase : c.phase = .connected) :
    c.sendTop.Kept := by
  unfold ConnectorImpl.sendTop
  split
  · rename_i hIdle
    rw [Bool.and_eq_true, List.isEmpty_iff] at hIdle
    cases c.cancelled with
    | false => exact ⟨hKept, nofun, fun _ => ⟨hIdle.2, hIdle.1⟩, fun hNot => absurd hPhase hNot⟩
    | true => exact ⟨hKept, nofun, nofun, fun _ => rfl⟩
  · rename_i hBusy
    split
    · exact ⟨hKept, nofun, nofun, fun _ => rfl⟩
    · rename_i hUp
      split
      · exact ⟨hKept, nofun, nofun, fun _ => rfl⟩
      · refine ⟨hKept, fun _ hEmpty => hBusy ?_, nofun, fun hNot => absurd hPhase hNot⟩
        rw [ConnectionState.down_eq_not_up] at hUp
        have hQueue : c.sendQueue = [] := hEmpty
        simpa [hQueue] using hUp

/-- Both loops have ended, or have not started. -/
theorem Kept.finished (hKept : c.completed ++ c.sendQueue = c.sent)
    (hLoop : c.sendLoop = .finished) : c.Kept where
  kept := by rwa [unsent_of_ne (by rw [hLoop]; nofun)]
  front hBusy := by
    rcases hBusy with hEq | hEq <;> cases hLoop.symm.trans hEq
  parked hEq := nomatch hLoop.symm.trans hEq
  idle _ := hLoop

theorem Kept.queued (h : c.Kept) (hLoop : c.sendLoop ≠ .wrote true) :
    c.completed ++ c.sendQueue = c.sent := unsent_of_ne hLoop ▸ h.kept

theorem Kept.connected (h : c.Kept) (hLoop : c.sendLoop ≠ .finished) : c.phase = .connected :=
  not_not.mp (mt h.idle hLoop)

theorem Kept.leave (h : c.Kept) (hLoop : c.sendLoop = .finished) (ec : ErrorCode) :
    (c.leave ec).Kept :=
  .finished (c := c.leave ec) (h.queued (by rw [hLoop]; nofun)) hLoop

theorem Kept.writeDone (h : c.Kept) {rest : List μ} (hLoop : c.sendLoop = .writing)
    (hQueue : c.sendQueue = s :: rest) :
    Kept { c with sendLoop := .wrote true, completed := c.completed ++ [s] } where
  kept := by
    have hKept := h.queued (by rw [hLoop]; nofun)
    show c.completed ++ [s] ++ c.sendQueue.tail = c.sent
    rw [hQueue] at hKept ⊢
    rw [List.append_assoc]
    exact hKept
  front _ := by
    show c.sendQueue ≠ []
    rw [hQueue]
    nofun
  parked := nofun
  idle hPhase := nomatch hLoop.symm.trans (h.idle hPhase)

/-- The step lemma. -/
theorem Kept.step (h : c.Kept) : (c.step op).Kept := by
  cases op with
  | send s => exact h.send s
  | stop => exact ⟨h.kept, h.front, h.parked, h.idle⟩
  | connected =>
    simp only [ConnectorImpl.step]
    split
    · rename_i hPhase
      have hLoop := h.idle (by rw [hPhase]; nofun)
      have hKept := h.queued (by rw [hLoop]; nofun)
      exact ⟨hKept, nofun, nofun, fun hNot => absurd rfl hNot⟩
    · exact h
  | connectFailed ec =>
    simp only [ConnectorImpl.step]
    split
    · rename_i hPhase
      exact h.leave (h.idle (by rw [hPhase.1]; nofun)) ec
    · exact h
  | startSend =>
    simp only [ConnectorImpl.step]
    split
    · rename_i hLoop
      exact .sendTop (h.queued (by rw [hLoop]; nofun)) (h.connected (by rw [hLoop]; nofun))
    · exact h
  | wake =>
    simp only [ConnectorImpl.step]
    split
    · rename_i hLoop
      exact .sendTop (h.queued (by rw [hLoop]; nofun)) (h.connected (by rw [hLoop]; nofun))
    · exact h
  | writeDone =>
    simp only [ConnectorImpl.step]
    split
    · rename_i hLoop hQueue
      exact h.writeDone hLoop hQueue
    · exact h
  | writeFailed =>
    simp only [ConnectorImpl.step]
    split
    · rename_i hLoop
      exact ⟨h.queued (by rw [hLoop]; nofun), nofun, nofun,
        fun hPhase => nomatch hLoop.symm.trans (h.idle hPhase)⟩
    · exact h
  | resumeSend =>
    simp only [ConnectorImpl.step]
    split
    · rename_i hLoop
      have hKept := h.kept
      rw [unsent, hLoop] at hKept
      exact .sendTop (c := { c with sendQueue := c.sendQueue.tail }) hKept
        (h.connected (by rw [hLoop]; nofun))
    · rename_i hLoop
      exact .finished (c := { c with sendLoop := .finished }) (h.queued (by rw [hLoop]; nofun)) rfl
    · exact h
  | receiveFailed ec =>
    simp only [ConnectorImpl.step]
    split
    · have hCancelled := h.cancelTimer
      split
      · exact ⟨hCancelled.kept, hCancelled.front, fun hLoop => absurd hLoop (notify_ne_parked _),
          hCancelled.idle⟩
      · exact ⟨hCancelled.kept, hCancelled.front, hCancelled.parked, hCancelled.idle⟩
    · exact h
  | cancelSend =>
    simp only [ConnectorImpl.step]
    split
    · have hCancelled := h.cancelTimer
      exact ⟨hCancelled.kept, hCancelled.front, hCancelled.parked, hCancelled.idle⟩
    · exact h
  | disconnected ec =>
    simp only [ConnectorImpl.step]
    split
    · rename_i hEnded
      exact h.leave hEnded.2.1 ec
    · exact h
  | retry =>
    simp only [ConnectorImpl.step]
    split
    · rename_i hPhase
      exact .finished (c := { c with phase := .connecting })
        (h.queued (by rw [h.idle (by rw [hPhase.1]; nofun)]; nofun))
        (h.idle (by rw [hPhase.1]; nofun))
    · exact h

theorem kept_start : Kept ({} : ConnectorImpl μ) :=
  .finished rfl rfl

/-- In every run of the connector, the messages written are the first ones sent, whatever the
connections do, and `send_loop` sleeps only when there is nothing to send. -/
theorem delivers_run (ops : List (ConnectorOp μ)) :
    Safe (always step) (fun _ _ c => c.Delivers) ({} : ConnectorImpl μ) ops :=
  safe_of_invariant (I := Kept) (fun _ _ h => ⟨_, rfl, h.step.delivers, h.step⟩) kept_start ops

end ConnectorImpl

end Arby.PowerTrade
