import Arby.PowerTrade.ConnectorImpl
import Mathlib.Data.List.Chain

/-! The life of a connector, as its watchers see it and as it may go on. Connections come one at a time,
and none of its states is a dead end: until it is stopped, there is a way for it to send all that it
was given. -/

namespace Arby.PowerTrade.ConnectorImpl

open Kit

variable {μ : Type*} {c c' : ConnectorImpl μ} {op : ConnectorOp μ}

/-! ### What is signalled -/

/-- What a step signals and starts. -/
structure Notifies (c c' : ConnectorImpl μ) : Prop where
  last : c'.connstate = c'.signalled.getLastD {}
  /-- Between two notifications that the connection is up there is one that it is down. -/
  alternates : c'.signalled.IsChain fun s s' => s.up = true → s'.up = false
  connected : c'.connstate.up = true → c'.phase = .connected ∧ c'.receiving = true
  writes : c.started.length < c'.started.length → c.connstate.up = true
  stops : c.stopped = true → c.phase ≠ .connecting → c'.phase ≠ .connecting
  ended : c.phase = .ended → c'.phase = .ended ∧ c'.signalled = c.signalled

/-- The invariant. -/
structure Cycle (c : ConnectorImpl μ) : Prop where
  last : c.connstate = c.signalled.getLastD {}
  alternates : c.signalled.IsChain fun s s' => s.up = true → s'.up = false
  receiving : c.connstate.up = true → c.receiving = true
  connected : c.receiving = true → c.phase = .connected
  ended : c.phase = .ended → c.stopped = true

/-- What the invariant is about. -/
def control (c : ConnectorImpl μ) :
    ConnectionState × List ConnectionState × Bool × RunPhase × Bool :=
  (c.connstate, c.signalled, c.receiving, c.phase, c.stopped)

theorem Cycle.of_control (h : c.Cycle) (hSame : c'.control = c.control) : c'.Cycle := by
  simp only [control, Prod.mk.injEq] at hSame
  obtain ⟨hState, hSignalled, hReceiving, hPhase, hStopped⟩ := hSame
  constructor
  · rw [hState, hSignalled]
    exact h.last
  · rw [hSignalled]
    exact h.alternates
  · rw [hState, hReceiving]
    exact h.receiving
  · rw [hReceiving, hPhase]
    exact h.connected
  · rw [hPhase, hStopped]
    exact h.ended

@[simp] theorem control_sendTop (c : ConnectorImpl μ) : c.sendTop.control = c.control := by
  unfold sendTop
  split
  · rfl
  · split
    · rfl
    · split <;> rfl

/-- One more notification. -/
theorem Cycle.signal (h : c.Cycle) {ec : ErrorCode} (hUp : c.connstate.up = true → ec ≠ 0) :
    (c.setConnectionState ec).connstate = (c.setConnectionState ec).signalled.getLastD {} ∧
      (c.setConnectionState ec).signalled.IsChain fun s s' => s.up = true → s'.up = false := by
  refine ⟨(List.getLastD_concat ..).symm, h.alternates.append (List.isChain_singleton _) ?_⟩
  intro s hs s' hs' hUp'
  obtain rfl := Option.some.inj hs'
  have hLast : c.connstate = s := by
    rw [h.last, List.getLastD_eq_getLast?, Option.mem_def.mp hs, Option.getD_some]
  have := hUp (hLast ▸ hUp')
  simp [ConnectionState.set, ConnectionState.up, this]

theorem Cycle.leave (h : c.Cycle) {ec : ErrorCode} (hError : ec ≠ 0) (hReceiving : c.receiving = false) :
    (c.leave ec).Cycle := by
  obtain ⟨hLast, hAlternates⟩ := h.signal fun _ => hError
  refine ⟨hLast, hAlternates, fun hUp => ?_, fun hAgain => ?_, fun hEnded => ?_⟩
  · simp [ConnectorImpl.leave, setConnectionState, ConnectionState.set, ConnectionState.up, hError]
      at hUp
  · cases hReceiving.symm.trans hAgain
  · by_contra hRunning
    have hStopped : ¬c.stopped = true := hRunning
    have hPhase : (c.leave ec).phase = if c.stopped then .ended else .delayed := rfl
    rw [hPhase, if_neg hStopped] at hEnded
    cases hEnded

theorem Cycle.down (h : c.Cycle) (hReceiving : c.receiving = false) : c.connstate.up = false :=
  Bool.eq_false_iff.mpr fun hUp => by cases hReceiving.symm.trans (h.receiving hUp)

theorem Cycle.idle (h : c.Cycle) (hPhase : c.phase ≠ .connected) : c.receiving = false :=
  Bool.eq_false_iff.mpr fun hReceiving => hPhase (h.connected hReceiving)

theorem Cycle.step (h : c.Cycle) (op : ConnectorOp μ) : (c.step op).Cycle := by
  cases op with
  | send s => exact h.of_control rfl
  | stop => exact ⟨h.last, h.alternates, h.receiving, h.connected, fun _ => rfl⟩
  | connected =>
    simp only [ConnectorImpl.step]
    split
    · rename_i hPhase
      have hDown := h.down (h.idle (by simp [hPhase]))
      have hUp : c.connstate.up = true → (0 : ErrorCode) ≠ 0 := fun hUp => by
        cases hDown.symm.trans hUp
      obtain ⟨hLast, hAlternates⟩ := h.signal hUp
      exact ⟨hLast, hAlternates, fun _ => rfl, fun _ => rfl, fun hEnded => by cases hEnded⟩
    · exact h
  | connectFailed ec =>
    simp only [ConnectorImpl.step]
    split
    · rename_i hFailed
      exact h.leave hFailed.2 (h.idle (by simp [hFailed.1]))
    · exact h
  | startSend =>
    simp only [ConnectorImpl.step]
    split
    · exact h.of_control (control_sendTop c)
    · exact h
  | wake =>
    simp only [ConnectorImpl.step]
    split
    · exact h.of_control (control_sendTop c)
    · exact h
  | writeDone =>
    simp only [ConnectorImpl.step]
    split
    · exact h.of_control rfl
    · exact h
  | writeFailed =>
    simp only [ConnectorImpl.step]
    split
    · exact h.of_control rfl
    · exact h
  | resumeSend =>
    simp only [ConnectorImpl.step]
    split
    · exact h.of_control (control_sendTop _)
    · exact h.of_control rfl
    · exact h
  | receiveFailed ec =>
    simp only [ConnectorImpl.step]
    split
    · rename_i hFailed
      split
      · obtain ⟨hLast, hAlternates⟩ := h.signal fun _ => hFailed.2
        refine ⟨hLast, hAlternates, fun hUp => ?_, fun hAgain => (by cases hAgain), h.ended⟩
        simp [ConnectorImpl.cancelTimer, setConnectionState, ConnectionState.set,
          ConnectionState.up, hFailed.2] at hUp
      · rename_i hDown
        exact ⟨h.last, h.alternates, fun hUp => absurd hUp hDown, fun hAgain => (by cases hAgain),
          h.ended⟩
    · exact h
  | cancelSend =>
    simp only [ConnectorImpl.step]
    split
    · exact h.of_control rfl
    · exact h
  | disconnected ec =>
    simp only [ConnectorImpl.step]
    split
    · rename_i hEnded
      exact h.leave hEnded.2.2.2 (by simpa using hEnded.2.2.1)
    · exact h
  | retry =>
    simp only [ConnectorImpl.step]
    split
    · rename_i hDelayed
      have hIdle := h.idle (by simp [hDelayed.1])
      exact ⟨h.last, h.alternates, h.receiving, fun hAgain => absurd hAgain (by simp [hIdle]),
        fun hEnded => by cases hEnded⟩
    · exact h

theorem cycle_start : Cycle ({} : ConnectorImpl μ) where
  last := rfl
  alternates := List.isChain_nil
  receiving hUp := nomatch hUp
  connected hReceiving := nomatch hReceiving
  ended hPhase := nomatch hPhase

theorem started_sendTop (hMore : c.started.length < c.sendTop.started.length) :
    c.connstate.up = true := by
  unfold sendTop at hMore
  split at hMore
  · exact absurd hMore (lt_irrefl _)
  · split at hMore
    · exact absurd hMore (lt_irrefl _)
    · rename_i hUp
      rw [ConnectionState.down_eq_not_up] at hUp
      simpa using hUp

theorem started_step (hMore : c.started.length < (c.step op).started.length) :
    c.connstate.up = true := by
  have hSame : ∀ {n : ℕ}, n < n → c.connstate.up = true := fun h => absurd h (lt_irrefl _)
  cases op with
  | send | stop => exact hSame hMore
  | connected | connectFailed | cancelSend | disconnected | retry | writeFailed =>
    simp only [ConnectorImpl.step] at hMore
    split at hMore
    · first | exact hSame hMore | exact absurd hMore (Nat.not_lt_zero _)
    · exact hSame hMore
  | startSend | wake =>
    simp only [ConnectorImpl.step] at hMore
    split at hMore
    · exact started_sendTop hMore
    · exact hSame hMore
  | writeDone =>
    simp only [ConnectorImpl.step] at hMore
    split at hMore <;> exact hSame hMore
  | resumeSend =>
    simp only [ConnectorImpl.step] at hMore
    split at hMore
    · exact started_sendTop (c := { c with sendQueue := c.sendQueue.tail }) hMore
    · exact hSame hMore
    · exact hSame hMore
  | receiveFailed =>
    simp only [ConnectorImpl.step] at hMore
    split at hMore
    · split at hMore <;> exact hSame hMore
    · exact hSame hMore

/-- After a stop no connection is tried again, and after its end nothing is signalled. -/
theorem Cycle.stops (h : c.Cycle) (op : ConnectorOp μ) :
    (c.stopped = true → c.phase ≠ .connecting → (c.step op).phase ≠ .connecting) ∧
      (c.phase = .ended → (c.step op).phase = .ended ∧ (c.step op).signalled = c.signalled) := by
  have hSame : ∀ {c' : ConnectorImpl μ}, c'.control = c.control →
      (c.stopped = true → c.phase ≠ .connecting → c'.phase ≠ .connecting) ∧
        (c.phase = .ended → c'.phase = .ended ∧ c'.signalled = c.signalled) := by
    intro c' hControl
    simp only [control, Prod.mk.injEq] at hControl
    obtain ⟨-, hSignalled, -, hPhase, -⟩ := hControl
    rw [hPhase, hSignalled]
    exact ⟨fun _ => id, fun hEnded => ⟨hEnded, rfl⟩⟩
  have hLeave : ∀ ec, c.phase ≠ .ended →
      (c.stopped = true → c.phase ≠ .connecting → (c.leave ec).phase ≠ .connecting) ∧
        (c.phase = .ended → (c.leave ec).phase = .ended ∧ (c.leave ec).signalled = c.signalled) := by
    intro ec hRunning
    refine ⟨fun _ _ => ?_, fun hEnded => absurd hEnded hRunning⟩
    show (if c.stopped then RunPhase.ended else RunPhase.delayed) ≠ .connecting
    split <;> simp
  cases op with
  | send s => exact hSame rfl
  | stop => exact ⟨fun _ => id, fun hEnded => ⟨hEnded, rfl⟩⟩
  | connected =>
    simp only [ConnectorImpl.step]
    split
    · rename_i hPhase
      exact ⟨fun _ hNot => absurd hPhase hNot, fun hEnded => by cases hPhase.symm.trans hEnded⟩
    · exact hSame rfl
  | connectFailed ec =>
    simp only [ConnectorImpl.step]
    split
    · rename_i hFailed
      exact hLeave ec (by simp [hFailed.1])
    · exact hSame rfl
  | startSend | wake =>
    simp only [ConnectorImpl.step]
    split
    · exact hSame (control_sendTop c)
    · exact hSame rfl
  | writeDone | writeFailed =>
    simp only [ConnectorImpl.step]
    split <;> exact hSame rfl
  | resumeSend =>
    simp only [ConnectorImpl.step]
    split
    · exact hSame (control_sendTop _)
    · exact hSame rfl
    · exact hSame rfl
  | receiveFailed ec =>
    simp only [ConnectorImpl.step]
    split
    · rename_i hFailed
      have hPhase := h.connected hFailed.1
      refine ⟨fun _ hNot => ?_, fun hEnded => by cases hPhase.symm.trans hEnded⟩
      split <;> exact hNot
    · exact hSame rfl
  | cancelSend =>
    simp only [ConnectorImpl.step]
    split <;> exact hSame rfl
  | disconnected ec =>
    simp only [ConnectorImpl.step]
    split
    · rename_i hEnded
      exact hLeave ec (by simp [hEnded.1])
    · exact hSame rfl
  | retry =>
    simp only [ConnectorImpl.step]
    split
    · rename_i hDelayed
      refine ⟨fun hStopped => ?_, fun hEnded => by cases hDelayed.1.symm.trans hEnded⟩
      simp [hStopped] at hDelayed
    · exact hSame rfl

/-- The step lemma. -/
theorem Cycle.notifies (h : c.Cycle) (op : ConnectorOp μ) : c.Notifies (c.step op) where
  last := (h.step op).last
  alternates := (h.step op).alternates
  connected hUp := ⟨(h.step op).connected ((h.step op).receiving hUp), (h.step op).receiving hUp⟩
  writes := started_step
  stops := (h.stops op).1
  ended := (h.stops op).2

/-- In every run of a connector: the state that watchers ask for is the one that was signalled last, a
connection that comes up was signalled to be down since the one before it came up, it is only up while
its `receive_loop` runs, nothing is given to `async_write` while it is down, a connector that was
stopped does not try again, and after its end it signals nothing. -/
theorem notifies_run (ops : List (ConnectorOp μ)) :
    Safe (always ConnectorImpl.step) (fun c _ c' => c.Notifies c') ({} : ConnectorImpl μ) ops :=
  safe_of_invariant (I := Cycle) (fun _ op h => ⟨_, rfl, h.notifies op, h.step op⟩) cycle_start ops

/-! ### What may still happen -/

/-- `send_loop` goes on to its end over a connection that is down. -/
def drain : List (ConnectorOp μ) := [.startSend, .wake, .writeFailed, .resumeSend]

/-- `run_connection` ends, and the next one comes up. -/
def renew : List (ConnectorOp μ) := [.disconnected notConnected, .retry, .connected, .startSend]

/-- A connection is lost, with both of its loops, and the next one comes up. -/
def reconnect : List (ConnectorOp μ) := .receiveFailed notConnected :: (drain ++ renew)

/-- The writes of `n` messages complete. -/
def flush : ℕ → List (ConnectorOp μ)
  | 0 => []
  | n + 1 => .writeDone :: .resumeSend :: flush n

/-- `send_loop` has come to its first wait or its first write on a new connection. -/
structure Sending (c : ConnectorImpl μ) : Prop where
  up : c.connstate.up = true
  cancelled : c.cancelled = false
  phase : c.phase = .connected
  loop : c.sendLoop = .parked false ∧ c.sendQueue = [] ∨ c.sendLoop = .writing ∧ c.sendQueue ≠ []

theorem sending_sendTop (hUp : c.connstate.up = true) (hCancelled : c.cancelled = false)
    (hPhase : c.phase = .connected) : c.sendTop.Sending ∧ c.sendTop.sendQueue = c.sendQueue := by
  unfold sendTop
  split
  · rename_i hIdle
    have hQueue : c.sendQueue = [] := by simpa [hUp] using hIdle
    rw [if_neg (by simp [hCancelled])]
    exact ⟨⟨hUp, hCancelled, hPhase, .inl ⟨rfl, hQueue⟩⟩, rfl⟩
  · rename_i hBusy
    rw [if_neg (by simp [ConnectionState.down_eq_not_up, hUp]), if_neg (by simp [hCancelled])]
    refine ⟨⟨hUp, hCancelled, hPhase, .inr ⟨rfl, fun hNone => hBusy ?_⟩⟩, rfl⟩
    have hQueue : c.sendQueue = [] := hNone
    simp [hUp, hQueue]

theorem sent_sendTop (c : ConnectorImpl μ) : c.sendTop.sent = c.sent := by
  unfold sendTop
  split
  · rfl
  · split
    · rfl
    · split <;> rfl

/-- The rest of the queue is written, message by message. -/
theorem Sending.flush (h : c.Sending) (hKept : c.Kept) :
    ((flush c.sendQueue.length).foldl ConnectorImpl.step c).completed = c.sent ∧
      ((flush c.sendQueue.length).foldl ConnectorImpl.step c).sent = c.sent := by
  generalize hLength : c.sendQueue.length = n
  induction n generalizing c with
  | zero =>
    have hQueue := List.length_eq_zero_iff.mp hLength
    rcases h.loop with ⟨hLoop, -⟩ | ⟨-, hNe⟩
    · have hAll := hKept.queued (by rw [hLoop]; nofun)
      rw [hQueue, List.append_nil] at hAll
      exact ⟨hAll, rfl⟩
    · exact absurd hQueue hNe
  | succ n ih =>
    obtain ⟨s, rest, hQueue⟩ := List.exists_cons_of_length_eq_add_one hLength
    have hLoop : c.sendLoop = .writing := by
      rcases h.loop with ⟨-, hNone⟩ | ⟨hLoop, -⟩
      · cases hQueue.symm.trans hNone
      · exact hLoop
    -- the message leaves the queue only in the resumption
    have hNext : (c.step .writeDone).step .resumeSend = sendTop { c with
        sendLoop := .wrote true
        completed := c.completed ++ [s]
        sendQueue := rest } := by
      simp only [ConnectorImpl.step, hLoop, hQueue, List.tail_cons]
    have hKept' : ((c.step .writeDone).step .resumeSend).Kept := hKept.step.step
    rw [hNext] at hKept'
    obtain ⟨hSending, hRest⟩ := sending_sendTop (c := { c with
      sendLoop := .wrote true
      completed := c.completed ++ [s]
      sendQueue := rest }) h.up h.cancelled h.phase
    have hShort : rest.length = n := by simpa [hQueue] using hLength
    obtain ⟨hCompleted, hSent⟩ := ih hSending hKept' (by rw [hRest]; exact hShort)
    rw [sent_sendTop] at hCompleted hSent
    simp only [ConnectorImpl.flush, List.foldl_cons, hNext]
    exact ⟨hCompleted, hSent⟩

theorem sendTop_of_down (hDown : c.connstate.up = false) :
    c.sendTop = { c with sendLoop := .finished } := by
  unfold sendTop
  rw [if_neg (by simp [hDown]), if_pos (by rw [ConnectionState.down_eq_not_up, hDown]; rfl)]

/-- A message whose write had completed still leaves the queue. -/
theorem foldl_drain (hDown : c.connstate.up = false) (hLoop : c.sendLoop ≠ .parked false) :
    ∃ rest, drain.foldl ConnectorImpl.step c =
      { c with sendLoop := .finished, sendQueue := rest } := by
  cases hAt : c.sendLoop with
  | parked woken =>
    cases woken with
    | false => exact absurd hAt hLoop
    | true => exact ⟨c.sendQueue, by simp [drain, ConnectorImpl.step, hAt, sendTop_of_down hDown]⟩
  | wrote ok =>
    cases ok with
    | false => exact ⟨c.sendQueue, by simp [drain, ConnectorImpl.step, hAt]⟩
    | true =>
      refine ⟨c.sendQueue.tail, ?_⟩
      have hTail := sendTop_of_down (c := { c with sendQueue := c.sendQueue.tail }) hDown
      simpa [drain, ConnectorImpl.step, hAt] using hTail
  | spawned =>
    exact ⟨c.sendQueue, by simp [drain, ConnectorImpl.step, hAt, sendTop_of_down hDown]⟩
  | writing => exact ⟨c.sendQueue, by simp [drain, ConnectorImpl.step, hAt]⟩
  | finished =>
    refine ⟨c.sendQueue, Eq.trans (b := c) ?_ ?_⟩
    · simp [drain, ConnectorImpl.step, hAt]
    · rw [← hAt]

/-- `receive_loop` has ended. -/
theorem step_receiveFailed (c : ConnectorImpl μ) :
    (c.step (.receiveFailed notConnected)).receiving = false ∧
      (c.step (.receiveFailed notConnected)).phase = c.phase ∧
      (c.step (.receiveFailed notConnected)).stopped = c.stopped ∧
      (c.step (.receiveFailed notConnected)).sent = c.sent := by
  cases hReceiving : c.receiving with
  | false => simp [ConnectorImpl.step, hReceiving]
  | true =>
    simp only [ConnectorImpl.step]
    rw [if_pos ⟨hReceiving, by decide⟩]
    split <;> exact ⟨rfl, rfl, rfl, rfl⟩

/-- Where `run` is makes no difference, unless it has ended. -/
theorem foldl_renew (hLoop : c.sendLoop = .finished) (hReceiving : c.receiving = false)
    (hStopped : c.stopped = false) (hPhase : c.phase ≠ .ended) :
    (renew.foldl ConnectorImpl.step c).Sending ∧
      (renew.foldl ConnectorImpl.step c).sent = c.sent := by
  have hError : (notConnected : ErrorCode) ≠ 0 := by decide
  have hStart : ∀ c' : ConnectorImpl μ, c'.phase = .connecting → c'.sent = c.sent →
      ((c'.step .connected).step .startSend).Sending ∧
        ((c'.step .connected).step .startSend).sent = c.sent := by
    intro c' hConnecting hSent
    have hUp : (c'.step .connected).step .startSend = (c'.step .connected).sendTop := by
      simp [ConnectorImpl.step, hConnecting]
    rw [hUp, sent_sendTop]
    refine ⟨(sending_sendTop ?_ ?_ ?_).1, ?_⟩ <;>
      simp [ConnectorImpl.step, hConnecting, hSent, ConnectorImpl.cancelTimer, setConnectionState,
        ConnectionState.set, ConnectionState.up]
  cases hAt : c.phase with
  | ended => exact absurd hAt hPhase
  | connecting =>
    have hSkip : (c.step (.disconnected notConnected)).step .retry = c := by
      simp [ConnectorImpl.step, hAt]
    simpa [renew, hSkip] using hStart c hAt rfl
  | delayed =>
    apply hStart ((c.step (.disconnected notConnected)).step .retry) <;>
      simp [ConnectorImpl.step, hAt, hStopped]
  | connected =>
    apply hStart ((c.step (.disconnected notConnected)).step .retry) <;>
      simp [ConnectorImpl.step, ConnectorImpl.leave, setConnectionState, hAt, hLoop, hReceiving,
        hStopped, hError]

/-- Whatever has happened, a connector that was not stopped may come to send. -/
theorem sending_reconnect (hKept : c.Kept) (hCycle : c.Cycle) (hStopped : c.stopped = false) :
    (reconnect.foldl ConnectorImpl.step c).Sending ∧
      (reconnect.foldl ConnectorImpl.step c).sent = c.sent := by
  obtain ⟨hReceiving, hPhase, hStill, hSent⟩ := step_receiveFailed c
  have hKept' : (c.step (.receiveFailed notConnected)).Kept := hKept.step
  have hDown := (hCycle.step (.receiveFailed notConnected)).down hReceiving
  obtain ⟨rest, hDrained⟩ := foldl_drain hDown fun hParked => by
    cases hDown.symm.trans (hKept'.parked hParked).2
  rw [reconnect, List.foldl_cons, List.foldl_append, hDrained, ← hSent]
  refine foldl_renew rfl hReceiving (hStill.trans hStopped) fun hEnded => ?_
  cases hStopped.symm.trans (hCycle.ended (hPhase.symm.trans hEnded))

/-- No state of a connector is a dead end: after any run in which it was not stopped there is a way to
go on, with nothing more sent, on which every message is written, each one once and in the order of
the calls of `send`. -/
theorem delivers_eventually (ops : List (ConnectorOp μ))
    (hRunning : (ops.foldl ConnectorImpl.step {}).stopped = false) :
    ∃ more, ((ops ++ more).foldl ConnectorImpl.step {}).completed =
        (ops.foldl ConnectorImpl.step {}).sent ∧
      ((ops ++ more).foldl ConnectorImpl.step {}).sent = (ops.foldl ConnectorImpl.step {}).sent := by
  have hKept : (ops.foldl ConnectorImpl.step {}).Kept :=
    List.foldlRecOn ops ConnectorImpl.step kept_start fun _ h _ _ => h.step
  have hCycle : (ops.foldl ConnectorImpl.step {}).Cycle :=
    List.foldlRecOn ops ConnectorImpl.step cycle_start fun _ h op _ => h.step op
  have hKept' : (reconnect.foldl ConnectorImpl.step (ops.foldl ConnectorImpl.step {})).Kept :=
    List.foldlRecOn reconnect ConnectorImpl.step hKept fun _ h _ _ => h.step
  obtain ⟨hSending, hSent⟩ := sending_reconnect hKept hCycle hRunning
  obtain ⟨hCompleted, hSame⟩ := hSending.flush hKept'
  refine ⟨reconnect ++ ConnectorImpl.flush
    (reconnect.foldl ConnectorImpl.step (ops.foldl ConnectorImpl.step {})).sendQueue.length, ?_⟩
  rw [List.foldl_append, List.foldl_append, ← hSent]
  exact ⟨hCompleted, hSame⟩

/-- The write that failed is tried again on the next connection. -/
def lostWrite : List (ConnectorOp ℕ) := [.send 7, .connected, .startSend, .writeFailed]

theorem lostWrite_delivers :
    ∃ more, ((lostWrite ++ more).foldl ConnectorImpl.step {}).completed =
        (lostWrite.foldl ConnectorImpl.step {}).sent ∧
      ((lostWrite ++ more).foldl ConnectorImpl.step {}).sent =
        (lostWrite.foldl ConnectorImpl.step {}).sent :=
  delivers_eventually lostWrite rfl

end Arby.PowerTrade.ConnectorImpl
