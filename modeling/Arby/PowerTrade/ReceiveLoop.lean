import Arby.Kit.Run
import Arby.PowerTrade.InboundMessage
import Arby.PowerTrade.OrderbookListenerImpl

/-! The read loop of the connector and the responses that it dispatches to a listener. The listener
reads the message when its handler runs, which on another executor is later than its arrival. -/

namespace Arby.PowerTrade

open Trading Kit

/-- What a run of `on_command_response` reads: the message when its user tag was checked, and the
message when the handler ran. -/
structure HandlerRead where
  checked : InboundMessage
  read : InboundMessage

/-- `receive_loop` and the runs of `on_command_response`. A handler of `pending` was dispatched, and
is given by the message that was checked for it. -/
structure ReceiveLoop where
  message : InboundMessage := {}
  reading : Bool := false
  ended : Bool := false
  pending : List InboundMessage := []
  reads : List HandlerRead := []

/-- A step of the loop or of a handler: the loop prepares the message and starts to read, bytes
arrive, the read completes or fails, or a handler that was dispatched runs. -/
inductive LoopOp
  | prepare (now : TimestampType)
  | receive (chunk : String)
  | complete (now : TimestampType)
  | fail
  | runHandler (i : ℕ)

namespace ReceiveLoop

/-- `on_command_response` runs, for a message that was `checked`. -/
def onCommandResponse (st : ReceiveLoop) (checked : InboundMessage) : ReceiveLoop :=
  { st with reads := st.reads ++ [⟨checked, st.message⟩] }

/-- The check of `_handle_command_response`, `none` when the message has no object to look into. -/
def isAddressed (symbol : MarketKey) (m : InboundMessage) : Option Bool := do
  let object ← m.object
  let tag := (object.ifContains "user_tag").bind Json.ifString
  return decide (tag = some (OrderbookListenerImpl.buildSubscribeId symbol))

section

variable (parse : String → Option Json) (sameExecutor : Bool) (symbol : MarketKey)

/-- `handle_message`, as far as this listener watches for command responses. On the connector's own
executor the dispatched handler runs at once. -/
def handleMessage (st : ReceiveLoop) : Option ReceiveLoop :=
  if st.message.type = "command_response" then do
    let addressed ← isAddressed symbol st.message
    return if !addressed then st
      else if sameExecutor then st.onCommandResponse st.message
      else { st with pending := st.pending ++ [st.message] }
  else some st

/-- A step that cannot be taken leaves the state. -/
def step (st : ReceiveLoop) : LoopOp → Option ReceiveLoop
  | .prepare now =>
    if st.reading || st.ended then some st
    else some { st with message := st.message.prepare now, reading := true }
  | .receive chunk =>
    some (if st.reading then { st with message := st.message.receive chunk } else st)
  | .complete now =>
    if st.reading then
      match st.message.commit parse now with
      | (message, false) => some { st with message, reading := false, ended := true }
      | (message, true) => handleMessage sameExecutor symbol { st with message, reading := false }
    else some st
  | .fail => some (if st.reading then { st with reading := false, ended := true } else st)
  | .runHandler i =>
    match st.pending[i]? with
    | none => some st
    | some checked =>
      some (onCommandResponse { st with pending := st.pending.eraseIdx i } checked)

end

/-- Every handler reads the message that was checked for it. -/
def Faithful (st : ReceiveLoop) : Prop := ∀ r ∈ st.reads, r.read = r.checked

/-- The loop prepares the message for another read only when no handler is pending. -/
def Quiet (st : ReceiveLoop) : LoopOp → Prop
  | .prepare _ => st.reading = false → st.ended = false → st.pending.isEmpty = true
  | _ => True

instance (st : ReceiveLoop) (op : LoopOp) : Decidable (st.Quiet op) :=
  match op with
  | .prepare _ | .receive _ | .complete _ | .fail | .runHandler _ => by
    dsimp only [Quiet]
    infer_instance

variable {parse : String → Option Json} {sameExecutor : Bool} {symbol : MarketKey}
  {st st' : ReceiveLoop} {op : LoopOp}

/-- The invariant of quiet runs: while a handler is pending, the message is the one that was checked
for it. -/
structure Settled (st : ReceiveLoop) : Prop where
  reading : st.reading = true → st.pending = []
  pending : ∀ checked ∈ st.pending, checked = st.message
  faithful : st.Faithful

theorem Settled.onCommandResponse (h : st.Settled) : (st.onCommandResponse st.message).Settled where
  reading := h.reading
  pending := h.pending
  faithful := by
    intro r hr
    rcases List.mem_append.mp hr with hr | hr
    · exact h.faithful r hr
    · obtain rfl := List.mem_singleton.mp hr
      rfl

theorem Settled.handleMessage (h : st.Settled) (hReading : st.reading = false)
    (hStep : handleMessage sameExecutor symbol st = some st') : st'.Settled := by
  unfold ReceiveLoop.handleMessage at hStep
  split at hStep
  · obtain ⟨addressed, -, hStep⟩ := Option.bind_eq_some_iff.mp hStep
    obtain rfl := Option.some.inj hStep
    split
    · exact h
    · split
      · exact h.onCommandResponse
      · refine ⟨fun hNot => ?_, fun checked hChecked => ?_, h.faithful⟩
        · cases hReading.symm.trans hNot
        · rcases List.mem_append.mp hChecked with hChecked | hChecked
          · exact h.pending checked hChecked
          · exact List.mem_singleton.mp hChecked
  · obtain rfl := Option.some.inj hStep
    exact h

theorem Settled.message (h : st.Settled) (hNone : st.pending = []) (message : InboundMessage)
    (reading ended : Bool) : Settled { st with message, reading, ended } where
  reading _ := hNone
  pending checked hChecked := by
    rw [show st.pending = [] from hNone] at hChecked
    cases hChecked
  faithful := h.faithful

theorem Settled.step (h : st.Settled) (hQuiet : st.Quiet op)
    (hStep : step parse sameExecutor symbol st op = some st') : st'.Settled := by
  cases op with
  | prepare now =>
    simp only [ReceiveLoop.step] at hStep
    split at hStep
    · obtain rfl := Option.some.inj hStep
      exact h
    · rename_i hIdle
      obtain rfl := Option.some.inj hStep
      obtain ⟨hReading, hEnded⟩ := Bool.or_eq_false_iff.mp (Bool.eq_false_of_not_eq_true hIdle)
      have hNone : st.pending = [] := List.isEmpty_iff.mp (hQuiet hReading hEnded)
      exact h.message hNone _ true st.ended
  | receive chunk =>
    obtain rfl := Option.some.inj hStep
    split
    · rename_i hReading
      exact h.message (h.reading hReading) _ st.reading st.ended
    · exact h
  | complete now =>
    simp only [ReceiveLoop.step] at hStep
    split at hStep
    · rename_i hReading
      have hNone := h.reading hReading
      split at hStep
      · obtain rfl := Option.some.inj hStep
        exact h.message hNone _ false true
      · exact (h.message hNone _ false st.ended).handleMessage rfl hStep
    · obtain rfl := Option.some.inj hStep
      exact h
  | fail =>
    obtain rfl := Option.some.inj hStep
    split
    · rename_i hReading
      exact h.message (h.reading hReading) st.message false true
    · exact h
  | runHandler i =>
    simp only [ReceiveLoop.step] at hStep
    split at hStep
    · obtain rfl := Option.some.inj hStep
      exact h
    · rename_i checked hChecked
      obtain rfl := Option.some.inj hStep
      obtain rfl := h.pending checked (List.mem_of_getElem? hChecked)
      have hErased : Settled { st with pending := st.pending.eraseIdx i } := by
        refine ⟨fun hReading => ?_, fun c hc => h.pending c (List.mem_of_mem_eraseIdx hc),
          h.faithful⟩
        rw [h.reading hReading]
        rfl
      exact hErased.onCommandResponse

theorem step_pending (hNone : st.pending = []) (hStep : step parse true symbol st op = some st') :
    st'.pending = [] := by
  cases op with
  | prepare now =>
    simp only [step] at hStep
    split at hStep <;> obtain rfl := Option.some.inj hStep <;> exact hNone
  | receive chunk =>
    obtain rfl := Option.some.inj hStep
    split <;> exact hNone
  | complete now =>
    simp only [step] at hStep
    split at hStep
    · split at hStep
      · obtain rfl := Option.some.inj hStep
        exact hNone
      · unfold handleMessage at hStep
        split at hStep
        · obtain ⟨addressed, -, hStep⟩ := Option.bind_eq_some_iff.mp hStep
          obtain rfl := Option.some.inj hStep
          cases addressed <;> exact hNone
        · obtain rfl := Option.some.inj hStep
          exact hNone
    · obtain rfl := Option.some.inj hStep
      exact hNone
  | fail =>
    obtain rfl := Option.some.inj hStep
    split <;> exact hNone
  | runHandler i =>
    simp only [step, hNone, List.getElem?_nil] at hStep
    obtain rfl := Option.some.inj hStep
    exact hNone

theorem quiet_of_pending (hNone : st.pending = []) : st.Quiet op := by
  cases op with
  | prepare now => exact fun _ _ => List.isEmpty_iff.mpr hNone
  | receive | complete | fail | runHandler => trivial

/-- Every handler reads the message that was checked for it, if the listener is on the connector's
own executor or the loop does not start another read while a handler is pending. -/
theorem faithful_run {ops : List LoopOp}
    (h : sameExecutor = true ∨ Along (step parse sameExecutor symbol) Quiet {} ops)
    (hRun : run (step parse sameExecutor symbol) {} ops = some st) : st.Faithful := by
  have hStart : Settled {} := ⟨fun _ => rfl, nofun, nofun⟩
  rcases h with rfl | hQuiet
  · have hEnd : st.Settled ∧ st.pending = [] :=
      run_invariant (I := fun st => st.Settled ∧ st.pending = [])
        (fun s op s' hs hStep =>
          ⟨hs.1.step (quiet_of_pending hs.2) hStep, step_pending hs.2 hStep⟩)
        ⟨hStart, rfl⟩ hRun
    exact hEnd.1.faithful
  · exact (hQuiet.invariant (fun _ _ _ hs hOp hStep => hs.step hOp hStep) hStart hRun).faithful

def responseText (tag code : String) : String :=
  "\x7b\"command_response\":\x7b\"user_tag\":\"" ++ tag ++ "\",\"error_code\":\"" ++ code ++
    "\"\x7d\x7d"

def response (tag code : String) : Json :=
  .object [("command_response", .object [("user_tag", .string tag), ("error_code", .string code)])]

/-- What a JSON parser makes of the texts of two responses. -/
def parseResponses (text : String) : Option Json :=
  if text = responseText "order_book:btc/usd" "0" then some (response "order_book:btc/usd" "0")
  else if text = responseText "order_book:eth/usd" "1" then some (response "order_book:eth/usd" "1")
  else none

/-- Two responses, and the handler of the first one runs before the second read starts. -/
def promptHandler : List LoopOp :=
  [.prepare 1, .receive (responseText "order_book:btc/usd" "0"), .complete 2, .runHandler 0,
    .prepare 3, .receive (responseText "order_book:eth/usd" "1"), .complete 4]

def btcUsd : MarketKey := .spot ⟨"btc", "usd"⟩

theorem promptHandler_faithful : ∃ st,
    run (step parseResponses false btcUsd) {} promptHandler = some st ∧ st.Faithful := by
  have hQuiet : Along (step parseResponses false btcUsd) Quiet {} promptHandler := by
    decide +kernel
  have hRun := Option.getD_of_ne_none
    (show run (step parseResponses false btcUsd) {} promptHandler ≠ none by decide +kernel) {}
  exact ⟨_, hRun.symm, faithful_run (.inr hQuiet) hRun.symm⟩

/-- The handler of the first response runs after the second one was read. -/
def lateHandler : List LoopOp :=
  [.prepare 1, .receive (responseText "order_book:btc/usd" "0"), .complete 2, .prepare 3,
    .receive (responseText "order_book:eth/usd" "1"), .complete 4, .runHandler 0]

def errorCode (m : InboundMessage) : Option String :=
  (m.object.bind (JsonObject.ifContains · "error_code")).bind Json.ifString

/-- The handler was dispatched for a success, and reads the failure of another listener. -/
theorem lateHandler_unfaithful : ∃ st,
    run (step parseResponses false btcUsd) {} lateHandler = some st ∧ ¬st.Faithful := by
  refine ⟨_, (Option.getD_of_ne_none (by decide +kernel) {}).symm, fun h => ?_⟩
  have hCodes : ∀ codes ∈ ((run (step parseResponses false btcUsd) {} lateHandler).getD {}).reads.map
      (fun r => (errorCode r.checked, errorCode r.read)), codes.2 = codes.1 := by
    intro codes hMem
    obtain ⟨r, hr, rfl⟩ := List.mem_map.mp hMem
    rw [h r hr]
  exact absurd hCodes (by decide +kernel)

end ReceiveLoop

end Arby.PowerTrade
