import Arby.Logging.DataLogRun
import Arby.PowerTrade.MarketFeed

/-! A tick logger beside a listener. It has its slots in front of the listener's, as it was made
before, and sends the text of each message of its market to a log file. The listener's ticks can be
read back from that file. -/

namespace Arby.PowerTrade

open Trading Kit Logging

variable {σ : Type*}

/-- The types that `start` watches. -/
def loggedTypes : List String := ["snapshot", "order_added", "order_deleted", "order_executed"]

/-- A slot of `tick_logger::impl`: the text that it sends to the log, if any. -/
def logSlot (symbol : String) (payload : InboundMessage) : Outcome (Option String) :=
  payload.object.elim .undefined fun object => do
    let s ← (← object.fieldAt "symbol").asString
    return if s = symbol then some payload.view else none

/-- A market's listener with a tick logger on the same connector. The logger is `watching` while it has
its connections, from its construction on. -/
structure LoggedFeed (σ : Type*) where
  feed : MarketFeed
  log : DataLog σ
  watching : Bool := true

inductive LoggedOp
  /-- A step of the feed. `between` says whether a slot between those of the logger and those of the
  listener throws at the message that is read. -/
  | feed (op : FeedOp) (between : Bool)
  | runHandler
  | writeDone (ec : Bool)
  | destroy

def LoggedOp.isBetween : LoggedOp → Bool
  | .feed _ between => between
  | _ => false

/-- The same, with an exception before the slots of the listener. -/
def FeedOp.cutOff : FeedOp → FeedOp
  | .source (.read now chunks later _) inline time =>
    .source (.read now chunks later .throwFirst) inline time
  | op => op

section Decoding

variable (parse : String → Option Json) (number : String → Option ℚ)
  (fromString : String → Option SideType) (symbol : MarketKey) (ch : Channel σ Payload)

namespace LoggedFeed

/-- The message that the slots of the logger are called with, if any. -/
def heard (st : LoggedFeed σ) : FeedOp → Option InboundMessage
  | .source (.read now chunks later others) _ _ => do
    let m ← st.feed.source.message
    let result := MessageReads.readInto parse m now chunks later
    if result.2 && others ≠ .throwFirst && st.watching && loggedTypes.contains result.1.type then
      some result.1
    else none
  | _ => none

def next (st : LoggedFeed σ) (op : FeedOp) : Option (LoggedFeed σ) :=
  (st.feed.step parse number fromString symbol op).map fun feed => { st with feed }

/-- An operation of the log, whose callers are on its executor. -/
def logStep (st : LoggedFeed σ) (op : LogOp) : Option (LoggedFeed σ) :=
  (st.log.step ch true op).map fun log => { st with log }

/-- One step. To destroy a logger that was destroyed before does nothing. -/
def step (st : LoggedFeed σ) : LoggedOp → Option (LoggedFeed σ)
  | .feed op between =>
    let rest := if between then op.cutOff else op
    match st.heard parse op with
    | none => st.next parse number fromString symbol rest
    | some m =>
      match logSlot (nativeSymbol symbol) m with
      | .undefined => none
      | .throws => st.next parse number fromString symbol op.cutOff
      | .ok none => st.next parse number fromString symbol rest
      | .ok (some text) =>
        (st.logStep ch (.send text)).bind fun st => st.next parse number fromString symbol rest
  | .runHandler => st.logStep ch .runHandler
  | .writeDone ec => st.logStep ch (.writeDone ec)
  | .destroy =>
    if st.watching then { st with watching := false }.logStep ch .destroy else some st

def start (symbol : MarketKey) (created : TimestampType) (channel : σ) : LoggedFeed σ :=
  { feed := .start symbol created, log := { channel } }

end LoggedFeed

/-- What the listener makes of a text: the tick that it says, if any. -/
def tickOf (text : String) : Option TickRecord := do
  let v ← parse text
  let code ← tickCodes.find? fun code => code.messageType = MessageReads.typeOf v
  let p ← MessageReads.objectOf v
  if filterMessage (makeMessageFilter symbol) p then
    match construct2 number fromString code p with
    | .ok tick => some tick
    | _ => none
  else none

variable {parse number fromString symbol ch}

/-! ### The ticks of a text -/

section Texts

variable {v : Json} {text : String} {src src' : TickSource} {m : InboundMessage}
  {now later : TimestampType} {chunks : List String} {others : OtherSlots} {tick : Option TickRecord}

theorem tickOf_eq (hParse : parse text = some v) : tickOf parse number fromString symbol text =
    (tickCodes.find? fun code => code.messageType = MessageReads.typeOf v).bind fun code =>
      (MessageReads.objectOf v).bind fun p =>
        if filterMessage (makeMessageFilter symbol) p then
          match construct2 number fromString code p with
          | .ok tick => some tick
          | _ => none
        else none := by
  rw [tickOf, hParse]
  rfl

/-- A listener that watches all kinds of ticks dispatches what the text says. -/
theorem handleMessage_tickOf (hWatched : tickCodes.length ≤ src.watched)
    (hParse : parse text = some v) (hType : m.type = MessageReads.typeOf v)
    (hObject : m.object = MessageReads.objectOf v)
    (hHandle : src.handleMessage number fromString symbol m = some tick) :
    tick = tickOf parse number fromString symbol text := by
  rw [TickSource.handleMessage, List.take_of_length_le hWatched, hType] at hHandle
  rw [tickOf_eq hParse]
  cases hFind : tickCodes.find? fun code => code.messageType = MessageReads.typeOf v with
  | none =>
    rw [hFind] at hHandle
    exact (Option.some.inj hHandle).symm
  | some code =>
    simp only [hFind, TickSource.handle, hObject] at hHandle
    obtain ⟨p, hp, hHandle⟩ := Option.bind_eq_some_iff.mp hHandle
    rw [hp, Option.bind_some, Option.bind_some]
    split at hHandle
    · rename_i hFilter
      rw [if_pos hFilter]
      cases hTick : construct2 number fromString code p with
      | ok tick' =>
        rw [hTick] at hHandle
        exact (Option.some.inj hHandle).symm
      | throws =>
        rw [hTick] at hHandle
        exact (Option.some.inj hHandle).symm
      | undefined =>
        rw [hTick] at hHandle
        cases hHandle
    · rename_i hFilter
      rw [if_neg hFilter]
      exact (Option.some.inj hHandle).symm

theorem messageType_mem (code : TickCode) : code ∈ tickCodes ∧ code.messageType ∈ loggedTypes := by
  cases code <;> decide

theorem tickOf_unwatched (hParse : parse text = some v)
    (hType : MessageReads.typeOf v ∉ loggedTypes) :
    tickOf parse number fromString symbol text = none := by
  rw [tickOf_eq hParse, List.find?_eq_none.mpr, Option.bind_none]
  intro code _ hCode
  exact hType (of_decide_eq_true hCode ▸ (messageType_mem code).2)

/-- A text about which the logger has nothing to say says no tick of the market. -/
theorem tickOf_other (hParse : parse text = some v)
    (hOther : ∀ p, MessageReads.objectOf v = some p →
      (p.ifContains "symbol").bind Json.ifString ≠ some (nativeSymbol symbol)) :
    tickOf parse number fromString symbol text = none := by
  rw [tickOf_eq hParse]
  cases hObject : MessageReads.objectOf v with
  | none => simp
  | some p =>
    have hFilter : filterMessage (makeMessageFilter symbol) p = false := by
      by_contra hAll
      rw [Bool.not_eq_false] at hAll
      have hField := List.all_eq_true.mp hAll ("symbol", nativeSymbol symbol) (by
        simp [makeMessageFilter])
      refine hOther p hObject ?_
      cases h : p.ifContains "symbol" with
      | none => simp [h] at hField
      | some pv => simpa [h] using hField
    simp [hFilter]

/-- The step of a listener that watches all kinds of ticks. -/
theorem step_tickOf (hWatched : tickCodes.length ≤ src.watched)
    (hMessage : src.message = some m)
    (hStep : src.step parse number fromString symbol (.read now chunks later others) =
      some (src', tick)) :
    tick = if others = .throwFirst then none
      else tickOf parse number fromString symbol (String.join chunks) := by
  rw [TickSource.step_read hMessage] at hStep
  cases hParse : parse (String.join chunks) with
  | none =>
    have hRead : (MessageReads.readInto parse m now chunks later).2 = false :=
      MessageReads.readInto_none hParse
    simp only [hRead, Bool.false_and, Bool.false_eq_true, if_false] at hStep
    obtain ⟨-, rfl⟩ := Prod.mk.inj (Option.some.inj hStep)
    simp [tickOf, hParse]
  | some v =>
    obtain ⟨hParsed, hType, hObject⟩ :
        (MessageReads.readInto parse m now chunks later).2 = true ∧
          (MessageReads.readInto parse m now chunks later).1.type = MessageReads.typeOf v ∧
          (MessageReads.readInto parse m now chunks later).1.object = MessageReads.objectOf v :=
      MessageReads.readInto_some hParse
    simp only [hParsed, Bool.true_and, decide_eq_true_eq] at hStep
    split at hStep
    · rename_i hCalled
      obtain ⟨tick', hHandle, hStep⟩ := Option.map_eq_some_iff.mp hStep
      obtain ⟨-, rfl⟩ := Prod.mk.inj hStep
      rw [if_neg hCalled]
      exact handleMessage_tickOf hWatched hParse hType hObject hHandle
    · rename_i hCalled
      obtain ⟨-, rfl⟩ := Prod.mk.inj (Option.some.inj hStep)
      rw [if_pos (not_not.mp hCalled)]

/-- What the slot of the logger does with a message. -/
theorem logSlot_ok {name : String} {sent : Option String}
    (hSlot : logSlot name m = .ok sent) : ∃ p, m.object = some p ∧
      ((p.ifContains "symbol").bind Json.ifString = some name ∧ sent = some m.view ∨
        (p.ifContains "symbol").bind Json.ifString ≠ some name ∧ sent = none) := by
  unfold logSlot at hSlot
  cases hObject : m.object with
  | none =>
    rw [hObject] at hSlot
    cases hSlot
  | some p =>
    refine ⟨p, rfl, ?_⟩
    rw [hObject, Option.elim_some, JsonObject.fieldAt] at hSlot
    cases hField : p.ifContains "symbol" with
    | none =>
      rw [hField] at hSlot
      cases hSlot
    | some field =>
      rw [hField, Option.elim_some, Outcome.ok_bind, Json.asString] at hSlot
      cases hText : field.ifString with
      | none =>
        rw [hText] at hSlot
        cases hSlot
      | some s =>
        rw [hText, Option.elim_some, Outcome.ok_bind, Outcome.pure_eq] at hSlot
        rw [Option.bind_some, hText]
        split at hSlot
        · rename_i hEq
          exact .inl ⟨congrArg some hEq, (Outcome.ok.inj hSlot).symm⟩
        · rename_i hNe
          exact .inr ⟨fun hEq => hNe (Option.some.inj hEq), (Outcome.ok.inj hSlot).symm⟩

end Texts

/-! ### Runs -/

namespace LoggedFeed

variable {st st₁ st' : LoggedFeed σ} {op : LoggedOp} {texts texts' : List String}
  {events events' : List ListenerOp}

/-- From one state to the other the logger sends `texts`, and the listener goes through `events`. What
the texts say is dispatched to the listener. The ticks of the events are the first that were waiting
or are dispatched, and the others wait. -/
structure Replays (parse : String → Option Json) (number : String → Option ℚ)
    (fromString : String → Option SideType) (symbol : MarketKey) (st st' : LoggedFeed σ)
    (texts : List String) (events : List ListenerOp) : Prop where
  logged : st'.log.sent = st.log.sent ++ texts
  dispatched : st'.feed.source.sent =
    st.feed.source.sent ++ texts.filterMap (tickOf parse number fromString symbol)
  listener : run ListenerRun.step st.feed.listener events = some st'.feed.listener
  ticks : ListenerRun.ticksOf events ++ st'.feed.waiting =
    st.feed.waiting ++ texts.filterMap (tickOf parse number fromString symbol)

theorem Replays.refl (st : LoggedFeed σ) : Replays parse number fromString symbol st st [] [] :=
  ⟨by simp, by simp, rfl, by simp [ListenerRun.ticksOf]⟩

theorem Replays.trans (h : Replays parse number fromString symbol st st₁ texts events)
    (h' : Replays parse number fromString symbol st₁ st' texts' events') :
    Replays parse number fromString symbol st st' (texts ++ texts') (events ++ events') := by
  refine ⟨by rw [h'.logged, h.logged, List.append_assoc],
    by rw [h'.dispatched, h.dispatched, List.append_assoc, List.filterMap_append],
    by rw [run_append, h.listener]; exact h'.listener, ?_⟩
  rw [ListenerRun.ticksOf, List.filterMap_append, List.append_assoc]
  change ListenerRun.ticksOf events ++ (ListenerRun.ticksOf events' ++ st'.feed.waiting) = _
  rw [h'.ticks, ← List.append_assoc, h.ticks, List.append_assoc, List.filterMap_append]

/-- What an operation of the log leaves. -/
theorem logStep_cases {logOp : LogOp} (hStep : st.logStep ch logOp = some st') :
    ∃ log, st.log.step ch true logOp = some log ∧ st' = { st with log } := by
  obtain ⟨log, hLog, rfl⟩ := Option.map_eq_some_iff.mp hStep
  exact ⟨log, hLog, rfl⟩

theorem next_cases {feedOp : FeedOp}
    (hNext : st.next parse number fromString symbol feedOp = some st') :
    ∃ feed, st.feed.step parse number fromString symbol feedOp = some feed ∧
      st' = { st with feed } := by
  obtain ⟨feed, hFeed, rfl⟩ := Option.map_eq_some_iff.mp hNext
  exact ⟨feed, hFeed, rfl⟩

/-- The listener's part of a step in which the logger sends `texts`. -/
theorem replays_next {feedOp : FeedOp} {log : DataLog σ}
    (hLog : log.sent = st.log.sent ++ texts)
    (hNext : { st with log }.next parse number fromString symbol feedOp = some st')
    (hTicks : ∀ sourceOp src tick, feedOp.source? = some sourceOp →
      st.feed.source.step parse number fromString symbol sourceOp = some (src, tick) →
      tick.toList = texts.filterMap (tickOf parse number fromString symbol))
    (hQuiet : feedOp.source? = none → texts = []) :
    ∃ events, Replays parse number fromString symbol st st' texts events := by
  obtain ⟨feed, hFeed, rfl⟩ := next_cases hNext
  obtain ⟨hSource, events, ⟨hListener, ticks, hSent, hWaiting⟩, -⟩ := MarketFeed.step_cases hFeed
  have hNew : ticks = texts.filterMap (tickOf parse number fromString symbol) := by
    cases hOp : feedOp.source? with
    | none =>
      rw [hOp] at hSource
      have hSame : st.feed.source = feed.source := Option.some.inj hSource
      rw [hQuiet hOp]
      exact List.append_cancel_left (hSent.symm.trans (by rw [hSame]; simp))
    | some sourceOp =>
      rw [hOp] at hSource
      obtain ⟨src, hSourceStep, hEnd⟩ := Option.bind_eq_some_iff.mp hSource
      obtain rfl := Option.some.inj hEnd
      obtain ⟨⟨src, tick⟩, hStep, hSrc⟩ := Option.map_eq_some_iff.mp hSourceStep
      rw [← hTicks sourceOp src tick hOp hStep]
      refine List.append_cancel_left (hSent.symm.trans ?_)
      rw [← hSrc]
      exact TickSource.step_sent hStep
  exact ⟨events, hLog, hSent.trans (by rw [hNew]), hListener, hWaiting.trans (by rw [hNew])⟩

/-- With a logger that watches, the tick that a read dispatches is what the text says when the logger
is called with it, and there is none otherwise. -/
theorem heard_cases (hWatching : st.watching = true)
    (hWatched : tickCodes.length ≤ st.feed.source.watched) {now later inlineTime : TimestampType}
    {chunks : List String} {others : OtherSlots} {inline : Bool} {src : TickSource}
    {tick : Option TickRecord}
    (hStep : st.feed.source.step parse number fromString symbol (.read now chunks later others) =
      some (src, tick)) :
    st.heard parse (.source (.read now chunks later others) inline inlineTime) = none ∧
        tick = none ∨
      ∃ v m, st.heard parse (.source (.read now chunks later others) inline inlineTime) = some m ∧
        parse (String.join chunks) = some v ∧ m.object = MessageReads.objectOf v ∧
        m.view = String.join chunks ∧
        tick = tickOf parse number fromString symbol (String.join chunks) := by
  cases hMessage : st.feed.source.message with
  | none =>
    rw [TickSource.step, hMessage] at hStep
    obtain ⟨-, rfl⟩ := Prod.mk.inj (Option.some.inj hStep)
    exact .inl ⟨by simp [heard, hMessage], rfl⟩
  | some m =>
    have hTick := step_tickOf hWatched hMessage hStep
    by_cases hThrows : others = .throwFirst
    · rw [if_pos hThrows] at hTick
      exact .inl ⟨by simp [heard, hMessage, hThrows], hTick⟩
    rw [if_neg hThrows] at hTick
    cases hParse : parse (String.join chunks) with
    | none =>
      have hRead : (MessageReads.readInto parse m now chunks later).2 = false :=
        MessageReads.readInto_none hParse
      exact .inl ⟨by simp [heard, hMessage, hRead], by simp [hTick, tickOf, hParse]⟩
    | some v =>
      obtain ⟨hRead, hType, hObject⟩ :
          (MessageReads.readInto parse m now chunks later).2 = true ∧
            (MessageReads.readInto parse m now chunks later).1.type = MessageReads.typeOf v ∧
            (MessageReads.readInto parse m now chunks later).1.object = MessageReads.objectOf v :=
        MessageReads.readInto_some hParse
      by_cases hLogged : MessageReads.typeOf v ∈ loggedTypes
      · refine .inr ⟨v, (MessageReads.readInto parse m now chunks later).1, ?_, rfl, hObject, ?_,
          hTick⟩
        · simp [heard, hMessage, hRead, hThrows, hWatching, hType, hLogged]
        · exact MessageReads.view_readInto m now later chunks
      · exact .inl ⟨by simp [heard, hMessage, hType, hLogged],
          hTick.trans (tickOf_unwatched hParse hLogged)⟩

theorem source_of_heard {feedOp : FeedOp} {m : InboundMessage}
    (hHeard : st.heard parse feedOp = some m) : ∃ now chunks later others inline time,
      feedOp = .source (.read now chunks later others) inline time := by
  cases feedOp with
  | source op inline time =>
    cases op with
    | read now chunks later others => exact ⟨now, chunks, later, others, inline, time, rfl⟩
    | connect | watch | readFailed => cases hHeard
  | runTick | event => cases hHeard

theorem tick_unheard {feedOp : FeedOp} {sourceOp : SourceOp} {src : TickSource}
    {tick : Option TickRecord} (hWatching : st.watching = true)
    (hWatched : tickCodes.length ≤ st.feed.source.watched)
    (hHeard : st.heard parse feedOp = none) (hSource : feedOp.source? = some sourceOp)
    (hTick : st.feed.source.step parse number fromString symbol sourceOp = some (src, tick)) :
    tick = none := by
  cases feedOp with
  | source op inline time =>
    obtain rfl := Option.some.inj hSource
    cases op with
    | read now chunks later others =>
      rcases heard_cases hWatching hWatched hTick with ⟨-, hNone⟩ | ⟨v, m, hSome, -⟩
      · exact hNone
      · cases hHeard.symm.trans hSome
    | connect | watch | readFailed => exact (Prod.mk.inj (Option.some.inj hTick)).2.symm
  | runTick | event => cases hSource

theorem tick_cutOff {src src' : TickSource} {now later : TimestampType} {chunks : List String}
    {tick : Option TickRecord}
    (hTick : src.step parse number fromString symbol (.read now chunks later .throwFirst) =
      some (src', tick)) : tick = none := by
  cases hMessage : src.message with
  | none =>
    rw [TickSource.step, hMessage] at hTick
    exact (Prod.mk.inj (Option.some.inj hTick)).2.symm
  | some m =>
    rw [TickSource.step_read hMessage] at hTick
    simp only [ne_eq, not_true_eq_false, decide_false, Bool.and_false, Bool.false_eq_true,
      if_false] at hTick
    exact (Prod.mk.inj (Option.some.inj hTick)).2.symm

/-- The text that the logger sends says the tick of the message, and if it sends none there is none. -/
theorem tickOf_slot {v : Json} {m : InboundMessage} {text : String} {sent : Option String}
    (hParse : parse text = some v) (hObject : m.object = MessageReads.objectOf v)
    (hView : m.view = text) (hSlot : logSlot (nativeSymbol symbol) m = .ok sent) :
    (tickOf parse number fromString symbol text).toList =
      sent.toList.filterMap (tickOf parse number fromString symbol) := by
  obtain ⟨p, hp, ⟨-, rfl⟩ | ⟨hOther, rfl⟩⟩ := logSlot_ok hSlot
  · rw [hView]
    cases h : tickOf parse number fromString symbol text <;> simp [h]
  · rw [tickOf_other hParse]
    · rfl
    · intro p' hp'
      obtain rfl := Option.some.inj (hp.symm.trans (hObject.trans hp'))
      exact hOther

theorem watched_next {src src' : TickSource} {sourceOp : SourceOp}
    (hNext : TickSource.next parse number fromString symbol src sourceOp = some src') :
    src.watched ≤ src'.watched := by
  obtain ⟨⟨src', tick⟩, hStep, rfl⟩ := Option.map_eq_some_iff.mp hNext
  cases sourceOp with
  | connect | readFailed =>
    obtain ⟨rfl, -⟩ := Prod.mk.inj (Option.some.inj hStep)
    exact le_rfl
  | watch =>
    obtain ⟨rfl, -⟩ := Prod.mk.inj (Option.some.inj hStep)
    exact Nat.le_succ _
  | read now chunks later others =>
    cases hMessage : src.message with
    | none =>
      rw [TickSource.step, hMessage] at hStep
      obtain ⟨rfl, -⟩ := Prod.mk.inj (Option.some.inj hStep)
      exact le_rfl
    | some m =>
      rw [TickSource.step_read hMessage] at hStep
      dsimp only at hStep
      split at hStep
      · obtain ⟨tick', -, hStep⟩ := Option.map_eq_some_iff.mp hStep
        obtain ⟨rfl, -⟩ := Prod.mk.inj hStep
        exact le_rfl
      · obtain ⟨rfl, -⟩ := Prod.mk.inj (Option.some.inj hStep)
        exact le_rfl

/-- What a step of the feed can do: the logger sends `sent`, and the feed takes the step `rest`. -/
theorem step_feed {feedOp : FeedOp} {between : Bool}
    (hStep : st.step parse number fromString symbol ch (.feed feedOp between) = some st') :
    ∃ sent log rest, run (DataLog.step ch true) st.log (sent.map LogOp.send) = some log ∧
      { st with log }.next parse number fromString symbol rest = some st' ∧
      (st.heard parse feedOp = none ∧ sent = [] ∧
          rest = (if between then feedOp.cutOff else feedOp) ∨
        ∃ m, st.heard parse feedOp = some m ∧
          (logSlot (nativeSymbol symbol) m = .throws ∧ sent = [] ∧ rest = feedOp.cutOff ∨
            ∃ text : Option String, logSlot (nativeSymbol symbol) m = .ok text ∧
              sent = text.toList ∧ rest = if between then feedOp.cutOff else feedOp)) := by
  simp only [LoggedFeed.step] at hStep
  split at hStep
  · rename_i hHeard
    exact ⟨[], st.log, _, rfl, hStep, .inl ⟨hHeard, rfl, rfl⟩⟩
  · rename_i m hHeard
    cases hSlot : logSlot (nativeSymbol symbol) m with
    | undefined =>
      rw [hSlot] at hStep
      cases hStep
    | throws =>
      rw [hSlot] at hStep
      exact ⟨[], st.log, _, rfl, hStep, .inr ⟨m, hHeard, .inl ⟨hSlot, rfl, rfl⟩⟩⟩
    | ok text =>
      rw [hSlot] at hStep
      cases text with
      | none =>
        exact ⟨[], st.log, _, rfl, hStep, .inr ⟨m, hHeard, .inr ⟨none, hSlot, rfl, rfl⟩⟩⟩
      | some text =>
        obtain ⟨st₁, hSend, hNext⟩ := Option.bind_eq_some_iff.mp hStep
        obtain ⟨log, hLog, rfl⟩ := logStep_cases hSend
        exact ⟨[text], log, _, by simpa using hLog, hNext,
          .inr ⟨m, hHeard, .inr ⟨some text, hSlot, rfl, rfl⟩⟩⟩

theorem sent_sends {log log' : DataLog σ} {sent : List String}
    (hRun : run (DataLog.step ch true) log (sent.map LogOp.send) = some log') :
    log'.sent = log.sent ++ sent := by
  induction sent generalizing log with
  | nil =>
    obtain rfl := Option.some.inj hRun
    exact (List.append_nil _).symm
  | cons text sent ih =>
    obtain ⟨log₁, hFirst, hRest⟩ := Option.bind_eq_some_iff.mp hRun
    rw [ih hRest, DataLog.sent_step hFirst, LogOp.texts, List.append_assoc]
    rfl

/-- The step lemma, while the logger watches. -/
theorem step_replays (hWatched : tickCodes.length ≤ st.feed.source.watched)
    (hBetween : op.isBetween = false)
    (hStep : st.step parse number fromString symbol ch op = some st')
    (hKept : st'.watching = true) :
    ∃ texts events, Replays parse number fromString symbol st st' texts events := by
  have hQuiet : ∀ {logOp : LogOp}, logOp.texts = [] → st.logStep ch logOp = some st' →
      ∃ texts events, Replays parse number fromString symbol st st' texts events := by
    intro logOp hTexts hStep
    obtain ⟨log, hLog, rfl⟩ := logStep_cases hStep
    refine ⟨[], [], ?_, by simp, rfl, by simp [ListenerRun.ticksOf]⟩
    rw [← hTexts]
    exact DataLog.sent_step hLog
  cases op with
  | runHandler => exact hQuiet rfl hStep
  | writeDone ec => exact hQuiet rfl hStep
  | destroy =>
    simp only [LoggedFeed.step] at hStep
    split at hStep
    · obtain ⟨log, -, rfl⟩ := logStep_cases hStep
      cases hKept
    · rename_i hNot
      obtain rfl := Option.some.inj hStep
      exact absurd hKept hNot
  | feed op between =>
    obtain rfl : between = false := hBetween
    obtain ⟨sent, log, rest, hSends, hNext, hCalled⟩ := step_feed hStep
    simp only [Bool.false_eq_true, if_false] at hCalled
    have hWatching : st.watching = true := by
      obtain ⟨feed, -, rfl⟩ := next_cases hNext
      exact hKept
    refine ⟨sent, replays_next (sent_sends hSends) hNext (fun sourceOp src tick hSource hTick => ?_)
      fun hNone => ?_⟩
    · rcases hCalled with ⟨hHeard, rfl, rfl⟩ | ⟨m, hHeard, hSlot⟩
      · rw [tick_unheard hWatching hWatched hHeard hSource hTick]
        rfl
      · obtain ⟨now, chunks, later, others, inline, time, rfl⟩ := source_of_heard hHeard
        rcases hSlot with ⟨-, rfl, rfl⟩ | ⟨text, hSlot, rfl, rfl⟩
        · obtain rfl := Option.some.inj hSource
          rw [tick_cutOff hTick]
          rfl
        · obtain rfl := Option.some.inj hSource
          rcases heard_cases hWatching hWatched hTick with
            ⟨hNot, -⟩ | ⟨v, m', hSome, hParse, hObject, hView, rfl⟩
          · cases hNot.symm.trans hHeard
          · obtain rfl := Option.some.inj (hHeard.symm.trans hSome)
            exact tickOf_slot hParse hObject hView hSlot
    · rcases hCalled with ⟨-, rfl, -⟩ | ⟨m, hHeard, hSlot⟩
      · rfl
      · obtain ⟨now, chunks, later, others, inline, time, rfl⟩ := source_of_heard hHeard
        rcases hSlot with ⟨-, rfl, rfl⟩ | ⟨text, -, rfl, rfl⟩ <;> cases hNone

/-- What happens to the log in a step. -/
theorem step_log (hStep : st.step parse number fromString symbol ch op = some st') :
    (∃ logOps, run (DataLog.step ch true) st.log logOps = some st'.log) ∧
      (st.watching = false → st'.log.sent = st.log.sent) := by
  have hQuiet : ∀ (watching : Bool) {logOp : LogOp}, logOp.texts = [] →
      { st with watching }.logStep ch logOp = some st' →
      (∃ logOps, run (DataLog.step ch true) st.log logOps = some st'.log) ∧
        (st.watching = false → st'.log.sent = st.log.sent) := by
    intro watching logOp hTexts hStep
    obtain ⟨log, hLog, rfl⟩ := logStep_cases hStep
    refine ⟨⟨[logOp], by simpa using hLog⟩, fun _ => ?_⟩
    rw [DataLog.sent_step hLog, hTexts, List.append_nil]
  cases op with
  | runHandler => exact hQuiet st.watching rfl hStep
  | writeDone ec => exact hQuiet st.watching rfl hStep
  | destroy =>
    simp only [LoggedFeed.step] at hStep
    split at hStep
    · exact hQuiet false rfl hStep
    · obtain rfl := Option.some.inj hStep
      exact ⟨⟨[], rfl⟩, fun _ => rfl⟩
  | feed op between =>
    obtain ⟨sent, log, rest, hSends, hNext, hCalled⟩ := step_feed hStep
    obtain ⟨feed, -, rfl⟩ := next_cases hNext
    refine ⟨⟨_, hSends⟩, fun hNot => ?_⟩
    rw [sent_sends hSends]
    rcases hCalled with ⟨-, rfl, -⟩ | ⟨m, hHeard, -⟩
    · exact List.append_nil _
    · obtain ⟨now, chunks, later, others, inline, time, rfl⟩ := source_of_heard hHeard
      obtain ⟨_, -, hHeard⟩ := Option.bind_eq_some_iff.mp hHeard
      simp [hNot] at hHeard

theorem step_kept (hStep : st.step parse number fromString symbol ch op = some st') :
    st.feed.source.watched ≤ st'.feed.source.watched ∧
      (st'.watching = true → st.watching = true) := by
  cases op with
  | runHandler | writeDone =>
    obtain ⟨log, -, rfl⟩ := logStep_cases hStep
    exact ⟨le_rfl, id⟩
  | destroy =>
    simp only [LoggedFeed.step] at hStep
    split at hStep
    · obtain ⟨log, -, rfl⟩ := logStep_cases hStep
      exact ⟨le_rfl, nofun⟩
    · obtain rfl := Option.some.inj hStep
      exact ⟨le_rfl, id⟩
  | feed op between =>
    obtain ⟨sent, log, rest, -, hNext, -⟩ := step_feed hStep
    obtain ⟨feed, hFeed, rfl⟩ := next_cases hNext
    refine ⟨?_, id⟩
    exact run_invariant (I := fun src => st.feed.source.watched ≤ src.watched)
      (fun _ _ _ h hSource => h.trans (watched_next hSource)) le_rfl (MarketFeed.step_cases hFeed).1

theorem watching_of_run {ops : List LoggedOp}
    (hRun : run (step parse number fromString symbol ch) st ops = some st')
    (hKept : st'.watching = true) : st.watching = true := by
  by_contra hNot
  exact run_invariant (I := fun st : LoggedFeed σ => st.watching ≠ true)
    (fun _ _ _ h hStep hAgain => h ((step_kept hStep).2 hAgain)) hNot hRun hKept

/-- The run lemma. -/
theorem replays_of_run {ops : List LoggedOp}
    (hWatched : tickCodes.length ≤ st.feed.source.watched)
    (hBetween : ∀ op ∈ ops, op.isBetween = false)
    (hRun : run (step parse number fromString symbol ch) st ops = some st')
    (hKept : st'.watching = true) :
    ∃ texts events, Replays parse number fromString symbol st st' texts events := by
  induction ops generalizing st with
  | nil =>
    obtain rfl := Option.some.inj hRun
    exact ⟨[], [], .refl st⟩
  | cons op ops ih =>
    obtain ⟨st₁, hStep, hRest⟩ := Option.bind_eq_some_iff.mp hRun
    obtain ⟨texts, events, h⟩ :=
      step_replays hWatched (hBetween op (by simp)) hStep (watching_of_run hRest hKept)
    obtain ⟨texts', events', h'⟩ := ih (hWatched.trans (step_kept hStep).1)
      (fun op hMem => hBetween op (by simp [hMem])) hRest
    exact ⟨texts ++ texts', events ++ events', h.trans h'⟩

/-- While both watch and no slot between theirs throws, what the logger sends to its log says the ticks
that the listener gets, in the same order, however the listener's executor falls behind. The file has
the first of these texts, and once the logger is destroyed and its log is through with no failed write
it has all of them. -/
theorem replays_run (ch : Channel σ Payload) (queue : σ → List Payload) (Waiting Open : σ → Prop)
    (hChannel : ch.IsFifo 1024 queue Waiting Open) (channel : σ) (hOpen : Open channel)
    (hWaiting : ¬Waiting channel) (hQueue : queue channel = []) (created : TimestampType)
    (before ops : List LoggedOp)
    (hBefore : run (step parse number fromString symbol ch) (start symbol created channel) before =
      some st)
    (hWatched : tickCodes.length ≤ st.feed.source.watched)
    (hBetween : ∀ op ∈ ops, op.isBetween = false)
    (hRun : run (step parse number fromString symbol ch) st ops = some st')
    (hKept : st'.watching = true) :
    ∃ texts events, Replays parse number fromString symbol st st' texts events ∧
      st'.log.file <+: st'.log.lines ∧
      ∀ after st'', run (step parse number fromString symbol ch) st' (.destroy :: after) =
        some st'' → st''.log.writer = .stopped → st''.log.failed = false →
        st''.log.file = st'.log.lines := by
  have hOrdered : ∀ {ops : List LoggedOp} {st : LoggedFeed σ},
      run (step parse number fromString symbol ch) (start symbol created channel) ops = some st →
      DataLog.Ordered queue Waiting Open true [] st.log := by
    intro ops st hRun
    refine run_invariant (I := fun st : LoggedFeed σ =>
      DataLog.Ordered queue Waiting Open true [] st.log) (fun st op st' h hStep => ?_)
      (DataLog.ordered_start hOpen hWaiting hQueue) hRun
    obtain ⟨⟨logOps, hLog⟩, -⟩ := step_log hStep
    exact run_invariant (fun _ _ _ h hStep => h.step hChannel hStep) h hLog
  have hAll : run (step parse number fromString symbol ch) (start symbol created channel)
      (before ++ ops) = some st' := by
    rw [run_append, hBefore]
    exact hRun
  obtain ⟨texts, events, hReplays⟩ := replays_of_run hWatched hBetween hRun hKept
  refine ⟨texts, events, hReplays, (hOrdered hAll).written, fun after st'' hAfter hStopped hFine => ?_⟩
  have hEnd : run (step parse number fromString symbol ch) (start symbol created channel)
      (before ++ ops ++ .destroy :: after) = some st'' := by
    rw [run_append, hAll]
    exact hAfter
  rw [((hOrdered hEnd).whole hStopped hFine).2]
  obtain ⟨st₁, hDestroy, hRest⟩ := Option.bind_eq_some_iff.mp hAfter
  simp only [LoggedFeed.step, hKept, if_true] at hDestroy
  obtain ⟨log, hLog, rfl⟩ := logStep_cases hDestroy
  have hSame : log.sent = st'.log.sent := (DataLog.sent_step hLog).trans (List.append_nil _)
  refine congrArg (List.map (· ++ "\n")) (Eq.trans ?_ hSame)
  refine (run_invariant (I := fun st₁ : LoggedFeed σ =>
    st₁.watching = false ∧ st₁.log.sent = log.sent) (fun st₁ op st₂ h hStep => ?_) ⟨rfl, rfl⟩ hRest).2
  refine ⟨?_, ((step_log hStep).2 h.1).trans h.2⟩
  by_contra hNot
  rw [Bool.not_eq_false] at hNot
  cases h.1.symm.trans ((step_kept hStep).2 hNot)

/-- The listener watches, and the log begins to wait. -/
def loggedBefore : List LoggedOp :=
  [.feed (.source .watch false 0) false, .feed (.source .watch false 0) false, .runHandler,
    .feed (.source .watch false 0) false, .feed (.source .watch false 0) false,
    .feed (.source .connect false 0) false]

/-- A snapshot, which is written, an order of another market, and an order, which waits. -/
def loggedReads : List LoggedOp :=
  [.feed (.source (.read 1 [MarketFeed.snapshotText] 2 .silent) false 0) false, .runHandler,
    .feed (.source (.read 3 [MarketFeed.addedText "ETH-USD" "3"] 4 .silent) false 0) false,
    .writeDone false, .feed (.runTick 5) false,
    .feed (.source (.read 6 [MarketFeed.addedText "BTC-USD" "1"] 7 .silent) true 8) false]

def loggedRun (ops : List LoggedOp) : LoggedFeed (Fifo Payload) :=
  (run (step MarketFeed.wireParse MarketFeed.wireNumber MarketFeed.wireSide
    (.spot MarketFeed.btcUsd) (Fifo.channel 1024))
    (start (.spot MarketFeed.btcUsd) 0 (Fifo.holding [])) ops).getD
    (start (.spot MarketFeed.btcUsd) 0 (Fifo.holding []))

theorem loggedReads_replay : ∃ texts events,
    Replays MarketFeed.wireParse MarketFeed.wireNumber MarketFeed.wireSide
      (.spot MarketFeed.btcUsd) (loggedRun loggedBefore) (loggedRun (loggedBefore ++ loggedReads))
      texts events ∧
      (loggedRun (loggedBefore ++ loggedReads)).log.file <+:
        (loggedRun (loggedBefore ++ loggedReads)).log.lines ∧
      ∀ after st'', run (step MarketFeed.wireParse MarketFeed.wireNumber MarketFeed.wireSide
          (.spot MarketFeed.btcUsd) (Fifo.channel 1024)) (loggedRun (loggedBefore ++ loggedReads))
          (.destroy :: after) = some st'' →
        st''.log.writer = .stopped → st''.log.failed = false →
        st''.log.file = (loggedRun (loggedBefore ++ loggedReads)).log.lines := by
  have hBefore : run (step MarketFeed.wireParse MarketFeed.wireNumber MarketFeed.wireSide
      (.spot MarketFeed.btcUsd) (Fifo.channel 1024))
      (start (.spot MarketFeed.btcUsd) 0 (Fifo.holding [])) loggedBefore =
        some (loggedRun loggedBefore) := (Option.getD_of_ne_none (by decide +kernel) _).symm
  have hAll : run (step MarketFeed.wireParse MarketFeed.wireNumber MarketFeed.wireSide
      (.spot MarketFeed.btcUsd) (Fifo.channel 1024))
      (start (.spot MarketFeed.btcUsd) 0 (Fifo.holding [])) (loggedBefore ++ loggedReads) =
        some (loggedRun (loggedBefore ++ loggedReads)) :=
    (Option.getD_of_ne_none (by decide +kernel) _).symm
  rw [run_append, hBefore] at hAll
  exact replays_run (Fifo.channel 1024) Fifo.queue Fifo.Waiting Fifo.Open (Fifo.channel_isFifo 1024)
    (.holding []) trivial id rfl 0 loggedBefore loggedReads hBefore (by decide +kernel)
    (by decide +kernel) hAll (by decide +kernel)

end LoggedFeed

end Decoding

end Arby.PowerTrade
