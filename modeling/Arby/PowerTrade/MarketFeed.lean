import Arby.PowerTrade.ListenerView
import Arby.PowerTrade.MessageReads
import Arby.PowerTrade.NativeSymbol
import Arby.PowerTrade.TickDecoding

/-! A listener on its connector. Where a message is read, it is filtered and decoded; its tick then
crosses over to the executor of the listener, which runs the ticks among its other events. The two
sides take their steps in any order. -/

namespace Arby.PowerTrade

open Trading Kit

/-- The type of the messages that have the ticks of a kind. -/
def TickCode.messageType : TickCode → String
  | .snapshot => "snapshot"
  | .add => "order_added"
  | .remove => "order_deleted"
  | .execute => "order_executed"

/-- The kinds of ticks, in the order in which `run` watches them. -/
def tickCodes : List TickCode := [.snapshot, .add, .remove, .execute]

def makeMessageFilter (symbol : MarketKey) : List (String × String) :=
  [("symbol", nativeSymbol symbol), ("market_id", "0")]

/-- `filter_message`: whether the message goes on to the next function. -/
def filterMessage (filters : List (String × String)) (p : JsonObject) : Bool :=
  filters.all fun (k, v) => (p.ifContains k).elim false fun pv => pv.ifString = some v

/-- What the slots of other watchers do with a message. One that throws ends the loop, and the slots
after it are not called. -/
inductive OtherSlots
  | silent
  | throwFirst
  | throwLast
deriving DecidableEq, Repr

/-- The connector's side of a listener: the message of `receive_loop`, `none` when no loop runs, and
the number of kinds of ticks that are watched. `sent` are the ticks that were dispatched. -/
structure TickSource where
  message : Option InboundMessage := none
  watched : ℕ := 0
  sent : List TickRecord := []

inductive SourceOp
  | connect
  /-- `run` watches the next kind of ticks. -/
  | watch
  | read (now : TimestampType) (chunks : List String) (later : TimestampType) (others : OtherSlots)
  | readFailed

section Decoding

variable (parse : String → Option Json) (number : String → Option ℚ)
  (fromString : String → Option SideType) (symbol : MarketKey)

namespace TickSource

/-- What the slot of a kind of ticks dispatches for a message, `none` when it reads the object of
a message that has none, or decodes what has no defined value. -/
def handle (code : TickCode) (m : InboundMessage) : Option (Option TickRecord) := do
  let p ← m.object
  if filterMessage (makeMessageFilter symbol) p then
    match construct2 number fromString code p with
    | .ok tick => some (some tick)
    | .throws => some none
    | .undefined => none
  else some none

/-- The slots of the signal for the message's type: the listener has at most one there. -/
def handleMessage (src : TickSource) (m : InboundMessage) : Option (Option TickRecord) :=
  match (tickCodes.take src.watched).find? fun code => code.messageType = m.type with
  | none => some none
  | some code => handle number fromString symbol code m

/-- One step, and the tick that it dispatches. -/
def step (src : TickSource) : SourceOp → Option (TickSource × Option TickRecord)
  | .connect => some ({ src with message := some {} }, none)
  | .watch => some ({ src with watched := src.watched + 1 }, none)
  | .read now chunks later others =>
    match src.message with
    | none => some (src, none)
    | some m =>
      let result := MessageReads.readInto parse m now chunks later
      if result.2 && others ≠ .throwFirst then
        (src.handleMessage number fromString symbol result.1).map fun tick => ({ src with
          message := if others = .silent then some result.1 else none
          sent := src.sent ++ tick.toList }, tick)
      else some ({ src with message := none }, none)
  | .readFailed => some ({ src with message := none }, none)

/-- The steps of the connector's side alone. -/
def next (src : TickSource) (op : SourceOp) : Option TickSource :=
  (src.step parse number fromString symbol op).map Prod.fst

end TickSource

/-- `waiting` are the calls of `on_tick` that were dispatched to the listener's executor and have not
run. -/
structure MarketFeed where
  source : TickSource := {}
  waiting : List TickRecord := []
  listener : ListenerRun

inductive FeedOp
  /-- A step on the connector's executor. `inline` says whether the executor of the listener runs at
  once what is dispatched to it, at time `now`. It does not while other calls wait there. -/
  | source (op : SourceOp) (inline : Bool) (now : TimestampType)
  /-- The listener's executor runs the call that has waited longest. -/
  | runTick (now : TimestampType)
  /-- Any other event of the listener. -/
  | event (op : ListenerOp) (quiet : op.tick? = none)

def FeedOp.source? : FeedOp → Option SourceOp
  | .source op _ _ => some op
  | _ => none

def FeedOp.event? : FeedOp → Option ListenerOp
  | .event op _ => some op
  | _ => none

namespace MarketFeed

def onTick (st : MarketFeed) (tick : TickRecord) (now : TimestampType) : Option MarketFeed := do
  let listener ← st.listener.step (.onTick tick now)
  return { st with listener }

def dispatch (st : MarketFeed) (tick : TickRecord) (inline : Bool) (now : TimestampType) :
    Option MarketFeed :=
  if inline && st.waiting.isEmpty then st.onTick tick now
  else some { st with waiting := st.waiting ++ [tick] }

def step (st : MarketFeed) : FeedOp → Option MarketFeed
  | .source op inline now => do
    let (source, tick) ← st.source.step parse number fromString symbol op
    match tick with
    | none => return { st with source }
    | some tick => dispatch { st with source } tick inline now
  | .runTick now =>
    match st.waiting with
    | [] => some st
    | tick :: waiting => onTick { st with waiting } tick now
  | .event op _ => do
    let listener ← st.listener.step op
    return { st with listener }

def start (symbol : MarketKey) (created : TimestampType) : MarketFeed :=
  { listener := .start symbol created }

end MarketFeed

variable {parse number fromString symbol}

theorem TickSource.step_sent {src src' : TickSource} {op : SourceOp} {tick : Option TickRecord}
    (hStep : src.step parse number fromString symbol op = some (src', tick)) :
    src'.sent = src.sent ++ tick.toList := by
  have hNone : ∀ {src₁ : TickSource}, some (src₁, none) = some (src', tick) →
      src₁.sent = src.sent → src'.sent = src.sent ++ tick.toList := by
    intro src₁ hEq hSent
    obtain ⟨rfl, rfl⟩ := Prod.mk.inj (Option.some.inj hEq)
    rw [hSent, Option.toList_none, List.append_nil]
  cases op with
  | connect | watch | readFailed => exact hNone hStep rfl
  | read now chunks later others =>
    simp only [TickSource.step] at hStep
    cases hMessage : src.message with
    | none =>
      rw [hMessage] at hStep
      exact hNone hStep rfl
    | some m =>
      simp only [hMessage] at hStep
      split at hStep
      · obtain ⟨tick', -, hStep⟩ := Option.map_eq_some_iff.mp hStep
        obtain ⟨rfl, rfl⟩ := Prod.mk.inj hStep
        rfl
      · exact hNone hStep rfl

theorem TickSource.sent_isPrefix {src src' : TickSource} {ops : List SourceOp}
    (hRun : run (next parse number fromString symbol) src ops = some src') :
    src.sent <+: src'.sent := by
  refine run_invariant (I := fun src' => src.sent <+: src'.sent) (fun src₁ op src₂ h hStep => ?_)
    List.prefix_rfl hRun
  obtain ⟨⟨src₂', tick⟩, hPair, rfl⟩ := Option.map_eq_some_iff.mp hStep
  rw [step_sent hPair]
  exact h.trans (List.prefix_append ..)

namespace MarketFeed

variable {st st₁ st' : MarketFeed} {op : FeedOp} {events events' : List ListenerOp}

/-- From one state to the other the listener goes through `events`. Their ticks are the first that
were waiting or are new, and the others wait. -/
structure Advances (st st' : MarketFeed) (events : List ListenerOp) : Prop where
  listener : run ListenerRun.step st.listener events = some st'.listener
  ticks : ∃ new, st'.source.sent = st.source.sent ++ new ∧
    ListenerRun.ticksOf events ++ st'.waiting = st.waiting ++ new

theorem Advances.refl (st : MarketFeed) : st.Advances st [] :=
  ⟨rfl, [], by simp, by simp [ListenerRun.ticksOf]⟩

theorem Advances.trans (h : st.Advances st₁ events) (h' : st₁.Advances st' events') :
    st.Advances st' (events ++ events') := by
  obtain ⟨new, hSent, hTicks⟩ := h.ticks
  obtain ⟨new', hSent', hTicks'⟩ := h'.ticks
  refine ⟨by rw [run_append, h.listener]; exact h'.listener, new ++ new', ?_, ?_⟩
  · rw [hSent', hSent, List.append_assoc]
  · rw [ListenerRun.ticksOf, List.filterMap_append, List.append_assoc]
    change ListenerRun.ticksOf events ++ (ListenerRun.ticksOf events' ++ st'.waiting) = _
    rw [hTicks', ← List.append_assoc, hTicks, List.append_assoc]

/-- What one step does to the two sides. -/
theorem step_cases (hStep : st.step parse number fromString symbol op = some st') :
    run (TickSource.next parse number fromString symbol) st.source op.source?.toList =
        some st'.source ∧
      ∃ events, st.Advances st' events ∧
        events.filter (fun op => op.tick?.isNone) = op.event?.toList := by
  cases op with
  | source op inline now =>
    obtain ⟨⟨source, tick⟩, hSource, hStep⟩ := Option.bind_eq_some_iff.mp hStep
    have hNext : run (TickSource.next parse number fromString symbol) st.source [op] =
        some source := by
      simp [TickSource.next, hSource]
    have hSent := TickSource.step_sent hSource
    cases tick with
    | none =>
      obtain rfl := Option.some.inj hStep
      exact ⟨hNext, [], ⟨rfl, [], hSent, by simp [ListenerRun.ticksOf]⟩, rfl⟩
    | some tick =>
      simp only [dispatch] at hStep
      split at hStep
      · rename_i hInline
        obtain ⟨listener, hTick, hStep⟩ := Option.bind_eq_some_iff.mp hStep
        obtain rfl := Option.some.inj hStep
        have hNone : st.waiting = [] := List.isEmpty_iff.mp (Bool.and_eq_true_iff.mp hInline).2
        refine ⟨hNext, [.onTick tick now], ⟨by simpa using hTick, [tick], hSent, ?_⟩, rfl⟩
        simp [ListenerRun.ticksOf, ListenerOp.tick?, hNone]
      · obtain rfl := Option.some.inj hStep
        exact ⟨hNext, [], ⟨rfl, [tick], hSent, rfl⟩, rfl⟩
  | runTick now =>
    simp only [step] at hStep
    cases hWaiting : st.waiting with
    | nil =>
      rw [hWaiting] at hStep
      obtain rfl := Option.some.inj hStep
      exact ⟨rfl, [], .refl st, rfl⟩
    | cons tick waiting =>
      rw [hWaiting] at hStep
      obtain ⟨listener, hTick, hStep⟩ := Option.bind_eq_some_iff.mp hStep
      obtain rfl := Option.some.inj hStep
      refine ⟨rfl, [.onTick tick now], ⟨by simpa using hTick, [], by simp, ?_⟩, rfl⟩
      simp [ListenerRun.ticksOf, ListenerOp.tick?, hWaiting]
  | event op quiet =>
    obtain ⟨listener, hEvent, hStep⟩ := Option.bind_eq_some_iff.mp hStep
    obtain rfl := Option.some.inj hStep
    refine ⟨rfl, [op], ⟨by simpa using hEvent, [], by simp, ?_⟩, ?_⟩
    · simp [ListenerRun.ticksOf, quiet]
    · simp [FeedOp.event?, quiet]

theorem advances_run {ops : List FeedOp}
    (hRun : run (step parse number fromString symbol) st ops = some st') :
    run (TickSource.next parse number fromString symbol) st.source (ops.filterMap FeedOp.source?) =
        some st'.source ∧
      ∃ events, st.Advances st' events ∧
        events.filter (fun op => op.tick?.isNone) = ops.filterMap FeedOp.event? := by
  induction ops generalizing st with
  | nil =>
    obtain rfl := Option.some.inj hRun
    exact ⟨rfl, [], .refl st, rfl⟩
  | cons op ops ih =>
    obtain ⟨st₁, hStep, hRest⟩ := Option.bind_eq_some_iff.mp hRun
    obtain ⟨hSource, events, hAdvances, hQuiet⟩ := step_cases hStep
    obtain ⟨hSource', events', hAdvances', hQuiet'⟩ := ih hRest
    have hCons : ∀ {α : Type} (f : FeedOp → Option α),
        (op :: ops).filterMap f = (f op).toList ++ ops.filterMap f := by
      intro α f
      cases h : f op <;> simp [h]
    refine ⟨?_, events ++ events', hAdvances.trans hAdvances', ?_⟩
    · rw [hCons, run_append, hSource]
      exact hSource'
    · rw [hCons, List.filter_append, hQuiet, hQuiet']

/-- However the steps of the two executors interleave, the listener runs as one that is given the
ticks of its messages among its other events, which come in their own order: the ticks that it has
had and those that wait are the ones that were sent, in the order of their messages, which depends on
the connector's steps alone. -/
theorem takesInOrder_run (created : TimestampType) (ops : List FeedOp)
    (hRun : run (step parse number fromString symbol) (start symbol created) ops = some st) :
    run (TickSource.next parse number fromString symbol) {} (ops.filterMap FeedOp.source?) =
        some st.source ∧
      ∃ events, run ListenerRun.step (.start symbol created) events = some st.listener ∧
        ListenerRun.ticksOf events ++ st.waiting = st.source.sent ∧
        events.filter (fun op => op.tick?.isNone) = ops.filterMap FeedOp.event? := by
  obtain ⟨hSource, events, ⟨hListener, new, hSent, hTicks⟩, hQuiet⟩ := advances_run hRun
  refine ⟨hSource, events, hListener, ?_, hQuiet⟩
  rw [hTicks, hSent]
  rfl

/-! A snapshot and an added order of one market, and an added order of another. -/

def snapshotText : String :=
  "\x7b\"snapshot\":\x7b\"symbol\":\"BTC-USD\",\"market_id\":\"0\",\"buy\":[],\"sell\":[]\x7d\x7d"

def addedText (symbol orderId : String) : String :=
  "\x7b\"order_added\":\x7b\"symbol\":\"" ++ symbol ++ "\",\"market_id\":\"0\",\"order_id\":\"" ++
    orderId ++ "\",\"price\":\"39628\",\"quantity\":\"1\",\"utc_timestamp\":\"5\",\"side\":\"buy\"\x7d\x7d"

def addedObject (symbol orderId : String) : Json :=
  .object [("order_added", .object [("symbol", .string symbol), ("market_id", .string "0"),
    ("order_id", .string orderId), ("price", .string "39628"), ("quantity", .string "1"),
    ("utc_timestamp", .string "5"), ("side", .string "buy")])]

/-- A parser that knows these texts. -/
def wireParse (s : String) : Option Json :=
  if s = snapshotText then
    some (.object [("snapshot", .object [("symbol", .string "BTC-USD"), ("market_id", .string "0"),
      ("buy", .array []), ("sell", .array [])])])
  else if s = addedText "BTC-USD" "1" then some (addedObject "BTC-USD" "1")
  else if s = addedText "BTC-USD" "2" then some (addedObject "BTC-USD" "2")
  else if s = addedText "ETH-USD" "3" then some (addedObject "ETH-USD" "3")
  else none

def wireNumber (s : String) : Option ℚ :=
  if s = "39628" then some 39628 else if s = "1" then some 1 else none

def wireSide (s : String) : Option SideType :=
  if s = "buy" then some .buy else if s = "sell" then some .sell else none

/-- One tick waits for a while, one runs at once, and one still waits. -/
def twoMarkets : List FeedOp :=
  [.source .watch false 0, .source .watch false 0, .source .watch false 0, .source .watch false 0,
    .source .connect false 0, .event .subscribe rfl, .event (.onConnectionState { ec := 0 }) rfl,
    .source (.read 1 [snapshotText] 2 .silent) false 0,
    .source (.read 3 [addedText "ETH-USD" "3"] 4 .silent) false 0, .runTick 5,
    .source (.read 6 [addedText "BTC-USD" "1"] 7 .silent) true 8,
    .source (.read 9 [addedText "BTC-USD" "2"] 10 .silent) false 0]

def btcUsd : SpotMarketKey := ⟨"btc", "usd"⟩

def twoMarketsEnd : MarketFeed :=
  (run (step wireParse wireNumber wireSide (.spot btcUsd)) (start (.spot btcUsd) 0)
    twoMarkets).getD (start (.spot btcUsd) 0)

theorem twoMarkets_inOrder :
    run (TickSource.next wireParse wireNumber wireSide (.spot btcUsd)) {}
        (twoMarkets.filterMap FeedOp.source?) = some twoMarketsEnd.source ∧
      ∃ events, run ListenerRun.step (.start (.spot btcUsd) 0) events =
          some twoMarketsEnd.listener ∧
        ListenerRun.ticksOf events ++ twoMarketsEnd.waiting = twoMarketsEnd.source.sent ∧
        events.filter (fun op => op.tick?.isNone) = twoMarkets.filterMap FeedOp.event? :=
  takesInOrder_run 0 twoMarkets (Option.getD_of_ne_none (by decide +kernel) _).symm

/-! ### What the subscribers see of the messages -/

theorem session_of_isPrefix {ticks sent : List TickRecord} (h : ListenerRun.Session sent)
    (hPrefix : ticks <+: sent) : ListenerRun.Session ticks := by
  obtain ⟨rest, rfl⟩ := hPrefix
  cases ticks with
  | nil => trivial
  | cons t ts => exact ⟨h.1, fun t' ht' => h.2 t' (List.mem_append_left _ ht')⟩

theorem admits_of_isPrefix {ticks sent : List TickRecord}
    (h : Along (always LiveBook.step) LiveBook.Admits {} sent) (hPrefix : ticks <+: sent) :
    Along (always LiveBook.step) LiveBook.Admits {} ticks := by
  obtain ⟨rest, rfl⟩ := hPrefix
  exact (along_append.mp h).1

/-- The invariant: the listener is in the session of the ticks that it has had. -/
def Follows (symbol : MarketKey) (st : MarketFeed) (done : List TickRecord) : Prop :=
  done ++ st.waiting = st.source.sent ∧ ∃ log, st.listener.InSession symbol done log

theorem onTick_follows (st : MarketFeed) {done sent : List TickRecord} {tick : TickRecord}
    {log : List Issue} (h : st.listener.InSession symbol done log)
    (hSent : done ++ tick :: st.waiting = st.source.sent) (hPrefix : st.source.sent <+: sent)
    (hSession : ListenerRun.Session sent)
    (hAdmits : Along (always LiveBook.step) LiveBook.Admits {} sent) (now : TimestampType) :
    ∃ st', st.onTick tick now = some st' ∧ st'.source = st.source ∧
      Follows symbol st' (done ++ [tick]) := by
  have hDone : done ++ [tick] <+: sent := by
    refine List.IsPrefix.trans ⟨st.waiting, ?_⟩ hPrefix
    rw [List.append_assoc]
    exact hSent
  obtain ⟨-, hFirst⟩ := ListenerRun.session_concat.mp (session_of_isPrefix hSession hDone)
  obtain ⟨-, hTick⟩ := LiveBook.admits_concat.mp (admits_of_isPrefix hAdmits hDone)
  obtain ⟨listener, log', hStep, hNext⟩ := h.onTick hFirst hTick now
  refine ⟨{ st with listener }, by rw [onTick, hStep]; rfl, rfl, ?_, log', hNext⟩
  rw [List.append_assoc]
  exact hSent

theorem Follows.step {done sent : List TickRecord} {src : TickSource}
    (h : Follows symbol st done)
    (hSource : run (TickSource.next parse number fromString symbol) st.source op.source?.toList =
      some src)
    (hPrefix : src.sent <+: sent) (hSession : ListenerRun.Session sent)
    (hAdmits : Along (always LiveBook.step) LiveBook.Admits {} sent) :
    ∃ st' done', st.step parse number fromString symbol op = some st' ∧ st'.source = src ∧
      Follows symbol st' done' := by
  obtain ⟨hSent, log, hListener⟩ := h
  cases op with
  | source op inline now =>
    obtain ⟨src', hNext, hEnd⟩ := Option.bind_eq_some_iff.mp hSource
    obtain rfl := Option.some.inj hEnd
    obtain ⟨⟨source, tick⟩, hStep, rfl⟩ := Option.map_eq_some_iff.mp hNext
    have hGrows := TickSource.step_sent hStep
    simp only [MarketFeed.step, hStep]
    cases tick with
    | none =>
      rw [Option.toList_none, List.append_nil, ← hSent] at hGrows
      exact ⟨_, done, rfl, rfl, hGrows.symm, log, hListener⟩
    | some tick =>
      rw [Option.toList_some, ← hSent, List.append_assoc] at hGrows
      simp only [Option.bind_eq_bind, Option.bind_some, dispatch]
      split
      · rename_i hInline
        have hNone : st.waiting = [] := List.isEmpty_iff.mp (Bool.and_eq_true_iff.mp hInline).2
        rw [hNone, List.nil_append] at hGrows
        obtain ⟨st', hTick, hSame, hNext⟩ := onTick_follows { st with source } hListener
          (by rw [hNone]; exact hGrows.symm) hPrefix hSession hAdmits now
        exact ⟨st', _, hTick, hSame, hNext⟩
      · exact ⟨_, done, rfl, rfl, hGrows.symm, log, hListener⟩
  | runTick now =>
    obtain rfl := Option.some.inj hSource
    simp only [MarketFeed.step]
    cases hWaiting : st.waiting with
    | nil => exact ⟨st, done, rfl, rfl, hSent, log, hListener⟩
    | cons tick waiting =>
      rw [hWaiting] at hSent
      obtain ⟨st', hTick, hSame, hNext⟩ := onTick_follows { st with waiting } hListener hSent hPrefix
        hSession hAdmits now
      exact ⟨st', _, hTick, hSame, hNext⟩
  | event op quiet =>
    obtain rfl := Option.some.inj hSource
    have hQuiet : ListenerRun.serviceOps op = [] := by
      cases op with
      | onTick => cases quiet
      | _ => rfl
    obtain ⟨listener, hStep⟩ := ListenerRun.step_returns st.listener hQuiet
    exact ⟨{ st with listener }, done, by rw [MarketFeed.step, hStep]; rfl, rfl, hSent, log,
      hListener.quiet hQuiet hStep⟩

/-- From the texts to the subscribers. When no message of the market is undefined to decode, and what
the messages say is one session that the reference admits, every interleaving of the two executors
returns. The ticks that the listener has had are the first of those that were sent, the others wait,
and every snapshot that a subscriber has shows the live orders after some number of them. -/
theorem pictures_feed (symbol : MarketKey) (created : TimestampType) (ops : List FeedOp)
    {src : TickSource}
    (hSource : run (TickSource.next parse number fromString symbol) {}
      (ops.filterMap FeedOp.source?) = some src)
    (hSession : ListenerRun.Session src.sent)
    (hAdmits : Along (always LiveBook.step) LiveBook.Admits {} src.sent) :
    ∃ st done, run (step parse number fromString symbol) (start symbol created) ops = some st ∧
      st.source = src ∧ done ++ st.waiting = src.sent ∧ st.listener.Pictures done := by
  suffices ∀ {sent : List TickRecord}, src.sent <+: sent → ListenerRun.Session sent →
      Along (always LiveBook.step) LiveBook.Admits {} sent →
      ∃ st done, run (step parse number fromString symbol) (start symbol created) ops = some st ∧
        st.source = src ∧ Follows symbol st done by
    obtain ⟨st, done, hRun, rfl, hSent, log, hListener⟩ :=
      this List.prefix_rfl hSession hAdmits
    exact ⟨st, done, hRun, rfl, hSent, hListener.pictures⟩
  clear hSession hAdmits
  intro sent hPrefix hSession hAdmits
  induction ops using List.reverseRecOn generalizing src with
  | nil =>
    obtain rfl := Option.some.inj hSource
    exact ⟨_, [], rfl, rfl, rfl, [], ListenerRun.inSession_start symbol created⟩
  | append_singleton ops op ih =>
    have hLast : [op].filterMap FeedOp.source? = op.source?.toList := by
      cases h : op.source? <;> simp [h]
    rw [List.filterMap_append, run_append, hLast] at hSource
    obtain ⟨src₁, hFirst, hOp⟩ := Option.bind_eq_some_iff.mp hSource
    obtain ⟨st, done, hRun, rfl, hFollows⟩ := ih hFirst ((TickSource.sent_isPrefix hOp).trans hPrefix)
    obtain ⟨st', done', hStep, hSame, hNext⟩ := hFollows.step hOp hPrefix hSession hAdmits
    exact ⟨st', done', by rw [run_concat, hRun]; exact hStep, hSame, hNext⟩

def twoMarketsRead : TickSource :=
  (run (TickSource.next wireParse wireNumber wireSide (.spot btcUsd)) {}
    (twoMarkets.filterMap FeedOp.source?)).getD {}

theorem twoMarkets_pictures : ∃ st done,
    run (step wireParse wireNumber wireSide (.spot btcUsd)) (start (.spot btcUsd) 0) twoMarkets =
        some st ∧ st.source = twoMarketsRead ∧ done ++ st.waiting = twoMarketsRead.sent ∧
      st.listener.Pictures done :=
  pictures_feed (.spot btcUsd) 0 twoMarkets (Option.getD_of_ne_none (by decide +kernel) _).symm
    (by decide +kernel) (by decide +kernel)

/-! ### The messages of other markets -/

end MarketFeed

/-- The read of a message about `key`, which no slot throws at. -/
def SourceOp.about (parse : String → Option Json) (key : MarketKey) : SourceOp → Bool
  | .read _ chunks _ others => others = .silent &&
    ((parse (String.join chunks)).bind MessageReads.objectOf).any fun p =>
      (p.ifContains "symbol").bind Json.ifString = some (nativeSymbol key)
  | _ => false

namespace TickSource

variable {src src' : TickSource} {op : SourceOp} {other : MarketKey}

theorem step_read {m : InboundMessage} {now later : TimestampType} {chunks : List String}
    {others : OtherSlots} (hMessage : src.message = some m) :
    src.step parse number fromString symbol (.read now chunks later others) =
      let result := MessageReads.readInto parse m now chunks later
      if result.2 && others ≠ .throwFirst then
        (src.handleMessage number fromString symbol result.1).map fun tick => ({ src with
          message := if others = .silent then some result.1 else none
          sent := src.sent ++ tick.toList }, tick)
      else some ({ src with message := none }, none) := by
  simp only [TickSource.step, hMessage]

/-- The two sides differ in the message at most. -/
structure Alike (src src' : TickSource) : Prop where
  message : src.message.isSome = src'.message.isSome
  watched : src.watched = src'.watched
  sent : src.sent = src'.sent

theorem Alike.step (h : src.Alike src') (op : SourceOp) :
    Option.Rel (fun r r' => r.1.Alike r'.1 ∧ r.2 = r'.2)
      (src.step parse number fromString symbol op) (src'.step parse number fromString symbol op) := by
  obtain ⟨message, watched, sent⟩ := src
  obtain ⟨message', watched', sent'⟩ := src'
  obtain ⟨hMessage, rfl, rfl⟩ := h
  cases op with
  | connect => exact .some ⟨⟨rfl, rfl, rfl⟩, rfl⟩
  | watch => exact .some ⟨⟨hMessage, rfl, rfl⟩, rfl⟩
  | readFailed => exact .some ⟨⟨rfl, rfl, rfl⟩, rfl⟩
  | read now chunks later others =>
    cases message with
    | none =>
      cases message' with
      | none => exact .some ⟨⟨rfl, rfl, rfl⟩, rfl⟩
      | some m' => cases hMessage
    | some m =>
      cases message' with
      | none => cases hMessage
      | some m' =>
        -- What was in the message before plays no part.
        have hSame : ∀ r, handleMessage number fromString symbol ⟨some m', watched, sent⟩ r =
            handleMessage number fromString symbol ⟨some m, watched, sent⟩ r := fun _ => rfl
        rw [step_read rfl, step_read rfl, MessageReads.readInto_eq m, MessageReads.readInto_eq m']
        simp only [hSame]
        split
        · cases handleMessage number fromString symbol ⟨some m, watched, sent⟩ _ with
          | none => exact .none
          | some tick => exact .some ⟨⟨rfl, rfl, rfl⟩, rfl⟩
        · exact .some ⟨⟨rfl, rfl, rfl⟩, rfl⟩

theorem filterMessage_other {p : JsonObject} (hNe : nativeSymbol symbol ≠ nativeSymbol other)
    (hAbout : (p.ifContains "symbol").bind Json.ifString = some (nativeSymbol other)) :
    filterMessage (makeMessageFilter symbol) p = false := by
  obtain ⟨v, hField, hText⟩ := Option.bind_eq_some_iff.mp hAbout
  simp [filterMessage, makeMessageFilter, hField, hText, Ne.symm hNe]

/-- The listener takes nothing from a message about another market. -/
theorem step_about (hNe : nativeSymbol symbol ≠ nativeSymbol other)
    (hAbout : op.about parse other = true) : ∃ src',
      src.step parse number fromString symbol op = some (src', none) ∧ src.Alike src' := by
  cases op with
  | connect | watch | readFailed => cases hAbout
  | read now chunks later others =>
    simp only [SourceOp.about, Bool.and_eq_true, decide_eq_true_eq, Option.any_eq_true] at hAbout
    obtain ⟨rfl, p, hObject, hSymbol⟩ := hAbout
    obtain ⟨v, hParse, hObject⟩ := Option.bind_eq_some_iff.mp hObject
    cases hMessage : src.message with
    | none => exact ⟨src, by rw [TickSource.step, hMessage], rfl, rfl, rfl⟩
    | some m =>
      obtain ⟨hParsed, -, hRead⟩ : (MessageReads.readInto parse m now chunks later).2 = true ∧
          _ ∧ (MessageReads.readInto parse m now chunks later).1.object = _ :=
        MessageReads.readInto_some hParse
      rw [hObject] at hRead
      have hHandle : src.handleMessage number fromString symbol
          (MessageReads.readInto parse m now chunks later).1 = some none := by
        rw [handleMessage]
        split
        · rfl
        · simp [handle, hRead, filterMessage_other hNe hSymbol]
      refine ⟨{ src with message := some (MessageReads.readInto parse m now chunks later).1 }, ?_,
        by rw [hMessage]; rfl, rfl, rfl⟩
      rw [step_read hMessage]
      simp [hParsed, hHandle]

end TickSource

namespace MarketFeed

variable {st st' : MarketFeed}

def about (parse : String → Option Json) (key : MarketKey) (op : FeedOp) : Bool :=
  op.source?.any fun op => op.about parse key

/-- What the listener has, what waits for it, and what was sent to it. -/
def own (st : MarketFeed) : ListenerRun × List TickRecord × List TickRecord :=
  (st.listener, st.waiting, st.source.sent)

structure Alike (st st' : MarketFeed) : Prop where
  source : st.source.Alike st'.source
  waiting : st.waiting = st'.waiting
  listener : st.listener = st'.listener

theorem Alike.onTick (h : st.Alike st') (tick : TickRecord) (now : TimestampType) :
    Option.Rel Alike (st.onTick tick now) (st'.onTick tick now) := by
  rw [MarketFeed.onTick, MarketFeed.onTick, h.listener]
  cases st'.listener.step (.onTick tick now) with
  | none => exact .none
  | some listener => exact .some ⟨h.source, h.waiting, rfl⟩

theorem Alike.dispatch (h : st.Alike st') (tick : TickRecord) (inline : Bool)
    (now : TimestampType) :
    Option.Rel Alike (st.dispatch tick inline now) (st'.dispatch tick inline now) := by
  rw [MarketFeed.dispatch, MarketFeed.dispatch, h.waiting]
  split
  · exact h.onTick tick now
  · exact .some ⟨h.source, rfl, h.listener⟩

theorem Alike.step (h : st.Alike st') (op : FeedOp) :
    Option.Rel Alike (st.step parse number fromString symbol op)
      (st'.step parse number fromString symbol op) := by
  cases op with
  | source op inline now =>
    have hStep : Option.Rel _ (st.source.step parse number fromString symbol op)
      (st'.source.step parse number fromString symbol op) := h.source.step op
    simp only [MarketFeed.step]
    cases hs : st.source.step parse number fromString symbol op <;>
      cases ht : st'.source.step parse number fromString symbol op <;> rw [hs, ht] at hStep
    · exact .none
    · cases hStep
    · cases hStep
    · rename_i r r'
      obtain ⟨source, tick⟩ := r
      obtain ⟨source', tick'⟩ := r'
      obtain ⟨hSource, rfl⟩ : source.Alike source' ∧ tick = tick' := by
        cases hStep with
        | some hBoth => exact hBoth
      have hNext : Alike { st with source } { st' with source := source' } :=
        ⟨hSource, h.waiting, h.listener⟩
      cases tick with
      | none => exact .some hNext
      | some tick => exact hNext.dispatch tick inline now
  | runTick now =>
    simp only [MarketFeed.step, h.waiting]
    cases hWaiting : st'.waiting with
    | nil => exact .some h
    | cons tick waiting =>
      have hNext : Alike { st with waiting } { st' with waiting } := ⟨h.source, rfl, h.listener⟩
      exact hNext.onTick tick now
  | event op quiet =>
    simp only [MarketFeed.step, h.listener]
    cases st'.listener.step op with
    | none => exact .none
    | some listener => exact .some ⟨h.source, h.waiting, rfl⟩

theorem own_of_rel {r r' : Option MarketFeed} (h : Option.Rel Alike r r') :
    r.map own = r'.map own := by
  cases h with
  | none => rfl
  | some hAlike => simp [own, hAlike.source.sent, hAlike.waiting, hAlike.listener]

theorem nativeSymbol_ne {s s' : String} {key key' : SpotMarketKey} (hKey : spotKey s = .ok key)
    (hKey' : spotKey s' = .ok key') (hNe : key ≠ key') :
    nativeSymbol (.spot key) ≠ nativeSymbol (.spot key') :=
  spotKey_text_ne (readable_of_spotKey hKey).spotKey_nativeSymbol
    (readable_of_spotKey hKey').spotKey_nativeSymbol hNe

/-- The messages about another market, unless a slot of someone else throws at them, leave no trace:
with or without their reads the listener and its subscribers go through the same, and a run has a
result either way or neither way. -/
theorem others_unseen (parse : String → Option Json) (number : String → Option ℚ)
    (fromString : String → Option SideType) (s s' : String) {key key' : SpotMarketKey}
    (hKey : spotKey s = .ok key) (hKey' : spotKey s' = .ok key') (hNe : key ≠ key')
    (created : TimestampType) (ops : List FeedOp) :
    (run (step parse number fromString (.spot key)) (start (.spot key) created)
        (ops.filter fun op => !about parse (.spot key') op)).map own =
      (run (step parse number fromString (.spot key)) (start (.spot key) created) ops).map own := by
  refine own_of_rel (run_filter (fun st st' op h _ => h.step op) ?_ ⟨⟨rfl, rfl, rfl⟩, rfl, rfl⟩ ops)
  intro st st' op h hAbout
  rw [Bool.not_eq_false', about] at hAbout
  cases op with
  | source op inline now =>
    obtain ⟨source, hStep, hSource⟩ : ∃ source,
        st'.source.step parse number fromString (.spot key) op = some (source, none) ∧
          st'.source.Alike source :=
      TickSource.step_about (nativeSymbol_ne hKey hKey' hNe) hAbout
    refine ⟨{ st' with source }, by rw [MarketFeed.step, hStep]; rfl, ?_, h.waiting, h.listener⟩
    exact ⟨h.source.message.trans hSource.message, h.source.watched.trans hSource.watched,
      h.source.sent.trans hSource.sent⟩
  | runTick | event => cases hAbout

theorem twoMarkets_unseen :
    (run (step wireParse wireNumber wireSide (.spot btcUsd)) (start (.spot btcUsd) 0)
        (twoMarkets.filter fun op => !about wireParse (.spot ⟨"eth", "usd"⟩) op)).map own =
      (run (step wireParse wireNumber wireSide (.spot btcUsd)) (start (.spot btcUsd) 0)
        twoMarkets).map own :=
  others_unseen wireParse wireNumber wireSide "btc/usd" "eth/usd" (by decide +kernel)
    (by decide +kernel) (by decide) 0 twoMarkets

end MarketFeed

end Decoding

end Arby.PowerTrade
