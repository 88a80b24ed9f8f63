import Arby.PowerTrade.TickLogger

/-! What a tick log is good for. The ticks that are read back from it, replayed on an empty book, give
every book that the listener published. -/

namespace Arby.PowerTrade

open Trading Kit Logging

namespace LoggedFeed

variable {σ : Type*} {ch : Channel σ Payload} {parse : String → Option Json}
  {number : String → Option ℚ} {fromString : String → Option SideType} {symbol : MarketKey}
  {st st' : LoggedFeed σ} {op : LoggedOp}

/-- The feed takes at most one step. -/
theorem step_market (hStep : st.step parse number fromString symbol ch op = some st') :
    ∃ ops, run (MarketFeed.step parse number fromString symbol) st.feed ops = some st'.feed := by
  have hQuiet : ∀ (watching : Bool) {logOp : LogOp},
      { st with watching }.logStep ch logOp = some st' →
      ∃ ops, run (MarketFeed.step parse number fromString symbol) st.feed ops = some st'.feed := by
    intro watching logOp hLog
    obtain ⟨log, -, rfl⟩ := logStep_cases hLog
    exact ⟨[], rfl⟩
  cases op with
  | runHandler => exact hQuiet st.watching hStep
  | writeDone ec => exact hQuiet st.watching hStep
  | destroy =>
    simp only [LoggedFeed.step] at hStep
    split at hStep
    · exact hQuiet false hStep
    · obtain rfl := Option.some.inj hStep
      exact ⟨[], rfl⟩
  | feed op between =>
    obtain ⟨sent, log, rest, -, hNext, -⟩ := step_feed hStep
    obtain ⟨feed, hFeed, rfl⟩ := next_cases hNext
    exact ⟨[rest], by simpa using hFeed⟩

theorem run_market {ops : List LoggedOp}
    (hRun : run (step parse number fromString symbol ch) st ops = some st') :
    ∃ ops', run (MarketFeed.step parse number fromString symbol) st.feed ops' = some st'.feed := by
  refine run_invariant (I := fun st' : LoggedFeed σ => ∃ ops',
    run (MarketFeed.step parse number fromString symbol) st.feed ops' = some st'.feed)
    (fun st₁ op st₂ h hStep => ?_) ⟨[], rfl⟩ hRun
  obtain ⟨ops₁, h₁⟩ := h
  obtain ⟨ops₂, h₂⟩ := step_market hStep
  refine ⟨ops₁ ++ ops₂, ?_⟩
  rw [run_append, h₁]
  exact h₂

/-- Each receipt is equal to the book that a number of the ticks give, and a newer receipt never to that
of fewer. -/
def Rebuilds (ticks : List TickRecord) (receipts : List OrderbookSnapshot) : Prop :=
  ∃ dated : List (OrderbookSnapshot × ℕ), dated.map Prod.fst = receipts ∧
    (dated.map Prod.snd).Pairwise (· ≥ ·) ∧
    ∀ e ∈ dated, e.2 ≤ ticks.length ∧
      ∃ book, run OrderBook.replayTick {} (ticks.take e.2) = some book ∧ book.same e.1.book

variable {ticks done : List TickRecord} {r : OrderBook} {receipts : List OrderbookSnapshot}

/-- What a book shows is all that `operator==` sees. -/
theorem exists_same (hAdmits : Along (always LiveBook.step) LiveBook.Admits {} ticks)
    (hShows : r.Shows (LiveBook.after ticks)) :
    ∃ book, run OrderBook.replayTick {} ticks = some book ∧ book.same r := by
  obtain ⟨book, hRun, hRefines⟩ := OrderBook.refines_run hAdmits
  exact ⟨book, hRun, (hRefines.shows.same_iff hShows).mpr ⟨fun _ _ => rfl, rfl⟩⟩

theorem rebuilds_of_dated (hAdmits : Along (always LiveBook.step) LiveBook.Admits {} ticks)
    (hDone : done <+: ticks) (h : ListenerRun.Dated done receipts) : Rebuilds ticks receipts := by
  obtain ⟨dated, hReceipts, hSorted, hShows⟩ := h
  refine ⟨dated, hReceipts, hSorted, fun e he => ?_⟩
  obtain ⟨hLe, hBook⟩ := hShows e he
  have hTake : done.take e.2 = ticks.take e.2 := by
    rw [List.prefix_iff_eq_take.mp hDone, List.take_take, min_eq_left hLe]
  rw [hTake] at hBook
  exact ⟨hLe.trans hDone.length_le,
    exists_same (MarketFeed.admits_of_isPrefix hAdmits (List.take_prefix ..)) hBook⟩

/-- The log is enough. A logger and a listener watch before anything is logged or dispatched, and no
slot between theirs throws. When what the messages say is one session that the reference admits, then
in every interleaving the ticks that are read back from any first part of the log replay on an empty
book; every snapshot that a subscriber has is equal to one of the books that they give, newer ones to
later ones; and when nothing waits for the listener, its snapshot is equal to the book of the whole
log. -/
theorem rebuilds_run (created : TimestampType) (channel : σ) (before ops : List LoggedOp)
    (hBefore : run (step parse number fromString symbol ch) (start symbol created channel) before =
      some st)
    (hWatched : tickCodes.length ≤ st.feed.source.watched)
    (hNone : st.feed.source.sent = []) (hEmpty : st.log.sent = [])
    (hBetween : ∀ op ∈ ops, op.isBetween = false)
    (hRun : run (step parse number fromString symbol ch) st ops = some st')
    (hKept : st'.watching = true) (hSession : ListenerRun.Session st'.feed.source.sent)
    (hAdmits : Along (always LiveBook.step) LiveBook.Admits {} st'.feed.source.sent) :
    (∀ n, ∃ book, run OrderBook.replayTick {}
        ((st'.log.sent.take n).filterMap (tickOf parse number fromString symbol)) = some book) ∧
      Rebuilds (st'.log.sent.filterMap (tickOf parse number fromString symbol))
        st'.feed.listener.receipts ∧
      (st'.feed.waiting = [] → ∃ book, run OrderBook.replayTick {}
        (st'.log.sent.filterMap (tickOf parse number fromString symbol)) = some book ∧
          book.same st'.feed.listener.listener.snapshot.book) := by
  obtain ⟨feedOps, hFeed⟩ := run_market hBefore
  obtain ⟨-, events, ⟨hListener, new, hSent, hTicks⟩, -⟩ := MarketFeed.advances_run hFeed
  obtain ⟨texts, events', hReplays⟩ := replays_of_run hWatched hBetween hRun hKept
  -- nothing came before the texts, neither for the log nor for the listener
  obtain rfl : new = [] := hSent.symm.trans hNone
  obtain ⟨hQuiet, hWaiting⟩ := List.append_eq_nil_iff.mp hTicks
  have hLogged : st'.log.sent = texts := by rw [hReplays.logged, hEmpty, List.nil_append]
  have hDispatched : st'.feed.source.sent = texts.filterMap (tickOf parse number fromString symbol) := by
    rw [hReplays.dispatched, hNone, List.nil_append]
  have hDone : ListenerRun.ticksOf (events ++ events') ++ st'.feed.waiting =
      texts.filterMap (tickOf parse number fromString symbol) := by
    rw [ListenerRun.ticksOf, List.filterMap_append, ← ListenerRun.ticksOf, ← ListenerRun.ticksOf,
      hQuiet, List.nil_append, hReplays.ticks, hWaiting, List.nil_append]
  rw [hDispatched] at hSession hAdmits
  rw [hLogged]
  have hPrefix : ListenerRun.ticksOf (events ++ events') <+: texts.filterMap
      (tickOf parse number fromString symbol) := ⟨_, hDone⟩
  obtain ⟨listener, log, hAll, hInSession⟩ := ListenerRun.inSession_of_run symbol created
    (events ++ events') (MarketFeed.session_of_isPrefix hSession hPrefix)
    (MarketFeed.admits_of_isPrefix hAdmits hPrefix)
  have hEnd : run ListenerRun.step (.start symbol created) (events ++ events') =
      some st'.feed.listener := by
    rw [run_append]
    exact Option.bind_eq_some_iff.mpr ⟨_, hListener, hReplays.listener⟩
  obtain rfl := Option.some.inj (hAll.symm.trans hEnd)
  refine ⟨fun n => ?_, rebuilds_of_dated hAdmits hPrefix hInSession.pictures.receipts, fun hNothing => ?_⟩
  · obtain ⟨book, hBook, -⟩ := OrderBook.refines_run (MarketFeed.admits_of_isPrefix hAdmits
      ((List.take_prefix n texts).filterMap (tickOf parse number fromString symbol)))
    exact ⟨book, hBook⟩
  · rw [hNothing, List.append_nil] at hDone
    rw [← hDone] at hAdmits ⊢
    exact exists_same hAdmits hInSession.pictures.current

theorem subscribe_quiet : ListenerOp.subscribe.tick? = none := rfl

/-- A subscriber comes before the messages. -/
def watchedLog : List LoggedOp := .feed (.event .subscribe subscribe_quiet) false :: loggedReads

theorem watchedLog_rebuild :
    (∀ n, ∃ book, run OrderBook.replayTick {}
        (((loggedRun (loggedBefore ++ watchedLog)).log.sent.take n).filterMap
          (tickOf MarketFeed.wireParse MarketFeed.wireNumber MarketFeed.wireSide
            (.spot MarketFeed.btcUsd))) = some book) ∧
      Rebuilds ((loggedRun (loggedBefore ++ watchedLog)).log.sent.filterMap
          (tickOf MarketFeed.wireParse MarketFeed.wireNumber MarketFeed.wireSide
            (.spot MarketFeed.btcUsd)))
        (loggedRun (loggedBefore ++ watchedLog)).feed.listener.receipts ∧
      ((loggedRun (loggedBefore ++ watchedLog)).feed.waiting = [] → ∃ book,
        run OrderBook.replayTick {} ((loggedRun (loggedBefore ++ watchedLog)).log.sent.filterMap
          (tickOf MarketFeed.wireParse MarketFeed.wireNumber MarketFeed.wireSide
            (.spot MarketFeed.btcUsd))) = some book ∧
          book.same (loggedRun (loggedBefore ++ watchedLog)).feed.listener.listener.snapshot.book) := by
  have hBefore : run (step MarketFeed.wireParse MarketFeed.wireNumber MarketFeed.wireSide
      (.spot MarketFeed.btcUsd) (Fifo.channel 1024))
      (start (.spot MarketFeed.btcUsd) 0 (Fifo.holding [])) loggedBefore =
        some (loggedRun loggedBefore) := (Option.getD_of_ne_none (by decide +kernel) _).symm
  have hAll : run (step MarketFeed.wireParse MarketFeed.wireNumber MarketFeed.wireSide
      (.spot MarketFeed.btcUsd) (Fifo.channel 1024))
      (start (.spot MarketFeed.btcUsd) 0 (Fifo.holding [])) (loggedBefore ++ watchedLog) =
        some (loggedRun (loggedBefore ++ watchedLog)) :=
    (Option.getD_of_ne_none (by decide +kernel) _).symm
  rw [run_append, hBefore] at hAll
  exact rebuilds_run 0 (.holding []) loggedBefore watchedLog hBefore (by decide +kernel)
    (by decide +kernel) (by decide +kernel) (by decide +kernel) hAll (by decide +kernel)
    (by decide +kernel) (by decide +kernel)

end LoggedFeed

end Arby.PowerTrade
