import Arby.PowerTrade.BookAssignment
import Arby.PowerTrade.ListenerWatermarks
import Arby.PowerTrade.LiveView

/-! What subscribers see of the market. Every snapshot that they hold shows the live orders as they
once were, and the listener's own those after the latest tick, as long as the ticks are clean. From
one snapshot tick to the next they are: the service only recycles what it has caught up. -/

namespace Arby.PowerTrade

open Trading Kit

def ListenerOp.tick? : ListenerOp → Option TickRecord
  | .onTick tick _ => some tick
  | _ => none

/-- The reference after `ticks`. -/
def LiveBook.after (ticks : List TickRecord) : LiveBook := ticks.foldl LiveBook.step {}

theorem LiveBook.after_concat (ticks : List TickRecord) (tick : TickRecord) :
    after (ticks ++ [tick]) = (after ticks).step tick := by
  simp [after]

theorem LiveBook.admits_concat {ticks : List TickRecord} {tick : TickRecord} :
    Along (always LiveBook.step) LiveBook.Admits {} (ticks ++ [tick]) ↔
      Along (always LiveBook.step) LiveBook.Admits {} ticks ∧ (after ticks).Admits tick := by
  rw [along_append, run_always]
  simp [Along, after]

namespace OrderBook

variable {book : OrderBook} {live : LiveBook} {t : TickRecord}

theorem Refines.freshIds (h : book.Refines live) (ht : live.Admits t) : book.FreshIds t := by
  cases t with
  | snapshot snap =>
    intro d
    cases d
    · exact ht.1
    · exact ht.2
  | add a =>
    refine Bool.eq_false_iff.mpr fun hRests => ?_
    obtain ⟨o, ho, hId⟩ := (h.sides a.side).rests_iff.mp hRests
    exact ht o ho hId
  | remove => trivial
  | execute => exact ht.elim

theorem Refines.findsAll (h : book.Refines live) : book.FindsAll := by
  intro d node hNode order hOrder
  obtain ⟨k, hk⟩ := OrdMap.mem_values.mp hNode
  exact ((h.sides d).indexed _ _).mpr ⟨order.val.qty, k, node.val, hk, hOrder⟩

theorem not_emptiesLevel_of_admits (ht : live.Admits t) : ¬book.EmptiesLevel t := by
  refine not_emptiesLevel ?_
  cases t with
  | execute => exact ht.elim
  | add | remove | snapshot => rfl

theorem Linked.notStale (hPlaced : book.Placed) (hLinked : book.Linked) :
    book.notStale = fun _ _ => true := by
  funext d id
  rw [OrderBook.notStale, Bool.not_eq_true', Bool.eq_false_iff]
  intro hStale
  obtain ⟨entry, hEntry, hGone⟩ := (hPlaced d).stale_iff.mp hStale
  obtain ⟨qty, hRests⟩ := hLinked d id entry hEntry
  exact hGone _ hRests

theorem namesOnly_all (ticks : List TickRecord) : namesOnly (fun _ _ => true) ticks = true := by
  induction ticks with
  | nil => rfl
  | cons t ticks ih => rw [namesOnly, namesGood_all, goodAfter_all, ih, Bool.and_self]

/-- A copy onto a book that has held nothing has no entries of an earlier book. -/
theorem linked_assign (r : OrderBook) : (({} : OrderBook).assign r).Linked := by
  have hSide : ∀ {d : SideType} (s : BookSide (Key d)), (({} : BookSide (Key d)).assign s).Linked := by
    intro d s id entry hEntry
    rcases BookSide.cache_assign hEntry with hOld | ⟨-, hRests⟩
    · cases (Finmap.lookup_empty id).symm.trans hOld
    · exact hRests
  intro d
  cases d
  · exact hSide (d := .buy) r.bids
  · exact hSide (d := .sell) r.offers

end OrderBook

namespace ServiceRun

variable {st st' : ServiceRun} {tick : TickRecord} {now : TimestampType} {live : LiveBook}
  {snap' : OrderbookSnapshot}

/-- Every snapshot is of the current generation, and its cache names resting orders only. -/
structure Fresh (st : ServiceRun) : Prop where
  generation : ∀ o ∈ st.snaps, o.generation = st.svc.currentGeneration
  linked : ∀ o ∈ st.snaps, o.book.Linked

theorem Regroups.fresh (h : st.Regroups st') (hFresh : st.Fresh) : st'.Fresh := by
  obtain ⟨freeSnaps, hService⟩ := h.service
  constructor
  · intro o ho
    obtain ⟨o', ho', -, hGeneration, -⟩ := h.exists_issued ho
    rw [hService, ← hGeneration]
    exact hFresh.generation o' ho'
  · intro o ho
    obtain ⟨o', ho', -, -, -, hBook⟩ := h.exists_issued ho
    exact hBook ▸ hFresh.linked o' ho'

/-- The tick that starts a generation is copied, and its own orders are all that it names. -/
theorem Delivered.clean_snapshot (h : st.Delivered) (hAdmits : live.Admits tick)
    (hRefines : st.svc.orderBook.Refines live) (hTick : tick.isSnapshot = true) :
    st.Clean (.processTick tick now) := by
  obtain ⟨old, current, hTracked⟩ := h.tracked
  refine ⟨OrderBook.not_emptiesLevel_of_admits hAdmits, fun hFirst => ?_, ?_⟩
  · cases tick with
    | snapshot => cases hFirst.1
    | add | remove | execute => cases hTick
  · rw [if_neg fun hCatch => by simp [(hTracked.catchesUp_cases hCatch).1] at hTick]
    exact ⟨.inl hTick, hRefines.freshIds hAdmits⟩

theorem Fresh.clean (hFresh : st.Fresh) (h : st.Delivered) (hAdmits : live.Admits tick)
    (hRefines : st.svc.orderBook.Refines live) (hPos : 0 < st.svc.currentGeneration) :
    st.Clean (.processTick tick now) := by
  obtain ⟨old, current, hTracked⟩ := h.tracked
  refine ⟨OrderBook.not_emptiesLevel_of_admits hAdmits, fun hFirst => hPos.ne' hFirst.2.1, ?_⟩
  split
  · rename_i hCatch
    obtain ⟨-, ⟨-, hZero, -⟩ | ⟨hMem, -⟩⟩ := hTracked.catchesUp_cases hCatch
    · exact absurd hZero hPos.ne'
    · rw [(hFresh.linked _ hMem).notStale (h.books _ hMem)]
      exact OrderBook.namesOnly_all _
  · exact ⟨.inr hRefines.findsAll, hRefines.freshIds hAdmits⟩

/-- The book of the first snapshot. -/
theorem fresh_of_none (hSnaps : st.snaps = []) (hTurn : st.svc.Turn tick now st'.svc snap')
    (hHeld : st'.held = snap' :: st.held)
    (hCopy : st.svc.catchesUpOn tick (st.svc.taken now) = false) : st'.Fresh := by
  obtain ⟨hHeldNil, hFreeNil⟩ := List.append_eq_nil_iff.mp hSnaps
  have hSnap : snap'.book.Linked ∧ st'.svc.freeSnaps = [] := by
    rcases hTurn.pool with ⟨-, hFree', -, hTaken⟩ | ⟨hFree, -⟩
    · rcases hTurn.route with ⟨hCatch, -⟩ | ⟨-, hBook, -⟩
      · cases hCopy.symm.trans hCatch
      · rw [hBook, hTaken]
        exact ⟨OrderBook.linked_assign _, hFree'⟩
    · cases hFreeNil.symm.trans hFree
  have hOnly : st'.snaps = [snap'] := by
    rw [snaps, hHeld, hHeldNil, hSnap.2]
    rfl
  constructor <;> intro o ho <;> rw [hOnly, List.mem_singleton] at ho <;> subst ho
  · exact hTurn.generation
  · exact hSnap.1

/-- The next tick: a snapshot of the generation is caught up and not copied to, since the history has
its tick. -/
theorem Fresh.turn (hFresh : st.Fresh) (h : st.Delivered) (hMarks : st.Watermarked)
    (hPos : 0 < st.svc.currentGeneration) (hTick : tick.isSnapshot = false)
    (hTurn : st.svc.Turn tick now st'.svc snap') (hHeld : st'.held = snap' :: st.held) :
    st'.Fresh := by
  obtain ⟨old, current, hTracked⟩ := h.tracked
  have hGen := generation_same hTurn hTick
  have hSnap : snap'.book.Linked := by
    rcases hTurn.route with ⟨hCatch, hRun, -⟩ | ⟨hCopy, hBook, -⟩
    · obtain ⟨-, ⟨-, hZero, -⟩ | ⟨hMem, -⟩⟩ := hTracked.catchesUp_cases hCatch
      · exact absurd hZero hPos.ne'
      · exact (run_invariant (I := fun book => book.Placed ∧ book.Linked)
          (fun _ _ _ hi hs => ⟨hi.1.replayTick hs, hi.2.replayTick hi.1 hs⟩)
          ⟨h.books _ hMem, hFresh.linked _ hMem⟩ hRun).2
    · rcases hTurn.pool with ⟨-, -, -, hTaken⟩ | ⟨hFree, -⟩
      · rw [hBook, hTaken]
        exact OrderBook.linked_assign _
      · have hMem := taken_mem hFree
        have hTaken := hFresh.generation _ hMem
        have hFound := hMarks.found _ (mem_currentSnaps.mpr ⟨hMem, hTaken⟩)
        have hEntered : ((st.svc.historyOf tick).history.find? (st.svc.taken now).sequence).isSome := by
          rw [historyOf_same hTick]
          exact (hTracked.history.find?_addTick tick).mpr (.inl hFound)
        rw [OrderbookSnapshotService.catchesUpOn, ← hTurn.currentGeneration, hGen,
          decide_eq_true hTaken, hEntered] at hCopy
        cases hCopy
  have hOthers := (hTracked.others hTurn).1
  have hSnaps : st'.snaps = snap' :: (st.held ++ st'.svc.freeSnaps) := by rw [snaps, hHeld]; rfl
  constructor <;> intro o ho <;> rw [hSnaps, List.mem_cons] at ho <;> rcases ho with rfl | ho
  · exact hTurn.generation
  · rw [hGen]
    exact hFresh.generation o (hOthers o ho).1
  · exact hSnap
  · exact hFresh.linked o (hOthers o ho).1

end ServiceRun

namespace ListenerRun

variable {st st' : ListenerRun} {op : ListenerOp} {symbol : MarketKey} {log : List Issue}
  {ticks : List TickRecord} {tick : TickRecord} {now : TimestampType}
  {receipts : List OrderbookSnapshot}

def ticksOf (ops : List ListenerOp) : List TickRecord := ops.filterMap ListenerOp.tick?

/-- The first tick is a snapshot tick, and the only one. -/
def Session : List TickRecord → Prop
  | [] => True
  | tick :: ticks => tick.isSnapshot = true ∧ ∀ t ∈ ticks, t.isSnapshot = false

instance : ∀ ticks, Decidable (Session ticks)
  | [] => .isTrue trivial
  | tick :: ticks =>
    inferInstanceAs (Decidable (tick.isSnapshot = true ∧ ∀ t ∈ ticks, t.isSnapshot = false))

theorem session_concat :
    Session (ticks ++ [tick]) ↔ Session ticks ∧ (tick.isSnapshot = true ↔ ticks = []) := by
  cases ticks with
  | nil => simp [Session]
  | cons t ts => simp [Session, or_imp, forall_and, and_assoc]

/-- Each receipt shows the live orders after a number of the ticks, and a newer receipt never after
fewer of them. -/
def Dated (ticks : List TickRecord) (receipts : List OrderbookSnapshot) : Prop :=
  ∃ dated : List (OrderbookSnapshot × ℕ), dated.map Prod.fst = receipts ∧
    (dated.map Prod.snd).Pairwise (· ≥ ·) ∧
    ∀ e ∈ dated, e.2 ≤ ticks.length ∧ e.1.book.Shows (LiveBook.after (ticks.take e.2))

/-- The listener shows the live orders after all ticks, its subscribers as they were then or
before. -/
structure Pictures (ticks : List TickRecord) (st : ListenerRun) : Prop where
  current : st.listener.snapshot.book.Shows (LiveBook.after ticks)
  receipts : Dated ticks st.receipts

theorem Dated.sublist {rs : List OrderbookSnapshot} (h : Dated ticks receipts)
    (hSub : rs.Sublist receipts) : Dated ticks rs := by
  obtain ⟨dated, rfl, hSorted, hShows⟩ := h
  obtain ⟨kept, hKept, rfl⟩ := List.sublist_map_iff.mp hSub
  exact ⟨kept, rfl, hSorted.sublist (hKept.map _), fun e he => hShows e (hKept.subset he)⟩

theorem Dated.concat (h : Dated ticks receipts) : Dated (ticks ++ [tick]) receipts := by
  obtain ⟨dated, hReceipts, hSorted, hShows⟩ := h
  refine ⟨dated, hReceipts, hSorted, fun e he => ?_⟩
  obtain ⟨hLe, hBook⟩ := hShows e he
  refine ⟨by simp; omega, ?_⟩
  rwa [List.take_append_of_le_length hLe]

theorem Dated.replicate {snap : OrderbookSnapshot} (h : Dated ticks receipts)
    (hSnap : snap.book.Shows (LiveBook.after ticks)) (n : ℕ) :
    Dated ticks (List.replicate n snap ++ receipts) := by
  obtain ⟨dated, rfl, hSorted, hShows⟩ := h
  refine ⟨List.replicate n (snap, ticks.length) ++ dated, by simp, ?_, fun e he => ?_⟩
  · rw [List.map_append, List.map_replicate, List.pairwise_append]
    refine ⟨List.pairwise_replicate.mpr (.inr le_rfl), hSorted, fun i hi k hk => ?_⟩
    obtain ⟨e, he, rfl⟩ := List.mem_map.mp hk
    rw [List.eq_of_mem_replicate hi]
    exact (hShows e he).1
  · rcases List.mem_append.mp he with he | he
    · rw [List.eq_of_mem_replicate he]
      exact ⟨le_rfl, by rwa [List.take_length]⟩
    · exact hShows e he

/-- Subscribers receive the listener's snapshot, and release some of what they have. -/
theorem step_receipts (hStep : st.step op = some st') : ∃ n rs,
    st'.receipts = List.replicate n st'.listener.snapshot ++ rs ∧ rs.Sublist st.receipts := by
  cases op with
  | onConnectionState cstate =>
    rw [step_onConnectionState] at hStep
    obtain rfl := Option.some.inj hStep
    exact ⟨st.slots, st.receipts, rfl, .refl _⟩
  | onCommandResponse payload =>
    obtain ⟨-, rfl⟩ | ⟨code, listener, -, -, rfl⟩ := onCommandResponse_cases hStep
    · exact ⟨0, st.receipts, rfl, .refl _⟩
    · exact ⟨st.slots, st.receipts, rfl, .refl _⟩
  | onTick tick now =>
    obtain ⟨svc, snap, -, -, -, -, hReceipts⟩ := step_onTick_emitted hStep
    exact ⟨st.slots, st.receipts, hReceipts, .refl _⟩
  | subscribe =>
    obtain rfl := Option.some.inj hStep
    exact ⟨1, st.receipts, rfl, .refl _⟩
  | disconnect =>
    obtain rfl := Option.some.inj hStep
    exact ⟨0, st.receipts, rfl, .refl _⟩
  | release i =>
    obtain rfl := Option.some.inj hStep
    exact ⟨0, st.receipts.eraseIdx i, rfl, List.eraseIdx_sublist ..⟩
  | deallocateSnapshot i =>
    obtain rfl | ⟨snap, -, rfl⟩ := deallocateSnapshot_cases hStep
    · exact ⟨0, st.receipts, rfl, .refl _⟩
    · exact ⟨0, st.receipts, rfl, .refl _⟩

theorem Dated.step (h : Dated ticks st.receipts) (hStep : st.step op = some st')
    (hSnap : st'.listener.snapshot.book.Shows (LiveBook.after ticks)) :
    Dated ticks st'.receipts := by
  obtain ⟨n, rs, hReceipts, hSub⟩ := step_receipts hStep
  rw [hReceipts]
  exact (h.sublist hSub).replicate hSnap n

/-- The invariant of a session. -/
structure InSession (symbol : MarketKey) (ticks : List TickRecord) (st : ListenerRun)
    (log : List Issue) : Prop where
  pictures : st.Pictures ticks
  retains : ∃ log, st.Retains symbol log
  delivered : (st.receivers log).Delivered
  refines : st.listener.snapshotService.orderBook.Refines (LiveBook.after ticks)
  initial : ticks = [] → (st.receivers log).snaps = []
  fresh : ticks ≠ [] → (st.receivers log).Fresh ∧ 0 < st.listener.snapshotService.currentGeneration

theorem inSession_start (symbol : MarketKey) (created : TimestampType) :
    (start symbol created).InSession symbol [] [] where
  pictures := ⟨OrderBook.refines_empty.shows, [], rfl, .nil, fun _ h => nomatch h⟩
  retains := ⟨[], retains_start symbol created⟩
  delivered := delivered_start symbol created
  refines := OrderBook.refines_empty
  initial _ := rfl
  fresh h := absurd rfl h

theorem InSession.quiet (h : st.InSession symbol ticks log) (hOp : serviceOps op = [])
    (hStep : st.step op = some st') : st'.InSession symbol ticks log := by
  obtain ⟨log', hRetains⟩ := h.retains
  obtain ⟨s, hRun, hRegroups⟩ := hRetains.sourced.simulates hStep log
  rw [hOp] at hRun
  obtain rfl := Option.some.inj hRun
  obtain ⟨⟨freeSnaps, hService⟩, ⟨condition, hSnap⟩, -⟩ := step_quiet hOp hStep
  have hShows : st'.listener.snapshot.book.Shows (LiveBook.after ticks) := by
    rw [hSnap]
    exact h.pictures.current
  refine ⟨⟨hShows, h.pictures.receipts.step hStep hShows⟩, ⟨log', hRetains.quiet hOp hStep⟩,
    hRegroups.delivered h.delivered, ?_, fun hTicks => ?_, fun hTicks => ?_⟩
  · rw [hService]
    exact h.refines
  · have hPerm := hRegroups.snaps
    rw [h.initial hTicks] at hPerm
    exact List.map_eq_nil_iff.mp hPerm.eq_nil
  · rw [hService]
    exact ⟨hRegroups.fresh (h.fresh hTicks).1, (h.fresh hTicks).2⟩

theorem InSession.clean (h : st.InSession symbol ticks log)
    (hSession : tick.isSnapshot = true ↔ ticks = []) (hAdmits : (LiveBook.after ticks).Admits tick) :
    (st.receivers log).Clean (.processTick tick now) := by
  by_cases hTicks : ticks = []
  · exact h.delivered.clean_snapshot hAdmits h.refines (hSession.mpr hTicks)
  · obtain ⟨hFresh, hPos⟩ := h.fresh hTicks
    exact hFresh.clean h.delivered hAdmits h.refines hPos

theorem InSession.watermarked (h : st.InSession symbol ticks log) (hTicks : ticks ≠ []) :
    (st.receivers log).Watermarked := by
  obtain ⟨log', hRetains⟩ := h.retains
  have hMarks := (hRetains.marked (h.fresh hTicks).2).watermarked
  exact ⟨hMarks.exact, hMarks.found⟩

theorem InSession.begins (h : st.InSession symbol ticks log)
    (hSession : tick.isSnapshot = true ↔ ticks = []) : st.Begins (.onTick tick now) := by
  by_cases hTicks : ticks = []
  · exact .inl (hSession.mpr hTicks)
  · exact .inr (h.fresh hTicks).2

theorem InSession.onTick (h : st.InSession symbol ticks log)
    (hSession : tick.isSnapshot = true ↔ ticks = []) (hAdmits : (LiveBook.after ticks).Admits tick)
    (now : TimestampType) : ∃ st' log', st.step (.onTick tick now) = some st' ∧
      st'.InSession symbol (ticks ++ [tick]) log' := by
  have hClean : (st.receivers log).Clean (.processTick tick now) := h.clean hSession hAdmits
  obtain ⟨s, hTick⟩ := h.delivered.returns hClean
  obtain ⟨⟨svc, snap⟩, hCall, hResult⟩ := Option.bind_eq_some_iff.mp hTick
  obtain ⟨st', hStep⟩ := onTick_returns hCall
  obtain ⟨log', hRetains⟩ := h.retains
  obtain ⟨s', hRun, hRegroups⟩ := hRetains.sourced.simulates hStep log
  rw [serviceOps, run_cons, hTick] at hRun
  obtain rfl := Option.some.inj hRun
  obtain ⟨snap', hTurn, hHeld, -⟩ := ServiceRun.step_processTick hTick
  obtain ⟨⟨snap'', hHeld', hSame⟩, hNext⟩ := h.delivered.processTick hClean hTick
  obtain rfl := (List.cons.inj (hHeld.symm.trans hHeld')).1
  have hRefines : s.svc.orderBook.Refines (LiveBook.after (ticks ++ [tick])) := by
    obtain ⟨book, hBook, hRefines⟩ := h.refines.step hAdmits
    obtain rfl := Option.some.inj (hBook.symm.trans hTurn.orderBook)
    rw [LiveBook.after_concat]
    exact hRefines
  have hShows : st'.listener.snapshot.book.Shows (LiveBook.after (ticks ++ [tick])) := by
    obtain ⟨svc', snap'', hCall', -, hBook, -⟩ := step_onTick_emitted hStep
    obtain ⟨rfl, rfl⟩ := Prod.mk.inj (Option.some.inj (hCall.symm.trans hCall'))
    obtain rfl := Option.some.inj hResult
    obtain rfl := (List.cons.inj hHeld).1
    rw [hBook]
    exact hRefines.shows.of_same hSame
  obtain ⟨freeSnaps, hService⟩ := hRegroups.service
  have hService : st'.listener.snapshotService = { s.svc with freeSnaps } := hService
  have hFresh : s.Fresh ∧ 0 < s.svc.currentGeneration := by
    by_cases hTicks : ticks = []
    · have hSnapshot := hSession.mpr hTicks
      refine ⟨ServiceRun.fresh_of_none (h.initial hTicks) hTurn hHeld ?_, ?_⟩
      · refine Bool.eq_false_iff.mpr fun hCatch => ?_
        obtain ⟨old, current, hTracked⟩ := h.delivered.tracked
        simp [(hTracked.catchesUp_cases hCatch).1] at hSnapshot
      · rw [hTurn.currentGeneration, OrderbookSnapshotService.generationOf, if_pos hSnapshot]
        omega
    · have hSame := Bool.eq_false_iff.mpr (mt hSession.mp hTicks)
      obtain ⟨hFresh, hPos⟩ := h.fresh hTicks
      refine ⟨hFresh.turn h.delivered (h.watermarked hTicks) hPos hSame hTurn hHeld, ?_⟩
      rw [ServiceRun.generation_same hTurn hSame]
      exact hPos
  refine ⟨st', s.log, hStep, ⟨hShows, h.pictures.receipts.concat.step hStep hShows⟩,
    hRetains.onTick (h.begins hSession) hStep, hRegroups.delivered hNext, ?_,
    fun hTicks => absurd hTicks (by simp), fun _ => ⟨hRegroups.fresh hFresh.1, ?_⟩⟩
  · rw [hService]
    exact hRefines
  · rw [hService]
    exact hFresh.2

/-- The run lemma. -/
theorem inSession_of_run (symbol : MarketKey) (created : TimestampType) (ops : List ListenerOp)
    (hSession : Session (ticksOf ops))
    (hAdmits : Along (always LiveBook.step) LiveBook.Admits {} (ticksOf ops)) :
    ∃ st log, run step (start symbol created) ops = some st ∧
      st.InSession symbol (ticksOf ops) log := by
  induction ops using List.reverseRecOn with
  | nil => exact ⟨_, [], rfl, inSession_start symbol created⟩
  | append_singleton ops op ih =>
    have hTicks : ticksOf (ops ++ [op]) = ticksOf ops ++ op.tick?.toList := by
      rw [ticksOf, List.filterMap_append, ← ticksOf]
      cases h : op.tick? <;> simp [h]
    rw [hTicks] at hSession hAdmits ⊢
    simp only [run_concat]
    cases hOp : op.tick? with
    | none =>
      rw [hOp, Option.toList_none, List.append_nil] at hSession hAdmits
      obtain ⟨st, log, hRun, h⟩ := ih hSession hAdmits
      have hQuiet : serviceOps op = [] := by
        cases op with
        | onTick => cases hOp
        | _ => rfl
      obtain ⟨st', hStep⟩ := step_returns st hQuiet
      refine ⟨st', log, by rw [hRun]; exact hStep, ?_⟩
      rw [Option.toList_none, List.append_nil]
      exact h.quiet hQuiet hStep
    | some tick =>
      rw [hOp, Option.toList_some] at hSession hAdmits
      obtain ⟨hSession, hFirst⟩ := session_concat.mp hSession
      obtain ⟨hAdmits, hTick⟩ := LiveBook.admits_concat.mp hAdmits
      obtain ⟨st, log, hRun, h⟩ := ih hSession hAdmits
      obtain ⟨now, rfl⟩ : ∃ now, op = .onTick tick now := by
        cases op with
        | onTick tick' now => exact ⟨now, by rw [Option.some.inj hOp]⟩
        | _ => cases hOp
      obtain ⟨st', log', hStep, h'⟩ := h.onTick hFirst hTick now
      exact ⟨st', log', by rw [hRun]; exact hStep, h'⟩

/-- In a session whose ticks the reference admits, whatever the subscribers keep and release, every
event returns. Every snapshot that a subscriber has shows the live orders after some number of the
ticks, newer ones after no fewer, and the listener's shows those after all. -/
theorem pictures_run (symbol : MarketKey) (created : TimestampType) (ops : List ListenerOp)
    (hSession : Session (ticksOf ops))
    (hAdmits : Along (always LiveBook.step) LiveBook.Admits {} (ticksOf ops)) :
    ∃ st, run step (start symbol created) ops = some st ∧ st.Pictures (ticksOf ops) := by
  obtain ⟨st, log, hRun, h⟩ := inSession_of_run symbol created ops hSession hAdmits
  exact ⟨st, hRun, h.pictures⟩

theorem carefulSubscriber_pictures : ∃ st,
    run step (start (.spot ⟨"btc", "usd"⟩) 0) carefulSubscriber = some st ∧
      st.Pictures (ticksOf carefulSubscriber) :=
  pictures_run (.spot ⟨"btc", "usd"⟩) 0 carefulSubscriber (by decide +kernel) (by decide +kernel)

end ListenerRun

end Arby.PowerTrade
