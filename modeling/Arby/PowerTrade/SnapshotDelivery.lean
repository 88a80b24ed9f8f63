import Arby.PowerTrade.CatchUp
import Arby.PowerTrade.ServiceRun

/-! What the returned snapshots say: each has the book of the service, by whichever route it was
built, as long as the steps of the run are clean. -/

namespace Arby.PowerTrade

open Trading Kit

def TickRecord.isAdd : TickRecord → Bool
  | .add _ => true
  | _ => false

namespace ServiceRun

/-- What can go wrong in a call does not: an execution that empties a level; an addition as the very
first tick, which a new snapshot is taken to have; a replay that looks up an entry which an
assignment left behind; a copy of a book whose cache misses an order, as it does when an id rests
twice. -/
def Clean (st : ServiceRun) : ServiceOp → Prop
  | .processTick tick now =>
    ¬st.svc.orderBook.EmptiesLevel tick ∧
    ¬(tick.isAdd = true ∧ st.svc.currentGeneration = 0 ∧ st.svc.tickHistory.nextSequence = 0) ∧
    if st.svc.catchesUpOn tick (st.svc.taken now) = true then
      OrderBook.namesOnly (st.svc.taken now).book.notStale
        ((st.svc.historyOf tick).history.after (st.svc.taken now).sequence) = true
    else
      (tick.isSnapshot = true ∨ st.svc.orderBook.FindsAll) ∧ st.svc.orderBook.FreshIds tick
  | .deallocateSnapshot _ => True

instance (st : ServiceRun) (op : ServiceOp) : Decidable (st.Clean op) :=
  match op with
  | .processTick _ _ | .deallocateSnapshot _ => by
    dsimp only [Clean]
    infer_instance

/-- The snapshot that a call returns has the book of the service. -/
def Delivers (st : ServiceRun) (op : ServiceOp) (st' : ServiceRun) : Prop :=
  match op with
  | .processTick _ _ => ∃ snap, st'.held = snap :: st.held ∧ snap.book.same st'.svc.orderBook
  | .deallocateSnapshot _ => True

/-- A snapshot of the generation whose tick the history has is as old as the ticks after it. -/
def CaughtUp (st : ServiceRun) (o : OrderbookSnapshot) : Prop :=
  o.generation = st.svc.currentGeneration →
    (st.svc.tickHistory.history.find? o.sequence).isSome →
      ∃ r, OrderBook.InStep o.book.notStale o.book r ∧
        run OrderBook.replayTick r (st.svc.tickHistory.history.after o.sequence) =
          some st.svc.orderBook

structure Delivered (st : ServiceRun) : Prop where
  tracked : ∃ old current, st.Tracked old current
  placed : st.svc.orderBook.Placed
  linked : st.svc.orderBook.Linked
  books : ∀ o ∈ st.snaps, o.book.Placed
  caughtUp : ∀ o ∈ st.snaps, st.CaughtUp o
  /-- Before the first snapshot tick no new object finds its sequence number 0 in the history. -/
  fresh : st.svc.currentGeneration = 0 → st.svc.tickHistory.history.find? 0 = none
  start : st.svc.currentGeneration = 0 → st.svc.tickHistory.nextSequence = 0 →
    st.svc.orderBook = {}

theorem delivered_empty : Delivered {} where
  tracked := ⟨[], [], tracked_empty⟩
  placed := OrderBook.placed_empty
  linked := OrderBook.linked_empty
  books _ h := nomatch h
  caughtUp _ h := nomatch h
  fresh _ := rfl
  start _ _ := rfl

variable {st st' : ServiceRun} {old current : List Issue} {tick : TickRecord} {now : TimestampType}
  {snap' : OrderbookSnapshot} {orderBook : OrderBook}

theorem replay_empty (hAdd : tick.isAdd = false) (hTick : tick.isSnapshot = false)
    (hStep : OrderBook.replayTick {} tick = some orderBook) : orderBook = {} := by
  cases tick with
  | snapshot => cases hTick
  | add => cases hAdd
  | remove r =>
    obtain ⟨id, ts, side⟩ := r
    cases side <;> exact (Option.some.inj hStep).symm
  | execute e =>
    obtain ⟨id, price, qty, ts, side⟩ := e
    cases side <;> exact (Option.some.inj hStep).symm

theorem Tracked.catchesUp_cases (h : st.Tracked old current)
    (hCatch : st.svc.catchesUpOn tick (st.svc.taken now) = true) : tick.isSnapshot = false ∧
      ((st.svc.freeSnaps = [] ∧ st.svc.currentGeneration = 0 ∧
          st.svc.taken now = { object := st.svc.made, timestamp := now, upstreamTime := now }) ∨
        st.svc.taken now ∈ st.snaps ∧
          (st.svc.taken now).generation = st.svc.currentGeneration) := by
  have hGen := of_decide_eq_true (Bool.and_eq_true_iff.mp hCatch).1
  rcases st.svc.pool_cases now with ⟨hFree, hTaken⟩ | hFree
  · rw [hTaken, OrderbookSnapshotService.generationOf] at hGen
    split at hGen
    · cases hGen
    · rename_i hTick
      exact ⟨Bool.not_eq_true _ ▸ hTick, .inl ⟨hFree, hGen.symm, hTaken⟩⟩
  · have hMem : st.svc.taken now ∈ st.snaps :=
      List.mem_append_right _ (hFree ▸ List.mem_cons_self)
    have hLe := h.generation_le hMem
    rw [OrderbookSnapshotService.generationOf] at hGen
    split at hGen
    · omega
    · rename_i hTick
      exact ⟨Bool.not_eq_true _ ▸ hTick, .inr ⟨hMem, hGen⟩⟩

/-- The replay of the history onto the taken snapshot returns, and the book is in step with that of
the service. -/
theorem Delivered.catchUp (h : st.Delivered) (hClean : st.Clean (.processTick tick now))
    (hCatch : st.svc.catchesUpOn tick (st.svc.taken now) = true)
    (hBook : st.svc.orderBook.replayTick tick = some orderBook) :
    ∃ book, run OrderBook.replayTick (st.svc.taken now).book
        ((st.svc.historyOf tick).history.after (st.svc.taken now).sequence) = some book ∧
      OrderBook.InStep book.notStale book orderBook ∧ book.Placed := by
  obtain ⟨old, current, hTracked⟩ := h.tracked
  obtain ⟨-, hFirst, hNames⟩ := hClean
  rw [if_pos hCatch] at hNames
  have hFind := (Bool.and_eq_true_iff.mp hCatch).2
  obtain ⟨hTick, hCases⟩ := hTracked.catchesUp_cases hCatch
  have hEntered : st.svc.historyOf tick = st.svc.tickHistory.addTick tick :=
    congrArg (TickHistory.addTick · tick) (if_neg (by simp [hTick]))
  have hKeeps := hTracked.history.addTick tick
  rw [← hEntered] at hKeeps
  rcases hCases with ⟨-, hGen, hTaken⟩ | ⟨hMem, hGen⟩
  · -- A new object is taken to have the tick 0, which must be the tick of this call.
    rw [hTaken] at hFind ⊢
    rw [hEntered, hTracked.history.find?_addTick, h.fresh hGen] at hFind
    have hLength : 0 = (current.map Issue.tick).length := by simpa using hFind
    have hNil : current.map Issue.tick = [] := List.length_eq_zero_iff.mp hLength.symm
    have hNext : st.svc.tickHistory.nextSequence = 0 := hTracked.history.1.trans hLength.symm
    have hAfter : (st.svc.historyOf tick).history.after 0 = [] := by
      have hSome : ((st.svc.historyOf tick).history.find? 0).isSome := by
        rw [hEntered, hTracked.history.find?_addTick]
        exact .inr hLength
      rw [(hKeeps.find? hSome).2, hNil]
      rfl
    have hAdd : tick.isAdd = false :=
      Bool.not_eq_true _ ▸ fun hAdd => hFirst ⟨hAdd, hGen, hNext⟩
    rw [h.start hGen hNext] at hBook
    obtain rfl := replay_empty hAdd hTick hBook
    refine ⟨{}, by rw [hAfter]; rfl, ⟨rfl, fun d => ?_⟩, OrderBook.placed_empty⟩
    cases d <;> exact (BookSide.inStep_reset {} {}).settle
  · have hLt := hTracked.sequence_lt hMem hGen
    have hOld : (st.svc.tickHistory.history.find? (st.svc.taken now).sequence).isSome := by
      rw [hEntered, hTracked.history.find?_addTick, List.length_map] at hFind
      exact hFind.resolve_right (by omega)
    obtain ⟨r, hInStep, hRun⟩ := h.caughtUp _ hMem hGen hOld
    have hAfter : (st.svc.historyOf tick).history.after (st.svc.taken now).sequence =
        st.svc.tickHistory.history.after (st.svc.taken now).sequence ++ [tick] := by
      rw [(hKeeps.find? hFind).2, (hTracked.history.find? hOld).2,
        List.drop_append_of_le_length (by rw [List.length_map]; omega)]
    rw [hAfter] at hNames ⊢
    have hRun' : run OrderBook.replayTick r
        (st.svc.tickHistory.history.after (st.svc.taken now).sequence ++ [tick]) =
          some orderBook := by
      rw [run_concat, hRun]
      exact hBook
    obtain ⟨good, book, hCaught, hStep⟩ := hInStep.run hNames hRun'
    refine ⟨book, hCaught, hStep.settle, ?_⟩
    exact run_invariant (I := OrderBook.Placed) (fun _ _ _ hp hs => hp.replayTick hs)
      (h.books _ hMem) hCaught

theorem Delivered.returns (h : st.Delivered) (hClean : st.Clean (.processTick tick now)) :
    ∃ st', st.step (.processTick tick now) = some st' := by
  obtain ⟨orderBook, hBook⟩ := Option.isSome_iff_exists.mp <|
    (h.linked.replayTick_isSome h.placed tick).mpr hClean.1
  have hBring : ∃ x, ((st.svc.entered tick orderBook).allocateSnapshot now).1.bringUp
      (st.svc.taken now) = some x := by
    rw [OrderbookSnapshotService.allocateSnapshot_entered]
    cases hCatch : st.svc.catchesUpOn tick (st.svc.taken now) with
    | true =>
      obtain ⟨book, hRun, -⟩ := h.catchUp hClean hCatch hBook
      exact ⟨(_, book), OrderbookSnapshotService.bringUp_eq_some.mpr (.inl ⟨hCatch, hRun, rfl⟩)⟩
    | false =>
      exact ⟨(_, _), OrderbookSnapshotService.bringUp_eq_some.mpr (.inr ⟨hCatch, rfl, rfl⟩)⟩
  obtain ⟨⟨svc₃, book⟩, hBring⟩ := hBring
  obtain ⟨⟨svc', snap'⟩, hStamp⟩ : ∃ x, svc₃.stamp (st.svc.taken now) book now = x := ⟨_, rfl⟩
  have hCall : st.svc.processTick tick now = some (svc', snap') :=
    OrderbookSnapshotService.processTick_eq_some.mpr ⟨orderBook, hBook, svc₃, book, hBring, hStamp⟩
  exact ⟨_, Option.bind_eq_some_iff.mpr ⟨(svc', snap'), hCall, rfl⟩⟩

theorem Delivered.inStep (h : st.Delivered) (hClean : st.Clean (.processTick tick now))
    (hTurn : st.svc.Turn tick now st'.svc snap') :
    OrderBook.InStep snap'.book.notStale snap'.book st'.svc.orderBook ∧ snap'.book.Placed := by
  have hTaken : (st.svc.taken now).book.Placed := by
    rcases hTurn.pool with ⟨-, -, -, hNew⟩ | ⟨hFree, -⟩
    · rw [hNew]
      exact OrderBook.placed_empty
    · exact h.books _ (List.mem_append_right _ (hFree ▸ List.mem_cons_self))
  rcases hTurn.route with ⟨hCatch, hRun, -⟩ | ⟨hCatch, hCopy, -⟩
  · obtain ⟨book, hRun', hInStep, hPlaced⟩ := h.catchUp hClean hCatch hTurn.orderBook
    obtain rfl := Option.some.inj (hRun.symm.trans hRun')
    exact ⟨hInStep, hPlaced⟩
  · obtain ⟨-, -, hCopyClean⟩ := hClean
    rw [if_neg (by simp [hCatch])] at hCopyClean
    have hPlaced := h.placed.replayTick hTurn.orderBook
    have hIndexed : st'.svc.orderBook.Indexed :=
      OrderBook.Indexed.replayTick h.placed (hCopyClean.1.imp_right h.linked.indexed) hCopyClean.2
        hTurn.orderBook
    rw [hCopy]
    exact ⟨OrderBook.inStep_assign hTaken hPlaced hIndexed, OrderBook.placed_assign hTaken hPlaced⟩

theorem Tracked.find?_turn (h : st.Tracked old current)
    (hTurn : st.svc.Turn tick now st'.svc snap') {k : ℕ}
    (hFind : (st'.svc.tickHistory.history.find? k).isSome) :
    ((st.svc.historyOf tick).history.find? k).isSome := by
  obtain ⟨-, -, -, hKeeps, hBelow⟩ := h.entered tick
  have hLe : ∀ w ∈ (st.svc.historyOf tick).watermarks,
      w ≤ ((preceding tick current).map Issue.tick ++ [tick]).length := by
    intro w hw
    have := hBelow w hw
    simp
    omega
  rcases hTurn.route with ⟨-, -, hHistory⟩ | ⟨-, -, hHistory⟩
  · rw [hHistory] at hFind
    exact (hKeeps.removeWatermark hLe _).2.2 k hFind
  · rw [hHistory] at hFind
    exact hFind

theorem Delivered.caughtUp_turn (h : st.Delivered) (hTracked : st.Tracked old current)
    (hClean : st.Clean (.processTick tick now)) (hTurn : st.svc.Turn tick now st'.svc snap')
    (hHeld : st'.held = snap' :: st.held) : ∀ o ∈ st'.snaps, st'.CaughtUp o := by
  have hSnaps : st'.snaps = snap' :: (st.held ++ st'.svc.freeSnaps) := by rw [snaps, hHeld]; rfl
  obtain ⟨hKeeps, hSequence, -⟩ := hTracked.history_turn hTurn
  intro o ho hGen hFind
  rw [hSnaps] at ho
  rcases List.mem_cons.mp ho with rfl | ho
  · refine ⟨_, (h.inStep hClean hTurn).1, ?_⟩
    rw [(hKeeps.find? hFind).2, hSequence, List.drop_eq_nil_of_le (by simp)]
    rfl
  · have hMem := ((hTracked.others hTurn).1 o ho).1
    have hLe := hTracked.generation_le hMem
    have hTick : tick.isSnapshot = false := by
      by_contra hSnapshot
      rw [hTurn.currentGeneration, OrderbookSnapshotService.generationOf,
        if_pos (Bool.not_eq_false _ ▸ hSnapshot)] at hGen
      omega
    have hSame : o.generation = st.svc.currentGeneration := by
      rw [hGen, hTurn.currentGeneration, OrderbookSnapshotService.generationOf,
        if_neg (by simp [hTick])]
    have hEntered : st.svc.historyOf tick = st.svc.tickHistory.addTick tick :=
      congrArg (TickHistory.addTick · tick) (if_neg (by simp [hTick]))
    have hPreceding : preceding tick current = current := if_neg (by simp [hTick])
    have hLt := hTracked.sequence_lt hMem hSame
    have hOld : (st.svc.tickHistory.history.find? o.sequence).isSome := by
      have hBefore := hTracked.find?_turn hTurn hFind
      rw [hEntered, hTracked.history.find?_addTick, List.length_map] at hBefore
      exact hBefore.resolve_right (by omega)
    obtain ⟨r, hInStep, hRun⟩ := h.caughtUp o hMem hSame hOld
    refine ⟨r, hInStep, ?_⟩
    rw [(hKeeps.find? hFind).2, hPreceding, List.drop_append_of_le_length
      (by rw [List.length_map]; omega), ← (hTracked.history.find? hOld).2, run_concat, hRun]
    exact hTurn.orderBook

/-- In the generation before the first snapshot tick the history loses its tick 0 at once. -/
theorem Delivered.fresh_turn (h : st.Delivered) (hTracked : st.Tracked old current)
    (hTurn : st.svc.Turn tick now st'.svc snap') (hGen : st'.svc.currentGeneration = 0) :
    st'.svc.tickHistory.history.find? 0 = none := by
  have hTick : tick.isSnapshot = false := by
    by_contra hSnapshot
    rw [hTurn.currentGeneration, OrderbookSnapshotService.generationOf,
      if_pos (Bool.not_eq_false _ ▸ hSnapshot)] at hGen
    cases hGen
  have hZero : st.svc.currentGeneration = 0 := by
    rw [← hGen, hTurn.currentGeneration, OrderbookSnapshotService.generationOf,
      if_neg (by simp [hTick])]
  have hEntered : st.svc.historyOf tick = st.svc.tickHistory.addTick tick :=
    congrArg (TickHistory.addTick · tick) (if_neg (by simp [hTick]))
  by_contra hSome
  have hBefore := hTracked.find?_turn hTurn (k := 0) (Option.isSome_iff_ne_none.mpr hSome)
  have hCurrent : current = [] := by
    rw [hEntered, hTracked.history.find?_addTick, h.fresh hZero, List.length_map] at hBefore
    exact List.length_eq_zero_iff.mp (hBefore.resolve_left (by simp)).symm
  -- Nothing was returned so far, so the snapshot is new and its watermark 0 clears the history.
  subst hCurrent
  have hFree : st.svc.freeSnaps = [] := by
    refine List.eq_nil_iff_forall_not_mem.mpr fun o ho => ?_
    have hMem : o ∈ st.snaps := List.mem_append_right _ ho
    have hLe := hTracked.generation_le hMem
    exact absurd (hTracked.sequence_lt hMem (by omega)) (by simp)
  have hTaken : st.svc.taken now =
      { object := st.svc.made, timestamp := now, upstreamTime := now } := by
    rcases hTurn.pool with ⟨-, -, -, hTaken⟩ | ⟨hCons, -⟩
    · exact hTaken
    · rw [hFree] at hCons
      cases hCons
  rcases hTurn.route with ⟨-, -, hHistory⟩ | ⟨hCatch, -⟩
  · have hMarks : ((st.svc.historyOf tick).removeWatermark
        (st.svc.taken now).sequence).watermarks = [] := by
      refine List.eq_nil_iff_forall_not_mem.mpr fun w hw => ?_
      have hOld := (TickHistory.mem_removeWatermark.mp hw).1
      rw [hEntered] at hOld
      exact absurd (hTracked.watermarks w hOld) (by simp)
    have hEmpty := TickHistory.history_removeWatermark_last hMarks
    rw [hHistory] at hSome
    change ((st.svc.historyOf tick).removeWatermark (st.svc.taken now).sequence).history.find? 0 ≠
      none at hSome
    rw [hEmpty] at hSome
    exact hSome rfl
  · rw [OrderbookSnapshotService.catchesUpOn, OrderbookSnapshotService.generationOf,
      if_neg (by simp [hTick]), hTaken, hBefore, hZero] at hCatch
    cases hCatch

theorem Delivered.processTick (h : st.Delivered) (hClean : st.Clean (.processTick tick now))
    (hStep : st.step (.processTick tick now) = some st') :
    st.Delivers (.processTick tick now) st' ∧ st'.Delivered := by
  obtain ⟨old, current, hTracked⟩ := h.tracked
  obtain ⟨snap', hTurn, hHeld, hLog⟩ := step_processTick hStep
  obtain ⟨hInStep, hPlaced⟩ := h.inStep hClean hTurn
  have hTracked' := hTracked.processTick hTurn hHeld hLog
  refine ⟨⟨snap', hHeld, hInStep.same⟩, ⟨_, _, hTracked'⟩,
    h.placed.replayTick hTurn.orderBook, h.linked.replayTick h.placed hTurn.orderBook,
    fun o ho => ?_, h.caughtUp_turn hTracked hClean hTurn hHeld,
    h.fresh_turn hTracked hTurn, fun _ hNext => ?_⟩
  · rw [snaps, hHeld, List.cons_append] at ho
    rcases List.mem_cons.mp ho with rfl | ho
    · exact hPlaced
    · exact h.books o ((hTracked.others hTurn).1 o ho).1
  · rw [hTracked'.history.1] at hNext
    simp at hNext

theorem Delivered.deallocateSnapshot {i : ℕ} (h : st.Delivered)
    (hStep : st.step (.deallocateSnapshot i) = some st') : st'.Delivered := by
  have hTracked := Tracked.step h.tracked hStep
  rcases step_deallocateSnapshot hStep with rfl | ⟨snap, hSnap, rfl⟩
  · exact h
  · have hPerm := snaps_deallocateSnapshot hSnap
    exact ⟨hTracked, h.placed, h.linked, fun o ho => h.books o (hPerm.mem_iff.mp ho),
      fun o ho => h.caughtUp o (hPerm.mem_iff.mp ho), h.fresh, h.start⟩

/-- In a run of clean steps every call returns a snapshot with the book of the service. -/
theorem delivers_of_clean (ops : List ServiceOp) (hClean : Along ServiceRun.step Clean {} ops) :
    Safe ServiceRun.step Delivers {} ops := by
  refine safe_of_along (I := Delivered) (fun st op h hOp => ?_) delivered_empty hClean
  cases op with
  | processTick tick now =>
    obtain ⟨st', hStep⟩ := h.returns hOp
    obtain ⟨hDelivers, hDelivered⟩ := h.processTick hOp hStep
    exact ⟨st', hStep, hDelivers, hDelivered⟩
  | deallocateSnapshot i =>
    obtain ⟨st', hStep⟩ : ∃ st', st.step (.deallocateSnapshot i) = some st' := by
      simp only [step]
      split <;> exact ⟨_, rfl⟩
    exact ⟨st', hStep, trivial, h.deallocateSnapshot hStep⟩

/-- All three routes: new objects, a recycled one that is caught up through an addition, and one that
is recycled into the next generation by a copy. -/
def threeRoutes : List ServiceOp :=
  [.processTick (.snapshot (.ofSides [⟨"1", 39628, 1, 1, .buy⟩] [])) 10,
    .processTick (.add ⟨"2", 39631, 1, 2, .sell⟩) 20, .deallocateSnapshot 1,
    .processTick (.remove ⟨"1", 3, .buy⟩) 30, .deallocateSnapshot 1,
    .processTick (.snapshot (.ofSides [] [⟨"4", 39640, 1, 4, .sell⟩])) 40]

theorem threeRoutes_delivers : Safe ServiceRun.step Delivers {} threeRoutes :=
  delivers_of_clean threeRoutes (by decide +kernel)

/-- An addition as the first tick. -/
def firstAddition : List ServiceOp := [.processTick (.add ⟨"1", 100, 1, 1, .buy⟩) 10]

/-- The history has the tick 0 by the time that a new snapshot, of generation 0 and sequence number
0, looks for it: nothing is replayed, and the returned book is empty. -/
theorem firstAddition_lost : ¬Safe ServiceRun.step Delivers {} firstAddition := by
  rintro ⟨st', hStep, ⟨snap, hHeld, hSame⟩, -⟩
  have hBooks : (ServiceRun.step {} (.processTick (.add ⟨"1", 100, 1, 1, .buy⟩) 10)).map
      (fun st => st.held.map fun snap => decide (snap.book.same st.svc.orderBook)) =
        some [false] := by
    decide +kernel
  rw [hStep, Option.map_some, hHeld, List.map_cons, decide_eq_true hSame] at hBooks
  cases hBooks

end ServiceRun

end Arby.PowerTrade
