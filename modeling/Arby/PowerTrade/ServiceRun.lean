import Arby.PowerTrade.OrderbookSnapshotService

/-! The runs of the snapshot service with its receivers: ticks are processed, and snapshots that
were returned are given back in any order. `Turn` says once what a call of `process_tick` does. -/

namespace Arby.PowerTrade

open Trading Kit

namespace OrderbookSnapshotService

/-- The generation that `tick` belongs to. -/
def generationOf (svc : OrderbookSnapshotService) (tick : TickRecord) : ℕ :=
  if tick.isSnapshot then svc.currentGeneration + 1 else svc.currentGeneration

/-- The history that ends with `tick`. -/
def historyOf (svc : OrderbookSnapshotService) (tick : TickRecord) : TickHistory :=
  (if tick.isSnapshot then svc.tickHistory.reset else svc.tickHistory).addTick tick

/-- The object that the next call takes: the one that was given back last, or a new one. -/
def taken (svc : OrderbookSnapshotService) (now : TimestampType) : OrderbookSnapshot :=
  (svc.allocateSnapshot now).2

def catchesUpOn (svc : OrderbookSnapshotService) (tick : TickRecord) (snap : OrderbookSnapshot) :
    Bool :=
  decide (snap.generation = svc.generationOf tick) &&
    ((svc.historyOf tick).history.find? snap.sequence).isSome

variable {svc svc₁ svc' : OrderbookSnapshotService} {tick : TickRecord} {now : TimestampType}
  {snap' : OrderbookSnapshot}

/-- The service once `tick` is in the history and `orderBook` has replayed it. -/
def entered (svc : OrderbookSnapshotService) (tick : TickRecord) (orderBook : OrderBook) :
    OrderbookSnapshotService :=
  { svc with
    tickHistory := svc.historyOf tick
    currentGeneration := svc.generationOf tick
    orderBook }

theorem beginTick_eq (svc : OrderbookSnapshotService) (tick : TickRecord) :
    svc.beginTick tick = (svc.orderBook.replayTick tick).map (svc.entered tick) := by
  unfold beginTick entered historyOf generationOf
  cases hBook : svc.orderBook.replayTick tick <;> cases tick.isSnapshot <;> simp [hBook]

/-- The allocation changes the pool only, and takes the same object before and after `tick` is
entered. -/
theorem allocateSnapshot_entered (orderBook : OrderBook) :
    (svc.entered tick orderBook).allocateSnapshot now =
      ({ svc.entered tick orderBook with
          freeSnaps := svc.freeSnaps.tail
          made := if svc.freeSnaps = [] then svc.made + 1 else svc.made }, svc.taken now) := by
  unfold taken allocateSnapshot entered
  cases svc.freeSnaps <;> simp

theorem pool_cases (svc : OrderbookSnapshotService) (now : TimestampType) :
    svc.freeSnaps = [] ∧
        svc.taken now = { object := svc.made, timestamp := now, upstreamTime := now } ∨
      svc.freeSnaps = svc.taken now :: svc.freeSnaps.tail := by
  unfold taken allocateSnapshot
  cases svc.freeSnaps with
  | nil => exact .inl ⟨rfl, rfl⟩
  | cons result rest => exact .inr rfl

/-- What a call of `process_tick` that returns does. -/
structure Turn (svc : OrderbookSnapshotService) (tick : TickRecord) (now : TimestampType)
    (svc' : OrderbookSnapshotService) (snap' : OrderbookSnapshot) : Prop where
  orderBook : svc.orderBook.replayTick tick = some svc'.orderBook
  currentGeneration : svc'.currentGeneration = svc.generationOf tick
  pool : svc.freeSnaps = [] ∧ svc'.freeSnaps = [] ∧ svc'.made = svc.made + 1 ∧
      svc.taken now = { object := svc.made, timestamp := now, upstreamTime := now } ∨
    svc.freeSnaps = svc.taken now :: svc'.freeSnaps ∧ svc'.made = svc.made
  object : snap'.object = (svc.taken now).object
  generation : snap'.generation = svc'.currentGeneration
  sequence : snap'.sequence = (svc.historyOf tick).highestSequence
  route :
    svc.catchesUpOn tick (svc.taken now) = true ∧
      run OrderBook.replayTick (svc.taken now).book
        ((svc.historyOf tick).history.after (svc.taken now).sequence) = some snap'.book ∧
      svc'.tickHistory = ((svc.historyOf tick).removeWatermark
        (svc.taken now).sequence).addWatermark snap'.sequence ∨
    svc.catchesUpOn tick (svc.taken now) = false ∧
      snap'.book = (svc.taken now).book.assign svc'.orderBook ∧
      svc'.tickHistory = (svc.historyOf tick).addWatermark snap'.sequence

theorem processTick_eq_some : svc.processTick tick now = some (svc', snap') ↔
    ∃ orderBook, svc.orderBook.replayTick tick = some orderBook ∧
      ∃ svc₃ book, ((svc.entered tick orderBook).allocateSnapshot now).1.bringUp (svc.taken now) =
        some (svc₃, book) ∧ svc₃.stamp (svc.taken now) book now = (svc', snap') := by
  simp only [processTick, beginTick_eq, Option.bind_eq_bind, Option.bind_eq_some_iff,
    Option.map_eq_some_iff, allocateSnapshot_entered, Prod.exists]
  constructor
  · rintro ⟨_, ⟨orderBook, hBook, rfl⟩, svc₃, book, hBring, hStamp⟩
    rw [allocateSnapshot_entered] at hBring hStamp
    exact ⟨orderBook, hBook, svc₃, book, hBring, Option.some.inj hStamp⟩
  · rintro ⟨orderBook, hBook, svc₃, book, hBring, hStamp⟩
    refine ⟨_, ⟨orderBook, hBook, rfl⟩, svc₃, book, ?_⟩
    rw [allocateSnapshot_entered]
    exact ⟨hBring, congrArg some hStamp⟩

theorem bringUp_eq_some {snap : OrderbookSnapshot} {book : OrderBook} :
    svc.bringUp snap = some (svc', book) ↔
      svc.catchesUp snap = true ∧
          run OrderBook.replayTick snap.book (svc.replayed snap) = some book ∧
          svc' = { svc with tickHistory := svc.tickHistory.removeWatermark snap.sequence } ∨
        svc.catchesUp snap = false ∧ svc' = svc ∧ book = snap.book.assign svc.orderBook := by
  unfold bringUp
  cases svc.catchesUp snap
  · simp [eq_comm]
  · simp only [if_true, Option.bind_eq_bind, Option.bind_eq_some_iff, Option.pure_def,
      Option.some.injEq, Prod.mk.injEq, true_and, reduceCtorEq, false_and, or_false]
    constructor
    · rintro ⟨book', hRun, rfl, rfl⟩
      exact ⟨hRun, rfl⟩
    · rintro ⟨hRun, rfl⟩
      exact ⟨book, hRun, rfl, rfl⟩

theorem processTick_turn (h : svc.processTick tick now = some (svc', snap')) :
    svc.Turn tick now svc' snap' := by
  obtain ⟨orderBook, hBook, svc₃, book, hBring, hStamp⟩ := processTick_eq_some.mp h
  obtain ⟨rfl, rfl⟩ := Prod.mk.inj hStamp
  rw [allocateSnapshot_entered] at hBring
  have hPool : svc.freeSnaps = [] ∧ svc.freeSnaps.tail = [] ∧
      (if svc.freeSnaps = [] then svc.made + 1 else svc.made) = svc.made + 1 ∧
      svc.taken now = { object := svc.made, timestamp := now, upstreamTime := now } ∨
      svc.freeSnaps = svc.taken now :: svc.freeSnaps.tail ∧
      (if svc.freeSnaps = [] then svc.made + 1 else svc.made) = svc.made := by
    rcases svc.pool_cases now with ⟨hFree, hTaken⟩ | hFree
    · exact .inl ⟨hFree, by rw [hFree]; rfl, if_pos hFree, hTaken⟩
    · exact .inr ⟨hFree, if_neg (by rw [hFree]; simp)⟩
  rcases bringUp_eq_some.mp hBring with ⟨hRoute, hRun, rfl⟩ | ⟨hRoute, rfl, rfl⟩
  · exact ⟨hBook, rfl, hPool, rfl, rfl, rfl, .inl ⟨hRoute, hRun, rfl⟩⟩
  · exact ⟨hBook, rfl, hPool, rfl, rfl, rfl, .inr ⟨hRoute, rfl, rfl⟩⟩

end OrderbookSnapshotService

/-! ### Runs -/

/-- The return of a snapshot: the tick that it answers, the object, and its stamp. -/
structure Issue where
  tick : TickRecord
  object : ℕ
  generation : ℕ
  sequence : ℕ

/-- The service, the snapshots that receivers hold, and the returns of snapshots so far. -/
structure ServiceRun where
  svc : OrderbookSnapshotService := {}
  held : List OrderbookSnapshot := []
  log : List Issue := []

/-- A call of `process_tick`, or of `deallocate_snapshot` with a snapshot that is held. -/
inductive ServiceOp
  | processTick (tick : TickRecord) (now : TimestampType)
  | deallocateSnapshot (i : ℕ)

namespace ServiceRun

def step (st : ServiceRun) : ServiceOp → Option ServiceRun
  | .processTick tick now => do
    let (svc, snap) ← st.svc.processTick tick now
    return {
      svc
      held := snap :: st.held
      log := st.log ++ [⟨tick, snap.object, snap.generation, snap.sequence⟩] }
  | .deallocateSnapshot i =>
    match st.held[i]? with
    | none => some st
    | some snap =>
      some { st with svc := st.svc.deallocateSnapshot snap, held := st.held.eraseIdx i }

/-- The snapshots that are held or pooled. -/
def snaps (st : ServiceRun) : List OrderbookSnapshot := st.held ++ st.svc.freeSnaps

variable {st st' : ServiceRun} {tick : TickRecord} {now : TimestampType}

theorem step_processTick (h : st.step (.processTick tick now) = some st') :
    ∃ snap', st.svc.Turn tick now st'.svc snap' ∧ st'.held = snap' :: st.held ∧
      st'.log = st.log ++ [⟨tick, snap'.object, snap'.generation, snap'.sequence⟩] := by
  obtain ⟨⟨svc, snap⟩, hCall, hStep⟩ := Option.bind_eq_some_iff.mp h
  obtain rfl := Option.some.inj hStep
  exact ⟨snap, OrderbookSnapshotService.processTick_turn hCall, rfl, rfl⟩

theorem step_deallocateSnapshot {i : ℕ} (h : st.step (.deallocateSnapshot i) = some st') :
    st' = st ∨ ∃ snap, st.held[i]? = some snap ∧
      st' = { st with svc := st.svc.deallocateSnapshot snap, held := st.held.eraseIdx i } := by
  simp only [step] at h
  split at h
  · exact .inl (Option.some.inj h).symm
  · rename_i snap hSnap
    exact .inr ⟨snap, hSnap, (Option.some.inj h).symm⟩

theorem snaps_deallocateSnapshot {i : ℕ} {snap : OrderbookSnapshot} (h : st.held[i]? = some snap) :
    (ServiceRun.snaps { st with
      svc := st.svc.deallocateSnapshot snap, held := st.held.eraseIdx i }).Perm st.snaps := by
  obtain ⟨hi, rfl⟩ := List.getElem?_eq_some_iff.mp h
  have hHeld := List.getElem_cons_eraseIdx_perm hi
  exact List.perm_middle.trans (hHeld.append_right st.svc.freeSnaps)

/-- The last return of the object of `o` is `o` as it is. -/
def LastIssue (log : List Issue) (o : OrderbookSnapshot) : Prop :=
  ∃ before issue after, log = before ++ issue :: after ∧ issue.object = o.object ∧
    issue.generation = o.generation ∧ issue.sequence = o.sequence ∧
    ∀ i ∈ after, i.object ≠ o.object

/-- The log in two parts: the issues of older generations, and those of the current one under their
sequence numbers. The history has ticks of the latter. -/
structure Tracked (st : ServiceRun) (old current : List Issue) : Prop where
  split : st.log = old ++ current
  older : ∀ i ∈ old, i.generation < st.svc.currentGeneration
  numbered : ∀ k (i : Issue), current[k]? = some i →
    i.generation = st.svc.currentGeneration ∧ i.sequence = k
  history : st.svc.tickHistory.Keeps (current.map Issue.tick)
  watermarks : ∀ w ∈ st.svc.tickHistory.watermarks, w < current.length
  issued : ∀ o ∈ st.snaps, LastIssue st.log o
  objects : (st.snaps.map OrderbookSnapshot.object).Nodup
  made : ∀ o ∈ st.snaps, o.object < st.svc.made

variable {old current : List Issue}

theorem tracked_empty : Tracked {} [] [] where
  split := rfl
  older := by simp
  numbered := by simp
  history := TickHistory.keeps_reset {}
  watermarks := by simp
  issued := by simp [snaps]
  objects := by simp [snaps]
  made := by simp [snaps]

theorem Tracked.others {snap' : OrderbookSnapshot} (h : st.Tracked old current)
    (hTurn : st.svc.Turn tick now st'.svc snap') :
    (∀ o ∈ st.held ++ st'.svc.freeSnaps, o ∈ st.snaps ∧ o.object ≠ snap'.object) ∧
      ((snap' :: (st.held ++ st'.svc.freeSnaps)).map OrderbookSnapshot.object).Nodup ∧
      ∀ o ∈ snap' :: (st.held ++ st'.svc.freeSnaps), o.object < st'.svc.made := by
  rcases hTurn.pool with ⟨hFree, hFree', hMade, hTaken⟩ | ⟨hFree, hMade⟩
  · have hObject : snap'.object = st.svc.made := by rw [hTurn.object, hTaken]
    have hSnaps : st.held ++ st'.svc.freeSnaps = st.snaps := by rw [snaps, hFree, hFree']
    rw [hSnaps, List.map_cons, List.nodup_cons, hMade, hObject]
    have hLt := h.made
    refine ⟨fun o ho => ⟨ho, (hLt o ho).ne⟩, ⟨fun hMem => ?_, h.objects⟩, fun o ho => ?_⟩
    · obtain ⟨o, ho, hEq⟩ := List.mem_map.mp hMem
      exact absurd (hLt o ho) (by omega)
    · rcases List.mem_cons.mp ho with rfl | ho
      · omega
      · have := hLt o ho
        omega
  · have hPerm : st.snaps.Perm (st.svc.taken now :: (st.held ++ st'.svc.freeSnaps)) := by
      rw [snaps, hFree]
      exact List.perm_middle
    have hNodup := (hPerm.map OrderbookSnapshot.object).nodup_iff.mp h.objects
    have hHead := hNodup
    rw [List.map_cons, List.nodup_cons] at hHead
    refine ⟨fun o ho => ⟨hPerm.mem_iff.mpr (List.mem_cons_of_mem _ ho), fun hEq => hHead.1 ?_⟩, ?_,
      fun o ho => ?_⟩
    · rw [← hTurn.object, ← hEq]
      exact List.mem_map_of_mem ho
    · rw [List.map_cons, hTurn.object, ← List.map_cons (f := OrderbookSnapshot.object)]
      exact hNodup
    · rw [hMade]
      rcases List.mem_cons.mp ho with rfl | ho
      · rw [hTurn.object]
        exact h.made _ (hPerm.mem_iff.mpr List.mem_cons_self)
      · exact h.made _ (hPerm.mem_iff.mpr (List.mem_cons_of_mem _ ho))

/-- The issues of the generation of `tick` that precede it. -/
def preceding (tick : TickRecord) (current : List Issue) : List Issue :=
  if tick.isSnapshot then [] else current

/-- The issues before these. -/
def preceded (tick : TickRecord) (old current : List Issue) : List Issue :=
  if tick.isSnapshot then old ++ current else old

theorem Tracked.entered (h : st.Tracked old current) (tick : TickRecord) :
    st.log = preceded tick old current ++ preceding tick current ∧
      (∀ i ∈ preceded tick old current, i.generation < st.svc.generationOf tick) ∧
      (∀ k (i : Issue), (preceding tick current)[k]? = some i →
        i.generation = st.svc.generationOf tick ∧ i.sequence = k) ∧
      (st.svc.historyOf tick).Keeps ((preceding tick current).map Issue.tick ++ [tick]) ∧
      ∀ w ∈ (st.svc.historyOf tick).watermarks, w < (preceding tick current).length := by
  unfold preceding preceded OrderbookSnapshotService.generationOf
    OrderbookSnapshotService.historyOf
  cases tick.isSnapshot with
  | true =>
    refine ⟨by simpa using h.split, fun i hi => ?_, by simp,
      (TickHistory.keeps_reset st.svc.tickHistory).addTick tick, fun w hw => nomatch hw⟩
    rcases List.mem_append.mp hi with hi | hi
    · exact Nat.lt_succ_of_lt (h.older i hi)
    · obtain ⟨k, hk⟩ := List.mem_iff_getElem?.mp hi
      exact Nat.lt_succ_of_le (h.numbered k i hk).1.le
  | false => exact ⟨h.split, h.older, h.numbered, h.history.addTick tick, h.watermarks⟩

/-- The history after the call: nothing that was appended is lost out of order. -/
theorem Tracked.history_turn {snap' : OrderbookSnapshot} (h : st.Tracked old current)
    (hTurn : st.svc.Turn tick now st'.svc snap') :
    st'.svc.tickHistory.Keeps ((preceding tick current).map Issue.tick ++ [tick]) ∧
      snap'.sequence = (preceding tick current).length ∧
      ∀ w ∈ st'.svc.tickHistory.watermarks, w < (preceding tick current).length + 1 := by
  obtain ⟨-, -, -, hKeeps, hMarks⟩ := h.entered tick
  have hSequence : snap'.sequence = (preceding tick current).length := by
    have := hKeeps.highestSequence (by simp)
    rw [← hTurn.sequence, List.length_append, List.length_map, List.length_singleton] at this
    omega
  have hLe : ∀ w ∈ (st.svc.historyOf tick).watermarks,
      w ≤ ((preceding tick current).map Issue.tick ++ [tick]).length := by
    intro w hw
    have := hMarks w hw
    simp
    omega
  rcases hTurn.route with ⟨-, -, hHistory⟩ | ⟨-, -, hHistory⟩
  · rw [hHistory]
    refine ⟨((hKeeps.removeWatermark hLe _).1).addWatermark _, hSequence, fun w hw => ?_⟩
    rcases TickHistory.mem_addWatermark.mp hw with rfl | hw
    · omega
    · have := hMarks w (TickHistory.mem_removeWatermark.mp hw).1
      omega
  · rw [hHistory]
    refine ⟨hKeeps.addWatermark _, hSequence, fun w hw => ?_⟩
    rcases TickHistory.mem_addWatermark.mp hw with rfl | hw
    · omega
    · have := hMarks w hw
      omega

theorem LastIssue.append {log : List Issue} {o : OrderbookSnapshot} (h : LastIssue log o)
    {issue : Issue} (hne : issue.object ≠ o.object) : LastIssue (log ++ [issue]) o := by
  obtain ⟨before, i, after, rfl, hObject, hGeneration, hSequence, hAfter⟩ := h
  refine ⟨before, i, after ++ [issue], by simp, hObject, hGeneration, hSequence, fun j hj => ?_⟩
  rcases List.mem_append.mp hj with hj | hj
  · exact hAfter j hj
  · exact List.mem_singleton.mp hj ▸ hne

theorem Tracked.processTick {snap' : OrderbookSnapshot} (h : st.Tracked old current)
    (hTurn : st.svc.Turn tick now st'.svc snap') (hHeld : st'.held = snap' :: st.held)
    (hLog : st'.log = st.log ++ [⟨tick, snap'.object, snap'.generation, snap'.sequence⟩]) :
    st'.Tracked (preceded tick old current) (preceding tick current ++
      [⟨tick, snap'.object, snap'.generation, snap'.sequence⟩]) := by
  obtain ⟨hSplit, hOlder, hNumbered, -, -⟩ := h.entered tick
  obtain ⟨hKeeps, hSequence, hMarks⟩ := h.history_turn hTurn
  obtain ⟨hOthers, hObjects, hMade⟩ := h.others hTurn
  have hSnaps : st'.snaps = snap' :: (st.held ++ st'.svc.freeSnaps) := by rw [snaps, hHeld]; rfl
  refine ⟨by rw [hLog, hSplit, List.append_assoc], ?_, fun k i hi => ?_, ?_, ?_, fun o ho => ?_, ?_,
    ?_⟩
  · rw [hTurn.currentGeneration]
    exact hOlder
  · rw [hTurn.currentGeneration]
    by_cases hk : k < (preceding tick current).length
    · rw [List.getElem?_append_left hk] at hi
      exact hNumbered k i hi
    · rw [List.getElem?_append_right (by omega), List.getElem?_singleton] at hi
      split at hi
      · obtain rfl := Option.some.inj hi
        exact ⟨hTurn.generation.trans hTurn.currentGeneration, by dsimp only; omega⟩
      · cases hi
  · rw [List.map_append]
    exact hKeeps
  · simpa using hMarks
  · rw [hSnaps] at ho
    rw [hLog]
    rcases List.mem_cons.mp ho with rfl | ho
    · exact ⟨st.log, _, [], rfl, rfl, rfl, rfl, by simp⟩
    · exact (h.issued o (hOthers o ho).1).append (Ne.symm (hOthers o ho).2)
  · rw [hSnaps]
    exact hObjects
  · rw [hSnaps]
    exact hMade

theorem Tracked.step {op : ServiceOp} (h : ∃ old current, st.Tracked old current)
    (hStep : st.step op = some st') : ∃ old current, st'.Tracked old current := by
  obtain ⟨old, current, h⟩ := h
  cases op with
  | processTick tick now =>
    obtain ⟨snap', hTurn, hHeld, hLog⟩ := step_processTick hStep
    exact ⟨_, _, h.processTick hTurn hHeld hLog⟩
  | deallocateSnapshot i =>
    rcases step_deallocateSnapshot hStep with rfl | ⟨snap, hSnap, rfl⟩
    · exact ⟨old, current, h⟩
    · have hPerm := snaps_deallocateSnapshot hSnap
      exact ⟨old, current, h.split, h.older, h.numbered, h.history, h.watermarks,
        fun o ho => h.issued o (hPerm.mem_iff.mp ho),
        (hPerm.map _).nodup_iff.mpr h.objects, fun o ho => h.made o (hPerm.mem_iff.mp ho)⟩

theorem tracked_of_run {ops : List ServiceOp} (hRun : run ServiceRun.step {} ops = some st) :
    ∃ old current, st.Tracked old current :=
  run_invariant (I := fun st => ∃ old current, st.Tracked old current)
    (fun _ _ _ h hStep => Tracked.step h hStep) ⟨[], [], tracked_empty⟩ hRun

theorem Tracked.generation_le (h : st.Tracked old current) {o : OrderbookSnapshot}
    (ho : o ∈ st.snaps) : o.generation ≤ st.svc.currentGeneration := by
  obtain ⟨before, issue, after, hLog, -, hGen, -⟩ := h.issued o ho
  have hMem : issue ∈ old ++ current := by
    rw [← h.split, hLog]
    simp
  rw [← hGen]
  rcases List.mem_append.mp hMem with hMem | hMem
  · exact (h.older issue hMem).le
  · obtain ⟨k, hk⟩ := List.mem_iff_getElem?.mp hMem
    exact (h.numbered k issue hk).1.le

/-- A snapshot of the current generation was returned for the tick of its sequence number, and the
ticks since then are those after it in the generation. -/
theorem Tracked.since (h : st.Tracked old current) {o : OrderbookSnapshot} (ho : o ∈ st.snaps)
    (hGeneration : o.generation = st.svc.currentGeneration) :
    ∃ before issue after, st.log = before ++ issue :: after ∧ issue.object = o.object ∧
      issue.generation = o.generation ∧ issue.sequence = o.sequence ∧
      (∀ i ∈ after, i.object ≠ o.object) ∧
      current[o.sequence]? = some issue ∧ after = current.drop (o.sequence + 1) := by
  obtain ⟨before, issue, after, hLog, hObject, hGen, hSeq, hAfter⟩ := h.issued o ho
  refine ⟨before, issue, after, hLog, hObject, hGen, hSeq, hAfter, ?_⟩
  have hCur : issue.generation = st.svc.currentGeneration := hGen.trans hGeneration
  rw [h.split] at hLog
  rcases List.append_eq_append_iff.mp hLog with ⟨rest, rfl, hRest⟩ | ⟨rest, hOld, hRest⟩
  · have hAt : current[rest.length]? = some issue := by rw [hRest]; simp
    have hIndex : o.sequence = rest.length := hSeq.symm.trans (h.numbered _ issue hAt).2
    rw [hIndex]
    exact ⟨hAt, by rw [hRest, List.drop_append]; simp⟩
  · cases rest with
    | nil =>
      have hAt : current[0]? = some issue := by
        rw [List.nil_append] at hRest
        rw [← hRest]
        rfl
      have hIndex : o.sequence = 0 := hSeq.symm.trans (h.numbered _ issue hAt).2
      rw [List.nil_append] at hRest
      rw [hIndex, ← hRest]
      exact ⟨rfl, rfl⟩
    | cons first rest =>
      have hFirst : issue = first := (List.cons.inj hRest).1
      have hLt := h.older issue (by rw [hOld, hFirst]; simp)
      omega

theorem Tracked.sequence_lt (h : st.Tracked old current) {o : OrderbookSnapshot}
    (ho : o ∈ st.snaps) (hGeneration : o.generation = st.svc.currentGeneration) :
    o.sequence < current.length := by
  obtain ⟨before, issue, after, -, -, -, -, -, hAt, -⟩ := h.since ho hGeneration
  exact (List.getElem?_eq_some_iff.mp hAt).1

/-- The catch-up of a recycled snapshot replays the ticks since the snapshot was returned last, each
once and in their order. -/
theorem replayed_since_return {ops : List ServiceOp}
    (hRun : run ServiceRun.step {} ops = some st) {svc₁ svc₂ : OrderbookSnapshotService}
    {snap : OrderbookSnapshot} (hFree : st.svc.freeSnaps ≠ [])
    (hBegin : st.svc.beginTick tick = some svc₁)
    (hAllocate : svc₁.allocateSnapshot now = (svc₂, snap)) (hCatchesUp : svc₂.catchesUp snap = true) :
    ∃ before issue after, st.log = before ++ issue :: after ∧ issue.object = snap.object ∧
      issue.generation = svc₂.currentGeneration ∧ issue.sequence = snap.sequence ∧
      (∀ i ∈ after, i.object ≠ snap.object) ∧
      svc₂.replayed snap = after.map Issue.tick ++ [tick] := by
  obtain ⟨old, current, h⟩ := tracked_of_run hRun
  rw [OrderbookSnapshotService.beginTick_eq, Option.map_eq_some_iff] at hBegin
  obtain ⟨orderBook, -, rfl⟩ := hBegin
  rw [OrderbookSnapshotService.allocateSnapshot_entered] at hAllocate
  obtain ⟨rfl, rfl⟩ := Prod.mk.inj hAllocate
  obtain ⟨hGeneration, hFind⟩ := Bool.and_eq_true_iff.mp hCatchesUp
  have hTaken : st.svc.taken now ∈ st.snaps := by
    rcases st.svc.pool_cases now with ⟨hEmpty, -⟩ | hPool
    · exact absurd hEmpty hFree
    · exact List.mem_append_right _ (hPool ▸ List.mem_cons_self)
  have hGen : (st.svc.taken now).generation = st.svc.generationOf tick := of_decide_eq_true hGeneration
  -- A snapshot tick starts a generation, which no snapshot is of.
  have hTick : tick.isSnapshot = false := by
    by_contra hSnapshot
    obtain ⟨before, issue, after, hLog, -, hIssue, -⟩ := h.issued _ hTaken
    obtain ⟨hSplit, hOlder, -⟩ := h.entered tick
    have hMem : issue ∈ preceded tick old current := by
      have : preceding tick current = [] := if_pos (Bool.not_eq_false _ ▸ hSnapshot)
      rw [this, List.append_nil] at hSplit
      rw [← hSplit, hLog]
      simp
    have := hOlder issue hMem
    omega
  have hCurrent : (st.svc.taken now).generation = st.svc.currentGeneration := by
    rw [hGen, OrderbookSnapshotService.generationOf, if_neg (by simp [hTick])]
  obtain ⟨before, issue, after, hLog, hObject, hIssue, hSeq, hAfter, hAt, hDrop⟩ :=
    h.since hTaken hCurrent
  refine ⟨before, issue, after, hLog, hObject, hIssue.trans hGen, hSeq, hAfter, ?_⟩
  obtain ⟨-, -, -, hKeeps, -⟩ := h.entered tick
  have hPreceding : preceding tick current = current := if_neg (by simp [hTick])
  have hReplayed := (hKeeps.find? hFind).2
  have hLt : (st.svc.taken now).sequence < current.length := (List.getElem?_eq_some_iff.mp hAt).1
  rw [hPreceding, List.drop_append_of_le_length (by simp; omega), ← List.map_drop, ← hDrop]
    at hReplayed
  exact hReplayed

/-- A snapshot tick and an addition, and then the first snapshot is given back. -/
def twoIssues : ServiceRun :=
  (run ServiceRun.step {} [
    .processTick (.snapshot (.ofSides [⟨"1", 39628, 1, 1, .buy⟩] [])) 10,
    .processTick (.add ⟨"2", 39631, 1, 2, .sell⟩) 20, .deallocateSnapshot 1]).getD {}

/-- The service that then adds a third order. -/
def thirdTick : OrderbookSnapshotService :=
  (twoIssues.svc.beginTick (.add ⟨"3", 39632, 1, 3, .sell⟩)).getD {}

theorem thirdTick_replays : ∃ before issue after, twoIssues.log = before ++ issue :: after ∧
    issue.object = (thirdTick.allocateSnapshot 30).2.object ∧
    issue.generation = (thirdTick.allocateSnapshot 30).1.currentGeneration ∧
    issue.sequence = (thirdTick.allocateSnapshot 30).2.sequence ∧
    (∀ i ∈ after, i.object ≠ (thirdTick.allocateSnapshot 30).2.object) ∧
    (thirdTick.allocateSnapshot 30).1.replayed (thirdTick.allocateSnapshot 30).2 =
      after.map Issue.tick ++ [.add ⟨"3", 39632, 1, 3, .sell⟩] :=
  replayed_since_return (Option.getD_of_ne_none (by decide +kernel) _).symm (by decide +kernel)
    (Option.getD_of_ne_none (by decide +kernel) _).symm
    (show thirdTick.allocateSnapshot 30 = (_, _) from rfl) (by decide +kernel)

end ServiceRun

end Arby.PowerTrade
