import Arby.PowerTrade.ServiceRun

/-! The watermarks of the history and the snapshots of the current generation. They correspond for
as long as no call recycles the only snapshot of the generation: that call removes the last
watermark, and with it the tick that it has just entered. -/

namespace Arby.PowerTrade.ServiceRun

open Trading Kit

def currentSnaps (st : ServiceRun) : List OrderbookSnapshot :=
  st.snaps.filter (·.generation = st.svc.currentGeneration)

/-- The watermarks are the sequence numbers of these snapshots, and the history has their ticks. -/
structure Watermarked (st : ServiceRun) : Prop where
  exact : st.svc.tickHistory.watermarks.Perm (st.currentSnaps.map OrderbookSnapshot.sequence)
  found : ∀ o ∈ st.currentSnaps, (st.svc.tickHistory.history.find? o.sequence).isSome

instance (st : ServiceRun) : Decidable st.Watermarked :=
  decidable_of_iff
    (st.svc.tickHistory.watermarks.Perm (st.currentSnaps.map OrderbookSnapshot.sequence) ∧
      ∀ o ∈ st.currentSnaps, (st.svc.tickHistory.history.find? o.sequence).isSome)
    ⟨fun h => ⟨h.1, h.2⟩, fun h => ⟨h.1, h.2⟩⟩

/-- The call recycles the only snapshot of the current generation, for a tick that stays in it. -/
def RecyclesOnly (st : ServiceRun) : ServiceOp → Prop
  | .processTick tick _ =>
    match st.svc.freeSnaps with
    | [] => False
    | snap :: rest => tick.isSnapshot = false ∧ snap.generation = st.svc.currentGeneration ∧
        ∀ o ∈ st.held ++ rest, o.generation ≠ st.svc.currentGeneration
  | .deallocateSnapshot _ => False

instance (st : ServiceRun) (op : ServiceOp) : Decidable (st.RecyclesOnly op) :=
  match op with
  | .deallocateSnapshot _ => inferInstanceAs (Decidable False)
  | .processTick _ _ => by
    dsimp only [RecyclesOnly]
    generalize st.svc.freeSnaps = free
    exact match free with
      | [] => inferInstanceAs (Decidable False)
      | _ :: _ => inferInstance

variable {st st' : ServiceRun} {old current : List Issue} {tick : TickRecord} {now : TimestampType}
  {snap' : OrderbookSnapshot}

theorem mem_currentSnaps {o : OrderbookSnapshot} :
    o ∈ st.currentSnaps ↔ o ∈ st.snaps ∧ o.generation = st.svc.currentGeneration := by
  simp [currentSnaps]

theorem recyclesOnly_iff (hFree : st.svc.freeSnaps = st.svc.taken now :: st'.svc.freeSnaps) :
    st.RecyclesOnly (.processTick tick now) ↔ tick.isSnapshot = false ∧
      (st.svc.taken now).generation = st.svc.currentGeneration ∧
      ∀ o ∈ st.held ++ st'.svc.freeSnaps, o.generation ≠ st.svc.currentGeneration := by
  simp only [RecyclesOnly, hFree]

theorem Tracked.object_eq (h : st.Tracked old current) {o p : OrderbookSnapshot}
    (ho : o ∈ st.snaps) (hp : p ∈ st.snaps) (hoGen : o.generation = st.svc.currentGeneration)
    (hpGen : p.generation = st.svc.currentGeneration) (hSeq : o.sequence = p.sequence) :
    o.object = p.object := by
  obtain ⟨-, issue, -, -, hObject, -, -, -, hAt, -⟩ := h.since ho hoGen
  obtain ⟨-, issue', -, -, hObject', -, -, -, hAt', -⟩ := h.since hp hpGen
  rw [hSeq] at hAt
  obtain rfl := Option.some.inj (hAt.symm.trans hAt')
  exact hObject.symm.trans hObject'

/-- The snapshots of the generation that a call leaves alone. -/
def staying (st st' : ServiceRun) : List OrderbookSnapshot :=
  (st.held ++ st'.svc.freeSnaps).filter (·.generation = st'.svc.currentGeneration)

theorem mem_staying {o : OrderbookSnapshot} : o ∈ staying st st' ↔
    o ∈ st.held ++ st'.svc.freeSnaps ∧ o.generation = st'.svc.currentGeneration := by
  rw [staying, List.mem_filter, decide_eq_true_eq]

theorem currentSnaps_turn (hTurn : st.svc.Turn tick now st'.svc snap')
    (hHeld : st'.held = snap' :: st.held) : st'.currentSnaps = snap' :: staying st st' := by
  rw [currentSnaps, snaps, hHeld, List.cons_append, List.filter_cons_of_pos]
  · rfl
  · simp [hTurn.generation]

/-- The state after a call corresponds when the watermarks and ticks of the snapshots that it leaves
alone do, and the tick of the new snapshot is there. -/
theorem watermarked_turn (hTurn : st.svc.Turn tick now st'.svc snap')
    (hHeld : st'.held = snap' :: st.held) {history : TickHistory}
    (hHistory : st'.svc.tickHistory = history.addWatermark snap'.sequence)
    (hMarks : history.watermarks.Perm ((staying st st').map OrderbookSnapshot.sequence))
    (hFound : ∀ o ∈ staying st st', (history.history.find? o.sequence).isSome) :
    st'.Watermarked ↔ (history.history.find? snap'.sequence).isSome := by
  have hCurrent := currentSnaps_turn hTurn hHeld
  constructor
  · intro h
    have := h.found snap' (by rw [hCurrent]; exact List.mem_cons_self)
    rwa [hHistory] at this
  · intro hSelf
    refine ⟨?_, fun o ho => ?_⟩
    · rw [hHistory, hCurrent, List.map_cons]
      exact (List.perm_orderedInsert _ _ _).trans (hMarks.cons _)
    · rw [hCurrent] at ho
      rw [hHistory]
      rcases List.mem_cons.mp ho with rfl | ho
      · exact hSelf
      · exact hFound o ho

theorem Tracked.find?_entered (h : st.Tracked old current)
    (hTurn : st.svc.Turn tick now st'.svc snap') :
    ((st.svc.historyOf tick).history.find? snap'.sequence).isSome := by
  obtain ⟨-, hSequence, -⟩ := h.history_turn hTurn
  rw [hSequence]
  unfold OrderbookSnapshotService.historyOf preceding
  cases tick.isSnapshot with
  | true => exact ((TickHistory.keeps_reset st.svc.tickHistory).find?_addTick tick).mpr (.inr rfl)
  | false => exact (h.history.find?_addTick tick).mpr (.inr (List.length_map _).symm)

theorem taken_mem (hFree : st.svc.freeSnaps = st.svc.taken now :: st'.svc.freeSnaps) :
    st.svc.taken now ∈ st.snaps :=
  List.mem_append_right _ (hFree ▸ List.mem_cons_self)

theorem Tracked.watermarked_snapshot (h : st.Tracked old current)
    (hTurn : st.svc.Turn tick now st'.svc snap') (hHeld : st'.held = snap' :: st.held)
    (hTick : tick.isSnapshot = true) : st'.Watermarked := by
  have hGen : st'.svc.currentGeneration = st.svc.currentGeneration + 1 :=
    hTurn.currentGeneration.trans (if_pos hTick)
  have hOthers := (h.others hTurn).1
  have hStaying : staying st st' = [] := by
    refine List.eq_nil_iff_forall_not_mem.mpr fun o ho => ?_
    obtain ⟨ho, hoGen⟩ := mem_staying.mp ho
    have := h.generation_le (hOthers o ho).1
    omega
  have hMarks : (st.svc.historyOf tick).watermarks = [] := by
    rw [OrderbookSnapshotService.historyOf, if_pos hTick]
    rfl
  have hRoute : st'.svc.tickHistory = (st.svc.historyOf tick).addWatermark snap'.sequence := by
    rcases hTurn.route with ⟨hCatch, -⟩ | ⟨-, -, hHistory⟩
    · have hTaken := of_decide_eq_true (Bool.and_eq_true_iff.mp hCatch).1
      rw [← hTurn.currentGeneration, hGen] at hTaken
      rcases hTurn.pool with ⟨-, -, -, hNew⟩ | ⟨hFree, -⟩
      · rw [hNew] at hTaken
        cases hTaken
      · have := h.generation_le (taken_mem hFree)
        omega
    · exact hHistory
  refine (watermarked_turn hTurn hHeld hRoute ?_ ?_).mpr (h.find?_entered hTurn)
  · rw [hMarks, hStaying]
    exact .nil
  · rw [hStaying]
    exact fun o ho => nomatch ho

section SameGeneration

variable (h : st.Tracked old current) (hw : st.Watermarked)
  (hTurn : st.svc.Turn tick now st'.svc snap') (hHeld : st'.held = snap' :: st.held)
  (hTick : tick.isSnapshot = false)

include hTurn hTick

theorem generation_same : st'.svc.currentGeneration = st.svc.currentGeneration :=
  hTurn.currentGeneration.trans (if_neg (by simp [hTick]))

omit hTurn in
theorem historyOf_same : st.svc.historyOf tick = st.svc.tickHistory.addTick tick :=
  congrArg (TickHistory.addTick · tick) (if_neg (by simp [hTick]))

include h hw

theorem staying_found (o : OrderbookSnapshot) (ho : o ∈ staying st st') :
    o ∈ st.currentSnaps ∧ ((st.svc.historyOf tick).history.find? o.sequence).isSome := by
  obtain ⟨ho, hoGen⟩ := mem_staying.mp ho
  have hMem : o ∈ st.currentSnaps := mem_currentSnaps.mpr
    ⟨((h.others hTurn).1 o ho).1, hoGen.trans (generation_same hTurn hTick)⟩
  rw [historyOf_same hTick]
  exact ⟨hMem, (h.history.find?_addTick tick).mpr (.inl (hw.found o hMem))⟩

include hHeld

theorem Tracked.watermarked_kept (hPos : 0 < st.svc.currentGeneration)
    (hTaken : st.svc.freeSnaps = st.svc.taken now :: st'.svc.freeSnaps →
      (st.svc.taken now).generation ≠ st.svc.currentGeneration) : st'.Watermarked := by
  have hGen := generation_same hTurn hTick
  have hEntered := @historyOf_same st _ hTick
  have hStaying : st.currentSnaps.Perm (staying st st') := by
    rw [staying, hGen, currentSnaps]
    rcases hTurn.pool with ⟨hFree, hFree', -⟩ | ⟨hFree, -⟩
    · rw [snaps, hFree, hFree']
    · have hPerm : st.snaps.Perm (st.svc.taken now :: (st.held ++ st'.svc.freeSnaps)) := by
        rw [snaps, hFree]
        exact List.perm_middle
      have := hPerm.filter fun o => decide (o.generation = st.svc.currentGeneration)
      rwa [List.filter_cons_of_neg (by simpa using hTaken hFree)] at this
  have hRoute : st'.svc.tickHistory = (st.svc.historyOf tick).addWatermark snap'.sequence := by
    rcases hTurn.route with ⟨hCatch, -⟩ | ⟨-, -, hHistory⟩
    · have hGeneration := of_decide_eq_true (Bool.and_eq_true_iff.mp hCatch).1
      rw [← hTurn.currentGeneration, hGen] at hGeneration
      rcases hTurn.pool with ⟨-, -, -, hNew⟩ | ⟨hFree, -⟩
      · rw [hNew] at hGeneration
        exact absurd hGeneration hPos.ne
      · exact absurd hGeneration (hTaken hFree)
    · exact hHistory
  refine (watermarked_turn hTurn hHeld hRoute ?_ fun o ho =>
    (staying_found h hw hTurn hTick o ho).2).mpr (h.find?_entered hTurn)
  rw [hEntered]
  exact hw.exact.trans (hStaying.map _)

/-- The call takes a snapshot of the generation, whose watermark it removes. The tick that it has
entered stays in the history exactly when another watermark is left. -/
theorem Tracked.watermarked_recycled
    (hFree : st.svc.freeSnaps = st.svc.taken now :: st'.svc.freeSnaps)
    (hTaken : (st.svc.taken now).generation = st.svc.currentGeneration) :
    st'.Watermarked ↔ staying st st' ≠ [] := by
  have hGen := generation_same hTurn hTick
  have hEntered := @historyOf_same st _ hTick
  have hMem : st.svc.taken now ∈ st.currentSnaps := mem_currentSnaps.mpr ⟨taken_mem hFree, hTaken⟩
  have hFound : ((st.svc.historyOf tick).history.find? (st.svc.taken now).sequence).isSome := by
    rw [hEntered]
    exact (h.history.find?_addTick tick).mpr (.inl (hw.found _ hMem))
  have hRoute : st'.svc.tickHistory = ((st.svc.historyOf tick).removeWatermark
      (st.svc.taken now).sequence).addWatermark snap'.sequence := by
    rcases hTurn.route with ⟨-, -, hHistory⟩ | ⟨hCatch, -⟩
    · exact hHistory
    · rw [OrderbookSnapshotService.catchesUpOn, ← hTurn.currentGeneration, hGen,
        decide_eq_true hTaken, hFound] at hCatch
      cases hCatch
  -- The removed watermark is that of the taken snapshot alone.
  have hDistinct : ∀ o ∈ staying st st', o.sequence ≠ (st.svc.taken now).sequence := by
    intro o ho hSeq
    obtain ⟨hoSnap, hoGen⟩ := mem_currentSnaps.mp (staying_found h hw hTurn hTick o ho).1
    have hObject := (h.others hTurn).1 o (mem_staying.mp ho).1
    exact hObject.2 (hTurn.object ▸ h.object_eq hoSnap (taken_mem hFree) hoGen hTaken hSeq)
  have hMarks : ((st.svc.historyOf tick).removeWatermark
      (st.svc.taken now).sequence).watermarks.Perm
        ((staying st st').map OrderbookSnapshot.sequence) := by
    have hPerm : st.currentSnaps.Perm (st.svc.taken now :: staying st st') := by
      rw [currentSnaps, snaps, hFree, staying, hGen]
      refine (List.perm_middle.filter _).trans ?_
      rw [List.filter_cons_of_pos (by simpa using hTaken)]
    have hFilter := ((hw.exact.trans (hPerm.map _)).filter
      fun w => decide (w ≠ (st.svc.taken now).sequence))
    rw [List.map_cons, List.filter_cons_of_neg (by simp)] at hFilter
    rw [hEntered]
    refine hFilter.trans (List.Perm.of_eq (List.filter_eq_self.mpr fun w hw => ?_))
    obtain ⟨o, ho, rfl⟩ := List.mem_map.mp hw
    exact decide_eq_true (hDistinct o ho)
  obtain ⟨-, -, -, hKeeps, hBelow⟩ := h.entered tick
  obtain ⟨-, hSequence, -⟩ := h.history_turn hTurn
  have hLeft := (hKeeps.removeWatermark (fun w hw => by
    have := hBelow w hw
    simp
    omega) (st.svc.taken now).sequence).2.1
  have hMarked : ∀ o ∈ staying st st', o.sequence ∈ ((st.svc.historyOf tick).removeWatermark
      (st.svc.taken now).sequence).watermarks :=
    fun o ho => hMarks.mem_iff.mpr (List.mem_map_of_mem ho)
  rw [watermarked_turn hTurn hHeld hRoute hMarks fun o ho => hLeft o.sequence
    ⟨o.sequence, hMarked o ho, le_rfl⟩ (staying_found h hw hTurn hTick o ho).2]
  constructor
  · intro hSome hNil
    rw [hNil, List.map_nil, List.perm_nil] at hMarks
    rw [TickHistory.history_removeWatermark_last hMarks] at hSome
    cases hSome
  · intro hNe
    obtain ⟨o, ho⟩ := List.exists_mem_of_ne_nil _ hNe
    have hWatermark := TickHistory.mem_removeWatermark.mp (hMarked o ho)
    refine hLeft _ ⟨o.sequence, hMarked o ho, ?_⟩ (h.find?_entered hTurn)
    have := hBelow _ hWatermark.1
    omega

end SameGeneration

theorem Tracked.watermarked_iff (h : st.Tracked old current) (hw : st.Watermarked)
    (hTurn : st.svc.Turn tick now st'.svc snap') (hHeld : st'.held = snap' :: st.held)
    (hTick : tick.isSnapshot = false) (hPos : 0 < st.svc.currentGeneration) :
    ¬st.RecyclesOnly (.processTick tick now) ↔ st'.Watermarked := by
  rcases hTurn.pool with ⟨hFree, -⟩ | ⟨hFree, -⟩
  · refine iff_of_true (fun hOnly => ?_) (h.watermarked_kept hw hTurn hHeld hTick hPos ?_)
    · simp [RecyclesOnly, hFree] at hOnly
    · intro hCons
      rw [hFree] at hCons
      cases hCons
  · rw [recyclesOnly_iff hFree]
    by_cases hTaken : (st.svc.taken now).generation = st.svc.currentGeneration
    · rw [h.watermarked_recycled hw hTurn hHeld hTick hFree hTaken, not_iff_not, staying,
        generation_same hTurn hTick, List.filter_eq_nil_iff]
      simp [hTick, hTaken]
    · refine iff_of_true (fun hOnly => hTaken hOnly.2.1) ?_
      exact h.watermarked_kept hw hTurn hHeld hTick hPos fun _ => hTaken

theorem recyclesOnly_snapshot (hTick : tick.isSnapshot = true) :
    ¬st.RecyclesOnly (.processTick tick now) := by
  unfold RecyclesOnly
  cases st.svc.freeSnaps <;> simp [hTick]

theorem Watermarked.deallocateSnapshot {i : ℕ} {snap : OrderbookSnapshot} (h : st.Watermarked)
    (hSnap : st.held[i]? = some snap) : ServiceRun.Watermarked { st with
      svc := st.svc.deallocateSnapshot snap, held := st.held.eraseIdx i } := by
  have hPerm := (snaps_deallocateSnapshot hSnap).filter
    fun o => decide (o.generation = st.svc.currentGeneration)
  exact ⟨h.exact.trans (hPerm.map _).symm, fun o ho => h.found o (hPerm.mem_iff.mp ho)⟩

/-- The states of a run that a snapshot tick started. -/
structure Started (st : ServiceRun) : Prop where
  tracked : ∃ old current, st.Tracked old current
  watermarked : st.Watermarked
  pos : 0 < st.svc.currentGeneration

theorem Started.step_iff {op : ServiceOp} (h : st.Started) (hStep : st.step op = some st') :
    ¬st.RecyclesOnly op ↔ st'.Watermarked := by
  obtain ⟨⟨old, current, hTracked⟩, hw, hPos⟩ := h
  cases op with
  | processTick tick now =>
    obtain ⟨snap', hTurn, hHeld, -⟩ := step_processTick hStep
    cases hTick : tick.isSnapshot with
    | true =>
      exact iff_of_true (recyclesOnly_snapshot hTick)
        (hTracked.watermarked_snapshot hTurn hHeld hTick)
    | false => exact hTracked.watermarked_iff hw hTurn hHeld hTick hPos
  | deallocateSnapshot i =>
    refine iff_of_true (fun hOnly => hOnly) ?_
    rcases step_deallocateSnapshot hStep with rfl | ⟨snap, hSnap, rfl⟩
    · exact hw
    · exact hw.deallocateSnapshot hSnap

theorem generation_step {op : ServiceOp} (hStep : st.step op = some st') :
    st.svc.currentGeneration ≤ st'.svc.currentGeneration := by
  cases op with
  | processTick tick now =>
    obtain ⟨snap', hTurn, -⟩ := step_processTick hStep
    rw [hTurn.currentGeneration, OrderbookSnapshotService.generationOf]
    split <;> omega
  | deallocateSnapshot i =>
    rcases step_deallocateSnapshot hStep with rfl | ⟨snap, -, rfl⟩ <;> exact le_rfl

/-- In a run that starts with a snapshot tick, the watermarks are those of the snapshots of the
current generation after every call, and the history has their ticks, exactly when no call recycles
the only such snapshot for a tick that stays in the generation. -/
theorem watermarked_run_iff {snap : Snapshot} {ops : List ServiceOp}
    (hRun : run ServiceRun.step {} (.processTick (.snapshot snap) now :: ops) = some st) :
    Safe ServiceRun.step (fun _ _ st => st.Watermarked) {}
        (.processTick (.snapshot snap) now :: ops) ↔
      Along ServiceRun.step (fun st op => ¬st.RecyclesOnly op) {}
        (.processTick (.snapshot snap) now :: ops) := by
  rw [run_cons] at hRun
  obtain ⟨st₁, hFirst, hRest⟩ := Option.bind_eq_some_iff.mp hRun
  have hStarted : st₁.Started := by
    obtain ⟨snap', hTurn, hHeld, hLog⟩ := step_processTick hFirst
    exact ⟨⟨_, _, tracked_empty.processTick hTurn hHeld hLog⟩,
      tracked_empty.watermarked_snapshot hTurn hHeld rfl,
      hTurn.currentGeneration ▸ Nat.succ_pos _⟩
  have hIff : Safe ServiceRun.step (fun _ _ st => st.Watermarked) st₁ ops ↔
      Along ServiceRun.step (fun st op => ¬st.RecyclesOnly op) st₁ ops := by
    refine safe_iff_of_run (I := Started) (fun st op st' h hStep => h.step_iff hStep)
      (fun st op st' h hw hStep => ?_) hStarted hRest
    exact ⟨Tracked.step h.tracked hStep, hw, h.pos.trans_le (generation_step hStep)⟩
  constructor
  · rintro ⟨st₂, hStep, -, hSafe⟩
    obtain rfl := Option.some.inj (hFirst.symm.trans hStep)
    refine ⟨recyclesOnly_snapshot rfl, fun st₂ hStep => ?_⟩
    obtain rfl := Option.some.inj (hFirst.symm.trans hStep)
    exact hIff.mp hSafe
  · rintro ⟨-, hAlong⟩
    exact ⟨st₁, hFirst, hStarted.watermarked, hIff.mpr (hAlong st₁ hFirst)⟩

/-- Two snapshots of a generation, the older of which is recycled. -/
def twoSnapshots : List ServiceOp :=
  [.processTick (.snapshot (.ofSides [⟨"1", 39628, 1, 1, .buy⟩] [])) 10,
    .processTick (.add ⟨"2", 39631, 1, 2, .sell⟩) 20, .deallocateSnapshot 1,
    .processTick (.add ⟨"3", 39632, 1, 3, .sell⟩) 30]

theorem twoSnapshots_watermarked :
    Safe ServiceRun.step (fun _ _ st => st.Watermarked) {} twoSnapshots :=
  (watermarked_run_iff (Option.getD_of_ne_none (by decide +kernel) {}).symm).mpr (by decide +kernel)

/-- The only snapshot of the generation is given back and recycled. -/
def oneSnapshot : List ServiceOp :=
  [.processTick (.snapshot (.ofSides [⟨"1", 39628, 1, 1, .buy⟩] [])) 10,
    .deallocateSnapshot 0, .processTick (.add ⟨"2", 39631, 1, 2, .sell⟩) 20]

/-- The run returns, and the watermark 1 has no tick in the history. -/
theorem oneSnapshot_unmarked : (run ServiceRun.step {} oneSnapshot).isSome ∧
    ¬Safe ServiceRun.step (fun _ _ st => st.Watermarked) {} oneSnapshot := by
  decide +kernel

end Arby.PowerTrade.ServiceRun
