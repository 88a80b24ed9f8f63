import Arby.PowerTrade.ListenerService

/-! The watermarks of a listener's service. The listener points to the snapshot of the latest tick
while it handles the next one, so that the service never recycles the only snapshot of a
generation, and the watermarks stay those of the snapshots. -/

namespace Arby.PowerTrade.ListenerRun

open Trading Kit

variable {st st' : ListenerRun} {op : ListenerOp} {symbol : MarketKey}

/-- A tick that comes before any snapshot tick is a snapshot tick. -/
def Begins (st : ListenerRun) : ListenerOp → Prop
  | .onTick tick _ => tick.isSnapshot = true ∨ 0 < st.listener.snapshotService.currentGeneration
  | _ => True

instance (st : ListenerRun) (op : ListenerOp) : Decidable (st.Begins op) :=
  match op with
  | .onConnectionState _ | .onCommandResponse _ | .onTick _ _ | .subscribe | .disconnect | .release _
  | .deallocateSnapshot _ => by
    dsimp only [Begins]
    infer_instance

/-- The listener points to a snapshot of the current generation of its service. -/
structure Current (st : ListenerRun) : Prop where
  made : st.listener.snapshot.object ≠ 0
  generation : st.listener.snapshot.generation = st.listener.snapshotService.currentGeneration

theorem Current.held (h : st.Current) (log : List Issue) :
    st.listener.snapshot ∈ (st.receivers log).held :=
  List.mem_filter.mpr ⟨List.mem_cons_self, decide_eq_true h.made⟩

theorem Current.not_recyclesOnly (h : st.Current) {log : List Issue} {tick : TickRecord}
    {now : TimestampType} : ¬(st.receivers log).RecyclesOnly (.processTick tick now) := by
  unfold ServiceRun.RecyclesOnly
  cases (st.receivers log).svc.freeSnaps with
  | nil => exact id
  | cons snap rest =>
    rintro ⟨-, -, hOnly⟩
    exact hOnly _ (List.mem_append_left _ (h.held log)) h.generation

/-- The invariant, from the first snapshot tick on. -/
structure Marked (st : ListenerRun) (s : ServiceRun) : Prop where
  watermarked : s.Watermarked
  current : st.Current

structure Retains (symbol : MarketKey) (st : ListenerRun) (log : List Issue) : Prop where
  sourced : st.Sourced symbol
  tracked : ∃ old current, (st.receivers log).Tracked old current
  marked : 0 < st.listener.snapshotService.currentGeneration → st.Marked (st.receivers log)

theorem retains_start (symbol : MarketKey) (created : TimestampType) :
    (start symbol created).Retains symbol [] where
  sourced := sourced_start symbol created
  tracked := (delivered_start symbol created).tracked
  marked hPos := absurd hPos (lt_irrefl 0)

theorem Retains.quiet {log : List Issue} (h : st.Retains symbol log) (hOp : serviceOps op = [])
    (hStep : st.step op = some st') : st'.Retains symbol log := by
  obtain ⟨s, hRun, hRegroups⟩ := h.sourced.simulates hStep log
  rw [hOp] at hRun
  obtain rfl := Option.some.inj hRun
  obtain ⟨old, current, hTracked⟩ := h.tracked
  obtain ⟨⟨freeSnaps, hService⟩, ⟨condition, hSnap⟩, -⟩ := step_quiet hOp hStep
  refine ⟨(h.sourced.step_iff hStep).2, ⟨old, current, hRegroups.tracked hTracked⟩, fun hPos => ?_⟩
  rw [hService] at hPos
  have hMarked := h.marked hPos
  refine ⟨hRegroups.watermarked hMarked.watermarked, ?_, ?_⟩
  · rw [hSnap]
    exact hMarked.current.made
  · rw [hSnap, hService]
    exact hMarked.current.generation

theorem Retains.onTick {log : List Issue} {tick : TickRecord} {now : TimestampType}
    (h : st.Retains symbol log) (hBegins : st.Begins (.onTick tick now))
    (hStep : st.step (.onTick tick now) = some st') : ∃ log', st'.Retains symbol log' := by
  obtain ⟨s, hRun, hRegroups⟩ := h.sourced.simulates hStep log
  rw [serviceOps, run_cons] at hRun
  obtain ⟨s', hTick, hEnd⟩ := Option.bind_eq_some_iff.mp hRun
  obtain rfl := Option.some.inj hEnd
  obtain ⟨old, current, hTracked⟩ := h.tracked
  obtain ⟨snap, hTurn, hHeld, hLog⟩ := ServiceRun.step_processTick hTick
  have hNext := hTracked.processTick hTurn hHeld hLog
  have hMarks : s'.Watermarked := by
    cases hSnapshot : tick.isSnapshot with
    | true => exact hTracked.watermarked_snapshot hTurn hHeld hSnapshot
    | false =>
      have hPos := hBegins.resolve_left (by simp [hSnapshot])
      have hMarked := h.marked hPos
      exact (hTracked.watermarked_iff hMarked.watermarked hTurn hHeld hSnapshot hPos).mp
        hMarked.current.not_recyclesOnly
  -- The new snapshot is the one that the service returned.
  obtain ⟨svc, snap', listener, hCall, hService, ⟨condition, hSnap⟩, rfl⟩ := step_onTick hStep
  obtain ⟨⟨svc', snap''⟩, hCall', hResult⟩ := Option.bind_eq_some_iff.mp hTick
  obtain ⟨rfl, rfl⟩ := Prod.mk.inj (Option.some.inj (hCall.symm.trans hCall'))
  obtain rfl := Option.some.inj hResult
  obtain rfl := (List.cons.inj hHeld).1
  have hMade := (OrderbookSnapshotService.processTick_unlabelled h.sourced.made h.sourced.freeSnaps
    hCall).1.made
  obtain ⟨retired, freeSnaps, hLetGo⟩ := letGo_eq { st with
    listener, rebuilt := st.rebuilt || tick.isSnapshot } st.listener.snapshot
  refine ⟨_, (h.sourced.step_iff hStep).2, ⟨_, _, hRegroups.tracked hNext⟩, fun _ =>
    ⟨hRegroups.watermarked hMarks, ?_, ?_⟩⟩
  · rw [hLetGo]
    show listener.snapshot.object ≠ 0
    rw [hSnap]
    exact hMade
  · rw [hLetGo]
    show listener.snapshot.generation = listener.snapshotService.currentGeneration
    rw [hSnap, hService]
    exact hTurn.generation

theorem Retains.step (h : ∃ log, st.Retains symbol log) (hBegins : st.Begins op)
    (hStep : st.step op = some st') : ∃ log, st'.Retains symbol log := by
  obtain ⟨log, h⟩ := h
  cases op with
  | onTick tick now => exact h.onTick hBegins hStep
  | _ => exact ⟨log, h.quiet rfl hStep⟩

/-- In every run of a listener in which no other tick precedes the first snapshot tick, whatever
subscribers keep and release: from that tick on the watermarks are the sequence numbers of the
current generation's snapshots, pooled or pointed to, and the history has their ticks. -/
theorem watermarked_of_begins (symbol : MarketKey) (created : TimestampType) (ops : List ListenerOp)
    (hBegins : Along step Begins (start symbol created) ops)
    (hRun : run step (start symbol created) ops = some st)
    (hPos : 0 < st.listener.snapshotService.currentGeneration) : (st.receivers []).Watermarked := by
  obtain ⟨log, hRetains⟩ : ∃ log, st.Retains symbol log :=
    hBegins.invariant (fun _ _ _ h hOp hStep => Retains.step h hOp hStep)
      ⟨[], retains_start symbol created⟩ hRun
  have hMarks := (hRetains.marked hPos).watermarked
  exact ⟨hMarks.exact, hMarks.found⟩

theorem keptOverReconnect_watermarked :
    (((run step (start (.spot ⟨"btc", "usd"⟩) 0) keptOverReconnect).getD
      (start (.spot ⟨"btc", "usd"⟩) 0)).receivers []).Watermarked :=
  watermarked_of_begins (.spot ⟨"btc", "usd"⟩) 0 keptOverReconnect (by decide +kernel)
    (Option.getD_of_ne_none (by decide +kernel) _).symm (by decide +kernel)

end Arby.PowerTrade.ListenerRun
