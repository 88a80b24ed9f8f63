import Arby.PowerTrade.ListenerView
import Mathlib.Data.Finset.Max

/-! What a listener keeps in memory. The history of its service goes back to the oldest snapshot of the
generation, pooled or pointed to, and the service has made as many snapshots as were ever out at
once. The pool is a stack, so that a snapshot may stay at its bottom, and the history goes back to
it. -/

namespace Arby.PowerTrade

open Trading Kit

/-- Every tick of the history is at a watermark or after it. -/
def TickHistory.Trimmed (h : TickHistory) : Prop :=
  ∀ k, (h.history.find? k).isSome → ∃ w ∈ h.watermarks, w ≤ k

/-- The ticks from the last snapshot tick on. -/
def sessionOf (ticks : List TickRecord) : List TickRecord :=
  ticks.foldl (fun session tick => if tick.isSnapshot then [tick] else session ++ [tick]) []

theorem sessionOf_concat (ticks : List TickRecord) (tick : TickRecord) :
    sessionOf (ticks ++ [tick]) =
      if tick.isSnapshot then [tick] else sessionOf ticks ++ [tick] := by
  simp [sessionOf]

/-- A history that goes back to `w` has the ticks from there on. -/
theorem TickHistory.Keeps.values_eq {h : TickHistory} {ticks : List TickRecord}
    (hk : h.Keeps ticks) {w : ℕ} (hFirst : (h.history.find? w).isSome)
    (hLeast : ∀ k, (h.history.find? k).isSome → w ≤ k) :
    h.history.values = ticks.drop w ∧ w < ticks.length := by
  obtain ⟨-, a, ha, hEntries⟩ := hk
  have hw := (OrdMap.find?_of_indexed hEntries w).mp hFirst
  rw [List.length_drop] at hw
  have hLe := hLeast a ((OrdMap.find?_of_indexed hEntries a).mpr (by rw [List.length_drop]; omega))
  obtain rfl : a = w := by omega
  exact ⟨OrdMap.values_of_indexed hEntries, by omega⟩

/-- What a call does to a history that keeps the ticks of the session. -/
theorem OrderbookSnapshotService.Turn.keeps {svc svc' : OrderbookSnapshotService}
    {tick : TickRecord} {now : TimestampType} {snap' : OrderbookSnapshot} {ticks : List TickRecord}
    (hTurn : svc.Turn tick now svc' snap') (hk : svc.tickHistory.Keeps (sessionOf ticks))
    (hMarks : ∀ w ∈ svc.tickHistory.watermarks, w < svc.tickHistory.nextSequence) :
    svc'.tickHistory.Keeps (sessionOf (ticks ++ [tick])) := by
  have hEntered : (svc.historyOf tick).Keeps (sessionOf (ticks ++ [tick])) ∧
      ∀ w ∈ (svc.historyOf tick).watermarks, w ≤ (sessionOf (ticks ++ [tick])).length := by
    rw [sessionOf_concat]
    unfold OrderbookSnapshotService.historyOf
    cases tick.isSnapshot with
    | true => exact ⟨(TickHistory.keeps_reset svc.tickHistory).addTick tick, fun _ hw => nomatch hw⟩
    | false =>
      refine ⟨hk.addTick tick, fun w hw => ?_⟩
      have hLt := hMarks w hw
      rw [hk.1] at hLt
      show w ≤ (sessionOf ticks ++ [tick]).length
      rw [List.length_append]
      omega
  rcases hTurn.route with ⟨-, -, hHistory⟩ | ⟨-, -, hHistory⟩
  · rw [hHistory]
    exact (hEntered.1.removeWatermark hEntered.2 _).1.addWatermark _
  · rw [hHistory]
    exact hEntered.1.addWatermark _

namespace ServiceRun

variable {st st' : ServiceRun} {old current : List Issue} {tick : TickRecord} {now : TimestampType}
  {snap' : OrderbookSnapshot}

theorem Tracked.trimmed_entered (h : st.Tracked old current)
    (hTrimmed : st.svc.tickHistory.Trimmed) {k : ℕ}
    (hFind : ((st.svc.historyOf tick).history.find? k).isSome) :
    (∃ w ∈ (st.svc.historyOf tick).watermarks, w ≤ k) ∨ k = (preceding tick current).length := by
  unfold OrderbookSnapshotService.historyOf at hFind ⊢
  unfold preceding
  cases hTick : tick.isSnapshot with
  | true =>
    rw [hTick] at hFind
    rcases ((TickHistory.keeps_reset st.svc.tickHistory).find?_addTick tick).mp hFind with hOld | hNew
    · cases hOld
    · exact .inr hNew
  | false =>
    rw [hTick] at hFind
    rcases (h.history.find?_addTick tick).mp hFind with hOld | hNew
    · exact .inl (hTrimmed k hOld)
    · exact .inr (hNew.trans (List.length_map _))

theorem Tracked.trimmed (h : st.Tracked old current) (hTrimmed : st.svc.tickHistory.Trimmed)
    (hTurn : st.svc.Turn tick now st'.svc snap') : st'.svc.tickHistory.Trimmed := by
  obtain ⟨-, -, -, hKeeps, hBelow⟩ := h.entered tick
  obtain ⟨-, hSequence, -⟩ := h.history_turn hTurn
  have hLe : ∀ w ∈ (st.svc.historyOf tick).watermarks,
      w ≤ ((preceding tick current).map Issue.tick ++ [tick]).length := by
    intro w hw
    have := hBelow w hw
    simp
    omega
  intro k hFind
  rcases hTurn.route with ⟨-, -, hHistory⟩ | ⟨-, -, hHistory⟩
  · rw [hHistory] at hFind ⊢
    obtain ⟨w, hw, hwk⟩ := hKeeps.mark_le hLe hFind
    exact ⟨w, TickHistory.mem_addWatermark.mpr (.inr hw), hwk⟩
  · rw [hHistory] at hFind ⊢
    rcases h.trimmed_entered hTrimmed hFind with ⟨w, hw, hwk⟩ | hNew
    · exact ⟨w, TickHistory.mem_addWatermark.mpr (.inr hw), hwk⟩
    · exact ⟨_, TickHistory.mem_addWatermark.mpr (.inl rfl), (hSequence.trans hNew.symm).le⟩

end ServiceRun

namespace ListenerRun

variable {st st' : ListenerRun} {op : ListenerOp} {symbol : MarketKey}

/-! ### The history -/

/-- The invariant, once `ticks` have come. -/
structure Bounded (symbol : MarketKey) (st : ListenerRun) (ticks : List TickRecord) : Prop where
  retains : ∃ log, st.Retains symbol log
  trimmed : st.listener.snapshotService.tickHistory.Trimmed
  keeps : st.listener.snapshotService.tickHistory.Keeps (sessionOf ticks)

theorem bounded_start (symbol : MarketKey) (created : TimestampType) :
    (start symbol created).Bounded symbol [] where
  retains := ⟨[], retains_start symbol created⟩
  trimmed _ hFind := nomatch hFind
  keeps := TickHistory.keeps_reset {}

theorem Bounded.step {ticks : List TickRecord} (h : st.Bounded symbol ticks)
    (hBegins : st.Begins op) (hStep : st.step op = some st') :
    st'.Bounded symbol (ticks ++ op.tick?.toList) := by
  obtain ⟨log, hRetains⟩ := h.retains
  obtain ⟨old, current, hTracked⟩ := hRetains.tracked
  obtain ⟨s, hRun, hRegroups⟩ := hRetains.sourced.simulates hStep log
  obtain ⟨freeSnaps, hService⟩ := hRegroups.service
  suffices s.svc.tickHistory.Trimmed ∧ s.svc.tickHistory.Keeps (sessionOf (ticks ++ op.tick?.toList)) by
    have hHistory : (st'.receivers s.log).svc.tickHistory = s.svc.tickHistory := by
      rw [hService]
    change st'.listener.snapshotService.tickHistory = _ at hHistory
    exact ⟨Retains.step h.retains hBegins hStep, hHistory ▸ this.1, hHistory ▸ this.2⟩
  cases op with
  | onTick tick now =>
    rw [serviceOps, run_cons] at hRun
    obtain ⟨s', hTick, hEnd⟩ := Option.bind_eq_some_iff.mp hRun
    obtain rfl := Option.some.inj hEnd
    obtain ⟨snap, hTurn, -⟩ := ServiceRun.step_processTick hTick
    refine ⟨hTracked.trimmed h.trimmed hTurn, hTurn.keeps h.keeps fun w hw => ?_⟩
    have hLt := hTracked.watermarks w hw
    rw [hTracked.history.1, List.length_map]
    exact hLt
  | _ =>
    obtain rfl := Option.some.inj hRun
    refine ⟨h.trimmed, ?_⟩
    rw [ListenerOp.tick?.eq_def, Option.toList_none, List.append_nil]
    exact h.keeps

/-- The history has the ticks from the oldest snapshot of the generation on. -/
theorem Bounded.history {ticks : List TickRecord} (h : st.Bounded symbol ticks)
    (hPos : 0 < st.listener.snapshotService.currentGeneration) :
    ∃ oldest ∈ (st.receivers []).currentSnaps,
      (∀ o ∈ (st.receivers []).currentSnaps, oldest.sequence ≤ o.sequence) ∧
      st.listener.snapshotService.tickHistory.history.values =
        (sessionOf ticks).drop oldest.sequence ∧ oldest.sequence < (sessionOf ticks).length := by
  obtain ⟨log, hRetains⟩ := h.retains
  have hMarks := (hRetains.marked hPos).watermarked
  have hCurrent := (hRetains.marked hPos).current
  have hOwn : st.listener.snapshot ∈ (st.receivers log).currentSnaps :=
    ServiceRun.mem_currentSnaps.mpr ⟨List.mem_append_left _ (hCurrent.held log), hCurrent.generation⟩
  obtain ⟨oldest, hOldest, hLeast⟩ :=
    Multiset.exists_min_image OrderbookSnapshot.sequence (s := (st.receivers log).currentSnaps)
      fun hNone => List.ne_nil_of_mem hOwn (Multiset.coe_eq_zero _ |>.mp hNone)
  refine ⟨oldest, hOldest, hLeast, h.keeps.values_eq (hMarks.found oldest hOldest) fun k hFind => ?_⟩
  obtain ⟨w, hw, hwk⟩ := h.trimmed k hFind
  obtain ⟨o, ho, rfl⟩ := List.mem_map.mp (hMarks.exact.mem_iff.mp hw)
  exact (hLeast o ho).trans hwk

theorem ticksOf_cons (op : ListenerOp) (ops : List ListenerOp) :
    ticksOf (op :: ops) = op.tick?.toList ++ ticksOf ops := by
  cases h : op.tick? <;> simp [ticksOf, h]

theorem Bounded.of_run {ticks : List TickRecord} {ops : List ListenerOp}
    (h : st.Bounded symbol ticks) (hBegins : Along ListenerRun.step Begins st ops)
    (hRun : run ListenerRun.step st ops = some st') : st'.Bounded symbol (ticks ++ ticksOf ops) := by
  induction ops generalizing st ticks with
  | nil =>
    obtain rfl := Option.some.inj hRun
    simpa [ticksOf] using h
  | cons op ops ih =>
    obtain ⟨st₁, hStep, hRest⟩ := Option.bind_eq_some_iff.mp hRun
    rw [ticksOf_cons, ← List.append_assoc]
    exact ih (h.step hBegins.1 hStep) (hBegins.2 st₁ hStep) hRest

/-- In every run of a listener in which no other tick precedes the first snapshot tick, whatever
subscribers keep and release: from that tick on the history consists of the ticks of the session from
that of the oldest snapshot on which the listener, a subscriber, a deleter or the pool has. -/
theorem history_run (symbol : MarketKey) (created : TimestampType) (ops : List ListenerOp)
    (hBegins : Along step Begins (start symbol created) ops)
    (hRun : run step (start symbol created) ops = some st)
    (hPos : 0 < st.listener.snapshotService.currentGeneration) :
    ∃ oldest ∈ (st.receivers []).currentSnaps,
      (∀ o ∈ (st.receivers []).currentSnaps, oldest.sequence ≤ o.sequence) ∧
      st.listener.snapshotService.tickHistory.history.values =
        (sessionOf (ticksOf ops)).drop oldest.sequence ∧
      oldest.sequence < (sessionOf (ticksOf ops)).length := by
  have hBounded := (bounded_start symbol created).of_run hBegins hRun
  rw [List.nil_append] at hBounded
  exact hBounded.history hPos

theorem keptOverReconnect_history : ∃ oldest ∈ (((run step (start (.spot ⟨"btc", "usd"⟩) 0)
    keptOverReconnect).getD (start (.spot ⟨"btc", "usd"⟩) 0)).receivers []).currentSnaps,
      (∀ o ∈ (((run step (start (.spot ⟨"btc", "usd"⟩) 0) keptOverReconnect).getD
        (start (.spot ⟨"btc", "usd"⟩) 0)).receivers []).currentSnaps,
          oldest.sequence ≤ o.sequence) ∧
      ((run step (start (.spot ⟨"btc", "usd"⟩) 0) keptOverReconnect).getD
        (start (.spot ⟨"btc", "usd"⟩) 0)).listener.snapshotService.tickHistory.history.values =
          (sessionOf (ticksOf keptOverReconnect)).drop oldest.sequence ∧
      oldest.sequence < (sessionOf (ticksOf keptOverReconnect)).length :=
  history_run (.spot ⟨"btc", "usd"⟩) 0 keptOverReconnect (by decide +kernel)
    (Option.getD_of_ne_none (by decide +kernel) _).symm (by decide +kernel)

/-! ### The objects -/

/-- A tick comes when fewer than `n` snapshots are out. -/
def Fits (n : ℕ) (st : ListenerRun) : ListenerOp → Prop
  | .onTick _ _ => (st.receivers []).held.length < n
  | _ => True

instance (n : ℕ) (st : ListenerRun) (op : ListenerOp) : Decidable (st.Fits n op) :=
  match op with
  | .onConnectionState _ | .onCommandResponse _ | .onTick _ _ | .subscribe | .disconnect | .release _
  | .deallocateSnapshot _ => by
    dsimp only [Fits]
    infer_instance

/-- The invariant: every snapshot that the service has made is out or in the pool. -/
structure Counted (symbol : MarketKey) (st : ListenerRun) : Prop where
  sourced : st.Sourced symbol
  count : (st.receivers []).snaps.length + 1 = st.listener.snapshotService.made

theorem counted_start (symbol : MarketKey) (created : TimestampType) :
    (start symbol created).Counted symbol :=
  ⟨sourced_start symbol created, rfl⟩

/-- What a tick makes, and what becomes of the count. -/
theorem Counted.onTick {s : ServiceRun} {tick : TickRecord} {now : TimestampType}
    (h : st.Counted symbol) (hTick : (st.receivers []).step (.processTick tick now) = some s) :
    s.snaps.length + 1 = s.svc.made ∧
      s.svc.made = max st.listener.snapshotService.made ((st.receivers []).held.length + 2) := by
  obtain ⟨snap, hTurn, hHeld, -⟩ := ServiceRun.step_processTick hTick
  have hCount := h.count
  unfold ServiceRun.snaps at hCount ⊢
  rw [List.length_append] at hCount ⊢
  rw [hHeld, List.length_cons]
  rcases hTurn.pool with ⟨hFree, hFree', hMade, -⟩ | ⟨hFree, hMade⟩
  · change s.svc.made = st.listener.snapshotService.made + 1 at hMade
    rw [hFree, List.length_nil] at hCount
    rw [hFree', hMade, List.length_nil]
    omega
  · change s.svc.made = st.listener.snapshotService.made at hMade
    rw [hFree, List.length_cons] at hCount
    rw [hMade]
    omega

theorem Counted.step (h : st.Counted symbol) (hStep : st.step op = some st') (n : ℕ) :
    st'.Counted symbol ∧ (st'.listener.snapshotService.made ≤ n + 1 ↔
      st.listener.snapshotService.made ≤ n + 1 ∧ st.Fits n op) := by
  obtain ⟨s, hRun, hRegroups⟩ := h.sourced.simulates hStep []
  have hLength := hRegroups.snaps.length_eq
  rw [List.length_map, List.length_map] at hLength
  obtain ⟨freeSnaps, hService⟩ := hRegroups.service
  have hMade : st'.listener.snapshotService.made = s.svc.made := by
    change (st'.receivers s.log).svc.made = _
    rw [hService]
  have hCounted : s.snaps.length + 1 = s.svc.made → st'.Counted symbol := fun hCount =>
    ⟨(h.sourced.step_iff hStep).2, by rw [hMade, ← hCount, ← hLength]; rfl⟩
  cases op with
  | onTick tick now =>
    rw [serviceOps, run_cons] at hRun
    obtain ⟨s', hTick, hEnd⟩ := Option.bind_eq_some_iff.mp hRun
    obtain rfl := Option.some.inj hEnd
    obtain ⟨hCount, hMax⟩ := h.onTick hTick
    refine ⟨hCounted hCount, ?_⟩
    rw [hMade, hMax]
    show _ ↔ _ ∧ (st.receivers []).held.length < n
    omega
  | _ =>
    obtain rfl := Option.some.inj hRun
    refine ⟨hCounted h.count, ?_⟩
    rw [hMade]
    exact (and_iff_left trivial).symm

/-- In every run, whatever subscribers keep and release, the service makes at most `n` snapshots, beside
the one that the constructor made, exactly when at every tick fewer than `n` are with the listener,
with subscribers or on their way back. -/
theorem made_run_iff (symbol : MarketKey) (created : TimestampType) (ops : List ListenerOp) (n : ℕ)
    (hRun : run step (start symbol created) ops = some st) :
    st.listener.snapshotService.made ≤ n + 1 ↔
      Along step (Fits n) (start symbol created) ops := by
  have hFrom : ∀ {st₁ : ListenerRun}, st₁.Counted symbol → run step st₁ ops = some st →
      (st.listener.snapshotService.made ≤ n + 1 ↔
        st₁.listener.snapshotService.made ≤ n + 1 ∧ Along step (Fits n) st₁ ops) := by
    clear hRun
    induction ops with
    | nil =>
      intro st₁ _ hRun
      obtain rfl := Option.some.inj hRun
      exact (and_iff_left trivial).symm
    | cons op ops ih =>
      intro st₁ hCounted hRun
      obtain ⟨st₂, hStep, hRest⟩ := Option.bind_eq_some_iff.mp hRun
      obtain ⟨hNext, hMade⟩ := hCounted.step hStep n
      rw [ih hNext hRest, hMade, and_assoc]
      refine and_congr_right fun _ => and_congr_right fun _ => ⟨fun hAlong st₃ hStep' => ?_, fun h => ?_⟩
      · obtain rfl := Option.some.inj (hStep.symm.trans hStep')
        exact hAlong
      · exact h st₂ hStep
  rw [hFrom (counted_start symbol created) hRun]
  exact and_iff_right (Nat.succ_le_succ (Nat.zero_le n))

theorem keptOverReconnect_made : ((run step (start (.spot ⟨"btc", "usd"⟩) 0)
    keptOverReconnect).getD (start (.spot ⟨"btc", "usd"⟩) 0)).listener.snapshotService.made ≤ 4 + 1 ↔
      Along step (Fits 4) (start (.spot ⟨"btc", "usd"⟩) 0) keptOverReconnect :=
  made_run_iff (.spot ⟨"btc", "usd"⟩) 0 keptOverReconnect 4
    (Option.getD_of_ne_none (by decide +kernel) _).symm

/-! ### The bottom of the pool -/

/-- The tick stays in the session, and the pool has more than `depth` snapshots. -/
def Covers (depth : ℕ) (st : ListenerRun) : ListenerOp → Prop
  | .onTick tick _ => tick.isSnapshot = false ∧
      depth < st.listener.snapshotService.freeSnaps.length
  | _ => True

instance (depth : ℕ) (st : ListenerRun) (op : ListenerOp) : Decidable (st.Covers depth op) :=
  match op with
  | .onConnectionState _ | .onCommandResponse _ | .onTick _ _ | .subscribe | .disconnect | .release _
  | .deallocateSnapshot _ => by
    dsimp only [Covers]
    infer_instance

theorem freeSnaps_letGo (st : ListenerRun) (o : OrderbookSnapshot) : ∃ pushed,
    (st.letGo o).listener.snapshotService.freeSnaps =
      pushed ++ st.listener.snapshotService.freeSnaps := by
  unfold letGo
  split
  · exact ⟨[], rfl⟩
  · split
    · exact ⟨[], rfl⟩
    · exact ⟨[o], rfl⟩

/-- A tick takes one snapshot off the pool, and no other step takes any. -/
theorem freeSnaps_step (hStep : st.step op = some st') : ∃ pushed,
    st'.listener.snapshotService.freeSnaps =
      pushed ++ st.listener.snapshotService.freeSnaps.drop op.tick?.toList.length := by
  cases op with
  | onTick tick now =>
    obtain ⟨svc, snap, listener, hCall, rfl, -, rfl⟩ := step_onTick hStep
    obtain ⟨pushed, hPushed⟩ := freeSnaps_letGo { st with
      listener, rebuilt := st.rebuilt || tick.isSnapshot } st.listener.snapshot
    refine ⟨pushed, hPushed.trans (congrArg (pushed ++ ·) ?_)⟩
    rcases (OrderbookSnapshotService.processTick_turn hCall).pool with ⟨hFree, hFree', -⟩ | ⟨hFree, -⟩
    · rw [hFree]
      exact hFree'
    · rw [hFree]
      rfl
  | onConnectionState cstate =>
    have hSame := OrderbookListenerImpl.sameBook_onConnectionState st.listener cstate
    rw [step_onConnectionState] at hStep
    obtain rfl := Option.some.inj hStep
    exact ⟨[], congrArg OrderbookSnapshotService.freeSnaps hSame.1⟩
  | onCommandResponse payload =>
    obtain ⟨-, rfl⟩ | ⟨code, listener, -, hCall, rfl⟩ := onCommandResponse_cases hStep
    · exact ⟨[], rfl⟩
    · have hSame := OrderbookListenerImpl.sameBook_onCommandResponse hCall
      exact ⟨[], congrArg OrderbookSnapshotService.freeSnaps hSame.1⟩
  | subscribe | disconnect | release =>
    obtain rfl := Option.some.inj hStep
    exact ⟨[], rfl⟩
  | deallocateSnapshot i =>
    obtain rfl | ⟨snap, -, rfl⟩ := deallocateSnapshot_cases hStep
    · exact ⟨[], rfl⟩
    · exact ⟨[snap], rfl⟩

theorem generation_covers {depth : ℕ} (hCovers : st.Covers depth op)
    (hStep : st.step op = some st') : st'.listener.snapshotService.currentGeneration =
      st.listener.snapshotService.currentGeneration := by
  cases op with
  | onTick tick now =>
    obtain ⟨svc, snap, listener, hCall, rfl, -, rfl⟩ := step_onTick hStep
    obtain ⟨retired, freeSnaps, hLetGo⟩ := letGo_eq { st with
      listener, rebuilt := st.rebuilt || tick.isSnapshot } st.listener.snapshot
    rw [hLetGo]
    refine (OrderbookSnapshotService.processTick_turn hCall).currentGeneration.trans ?_
    rw [OrderbookSnapshotService.generationOf, if_neg (by simp [hCovers.1])]
  | _ =>
    obtain ⟨⟨freeSnaps, hService⟩, -⟩ := step_quiet rfl hStep
    rw [hService]

/-- The lower part of the pool stays where it is. -/
theorem buried_step {bottom : List OrderbookSnapshot} (hCovers : st.Covers bottom.length op)
    (hBottom : bottom <:+ st.listener.snapshotService.freeSnaps) (hStep : st.step op = some st') :
    bottom <:+ st'.listener.snapshotService.freeSnaps := by
  obtain ⟨pushed, hFree⟩ := freeSnaps_step hStep
  rw [hFree]
  refine List.IsSuffix.trans ?_ (List.suffix_append ..)
  cases op with
  | onTick tick now =>
    obtain ⟨above, hAbove⟩ := hBottom
    have hLt := hCovers.2
    rw [← hAbove] at hLt ⊢
    cases above with
    | nil => simp at hLt
    | cons top above => exact List.suffix_append above bottom
  | _ => exact hBottom

theorem sessionOf_append {ticks more : List TickRecord} (h : ∀ t ∈ more, t.isSnapshot = false) :
    sessionOf (ticks ++ more) = sessionOf ticks ++ more := by
  induction more using List.reverseRecOn with
  | nil => simp
  | append_singleton more t ih =>
    rw [← List.append_assoc, sessionOf_concat, if_neg (by simp [h t (by simp)]),
      ih fun t' ht' => h t' (by simp [ht']), List.append_assoc]

theorem covers_ticks {depth : ℕ} {ops : List ListenerOp} (hCovers : Along step (Covers depth) st ops)
    (hRun : run step st ops = some st') : ∀ t ∈ ticksOf ops, t.isSnapshot = false := by
  induction ops generalizing st with
  | nil => exact fun t ht => nomatch ht
  | cons op ops ih =>
    obtain ⟨st₁, hStep, hRest⟩ := Option.bind_eq_some_iff.mp hRun
    intro t ht
    rw [ticksOf_cons] at ht
    rcases List.mem_append.mp ht with ht | ht
    · cases op with
      | onTick tick now =>
        obtain rfl := List.mem_singleton.mp ht
        exact hCovers.1.1
      | _ => cases ht
    · exact ih (hCovers.2 st₁ hStep) hRest t ht

theorem covers_begins {depth : ℕ} {ops : List ListenerOp} (hCovers : Along step (Covers depth) st ops)
    (hPos : 0 < st.listener.snapshotService.currentGeneration) : Along step Begins st ops := by
  induction ops generalizing st with
  | nil => trivial
  | cons op ops ih =>
    refine ⟨?_, fun st₁ hStep => ih (hCovers.2 st₁ hStep) (generation_covers hCovers.1 hStep ▸ hPos)⟩
    cases op with
    | onTick tick now => exact .inr hPos
    | _ => trivial

theorem buried_run {ops : List ListenerOp} (bottom : List OrderbookSnapshot)
    (hCovers : Along step (Covers bottom.length) st ops)
    (hBottom : bottom <:+ st.listener.snapshotService.freeSnaps) (hRun : run step st ops = some st') :
    bottom <:+ st'.listener.snapshotService.freeSnaps ∧
      st'.listener.snapshotService.currentGeneration =
        st.listener.snapshotService.currentGeneration := by
  refine hCovers.invariant (I := fun st₁ => bottom <:+ st₁.listener.snapshotService.freeSnaps ∧
    st₁.listener.snapshotService.currentGeneration =
      st.listener.snapshotService.currentGeneration) (fun st₁ op st₂ h hOp hStep => ?_)
    ⟨hBottom, rfl⟩ hRun
  exact ⟨buried_step hOp h.1 hStep, (generation_covers hOp hStep).trans h.2⟩

theorem Bounded.sequence_lt {ticks : List TickRecord} (h : st.Bounded symbol ticks)
    {o : OrderbookSnapshot} (ho : o ∈ (st.receivers []).currentSnaps) :
    o.sequence < (sessionOf ticks).length := by
  obtain ⟨log, hRetains⟩ := h.retains
  obtain ⟨old, current, hTracked⟩ := hRetains.tracked
  obtain ⟨hSnap, hGeneration⟩ := ServiceRun.mem_currentSnaps.mp ho
  have hLt : o.sequence < current.length := hTracked.sequence_lt hSnap hGeneration
  have hNext : st.listener.snapshotService.tickHistory.nextSequence = current.length :=
    hTracked.history.1.trans (List.length_map _)
  rw [← h.keeps.1, hNext]
  exact hLt

/-- The pool is a stack: a snapshot of the session that lies beneath others which the ticks find there
is not taken, and for as long as that is so and no snapshot tick comes the history grows with every
tick, whoever holds what. -/
theorem history_grows (symbol : MarketKey) (created : TimestampType)
    (before ops : List ListenerOp) (o : OrderbookSnapshot) (bottom : List OrderbookSnapshot)
    (hBegins : Along step Begins (start symbol created) before)
    (hBefore : run step (start symbol created) before = some st)
    (hPos : 0 < st.listener.snapshotService.currentGeneration)
    (hBottom : o :: bottom <:+ st.listener.snapshotService.freeSnaps)
    (hGeneration : o.generation = st.listener.snapshotService.currentGeneration)
    (hCovers : Along step (Covers (bottom.length + 1)) st ops)
    (hRun : run step st ops = some st') :
    o ∈ st'.listener.snapshotService.freeSnaps ∧
      (ticksOf ops).length < st'.listener.snapshotService.tickHistory.history.values.length := by
  have hBounded := (bounded_start symbol created).of_run hBegins hBefore
  rw [List.nil_append] at hBounded
  have hLt := hBounded.sequence_lt (o := o) (ServiceRun.mem_currentSnaps.mpr
    ⟨List.mem_append_right _ (hBottom.subset List.mem_cons_self), hGeneration⟩)
  have hAfter := hBounded.of_run (covers_begins hCovers hPos) hRun
  obtain ⟨hBottom', hSame⟩ := buried_run (o :: bottom) hCovers hBottom hRun
  have hMem := hBottom'.subset List.mem_cons_self
  obtain ⟨oldest, -, hLeast, hValues, -⟩ := hAfter.history (hSame ▸ hPos)
  have hLe : oldest.sequence ≤ o.sequence := hLeast o (ServiceRun.mem_currentSnaps.mpr
    ⟨List.mem_append_right _ hMem, hGeneration.trans hSame.symm⟩)
  refine ⟨hMem, ?_⟩
  rw [hValues, sessionOf_append (covers_ticks hCovers hRun), List.length_drop, List.length_append]
  omega

/-- A subscriber keeps the first snapshot over two ticks, and leaves. -/
def keptOnce : List ListenerOp :=
  [.onTick (.snapshot (.ofSides [⟨"1", 39628, 1, 1, .buy⟩] [])) 10, .subscribe, .disconnect,
    .onTick (.add ⟨"2", 39631, 1, 2, .sell⟩) 20, .onTick (.add ⟨"3", 39632, 1, 3, .sell⟩) 30,
    .release 0, .deallocateSnapshot 0]

def keptOnceState : ListenerRun :=
  (run step (start (.spot ⟨"btc", "usd"⟩) 0) keptOnce).getD (start (.spot ⟨"btc", "usd"⟩) 0)

/-- The ticks after that, which nobody receives. -/
def laterTicks : List ListenerOp :=
  [.onTick (.add ⟨"4", 39633, 1, 4, .sell⟩) 40, .onTick (.remove ⟨"4", 5, .sell⟩) 50,
    .onTick (.add ⟨"5", 39633, 1, 6, .sell⟩) 60]

/-- The snapshot that lies at the bottom of the pool. -/
def lastPooled : OrderbookSnapshot :=
  keptOnceState.listener.snapshotService.freeSnaps.getLast (by decide +kernel)

theorem laterTicks_grow : lastPooled ∈ ((run step keptOnceState laterTicks).getD
      keptOnceState).listener.snapshotService.freeSnaps ∧
    (ticksOf laterTicks).length < ((run step keptOnceState laterTicks).getD
      keptOnceState).listener.snapshotService.tickHistory.history.values.length :=
  history_grows (.spot ⟨"btc", "usd"⟩) 0 keptOnce laterTicks lastPooled [] (by decide +kernel)
    (Option.getD_of_ne_none (by decide +kernel) _).symm (by decide +kernel)
    ⟨_, List.dropLast_append_getLast _⟩ (by decide +kernel) (by decide +kernel)
    (Option.getD_of_ne_none (by decide +kernel) _).symm

end ListenerRun

end Arby.PowerTrade
