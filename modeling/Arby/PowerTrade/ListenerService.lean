import Arby.PowerTrade.SnapshotDelivery
import Arby.PowerTrade.SnapshotSharing
import Arby.PowerTrade.SnapshotSource
import Arby.PowerTrade.Watermarks

/-! The listener and its subscribers as receivers of the snapshot service. Whatever they do with its
snapshots, beside the calls of `process_tick`, leaves the service as it is, up to which of its
snapshots are pooled. The invariants of the service therefore hold of the service of a listener. -/

namespace Arby.PowerTrade

open Trading Kit

/-- What the service writes into a snapshot. Its condition and its source are not among it. -/
def OrderbookSnapshot.issued (o : OrderbookSnapshot) : ℕ × ℕ × ℕ × OrderBook :=
  (o.object, o.generation, o.sequence, o.book)

namespace ServiceRun

variable {st st' : ServiceRun} {old current : List Issue} {o : OrderbookSnapshot}

/-- The same snapshots, some of which are pooled that were held, or show another condition. -/
structure Regroups (st st' : ServiceRun) : Prop where
  service : ∃ freeSnaps, st'.svc = { st.svc with freeSnaps }
  log : st'.log = st.log
  snaps : (st'.snaps.map OrderbookSnapshot.issued).Perm (st.snaps.map OrderbookSnapshot.issued)

theorem Regroups.exists_issued (h : st.Regroups st') (ho : o ∈ st'.snaps) :
    ∃ o' ∈ st.snaps, o'.object = o.object ∧ o'.generation = o.generation ∧
      o'.sequence = o.sequence ∧ o'.book = o.book := by
  obtain ⟨o', ho', hIssued⟩ := List.mem_map.mp (h.snaps.mem_iff.mp (List.mem_map_of_mem ho))
  obtain ⟨hObject, hIssued⟩ := Prod.mk.inj hIssued
  obtain ⟨hGeneration, hIssued⟩ := Prod.mk.inj hIssued
  exact ⟨o', ho', hObject, hGeneration, (Prod.mk.inj hIssued).1, (Prod.mk.inj hIssued).2⟩

theorem Regroups.objects (h : st.Regroups st') :
    (st'.snaps.map OrderbookSnapshot.object).Perm (st.snaps.map OrderbookSnapshot.object) := by
  have hPerm := h.snaps.map Prod.fst
  rwa [List.map_map, List.map_map] at hPerm

theorem Regroups.sequences (h : st.Regroups st') (g : ℕ) :
    ((st'.snaps.filter (·.generation = g)).map OrderbookSnapshot.sequence).Perm
      ((st.snaps.filter (·.generation = g)).map OrderbookSnapshot.sequence) := by
  have hPerm := (h.snaps.filter fun i => decide (i.2.1 = g)).map fun i => i.2.2.1
  rwa [List.filter_map, List.filter_map, List.map_map, List.map_map] at hPerm

theorem Regroups.tracked (h : st.Regroups st') (hTracked : st.Tracked old current) :
    st'.Tracked old current := by
  obtain ⟨freeSnaps, hService⟩ := h.service
  constructor
  · rw [h.log]
    exact hTracked.split
  · rw [hService]
    exact hTracked.older
  · rw [hService]
    exact hTracked.numbered
  · rw [hService]
    exact hTracked.history
  · rw [hService]
    exact hTracked.watermarks
  · intro o ho
    obtain ⟨o', ho', hObject, hGeneration, hSequence, -⟩ := h.exists_issued ho
    have hIssued := hTracked.issued o' ho'
    rw [h.log]
    unfold LastIssue at hIssued ⊢
    rwa [hObject, hGeneration, hSequence] at hIssued
  · exact h.objects.nodup_iff.mpr hTracked.objects
  · intro o ho
    obtain ⟨o', ho', hObject, -⟩ := h.exists_issued ho
    rw [hService, ← hObject]
    exact hTracked.made o' ho'

theorem Regroups.watermarked (h : st.Regroups st') (hMarks : st.Watermarked) : st'.Watermarked := by
  obtain ⟨freeSnaps, hService⟩ := h.service
  constructor
  · rw [currentSnaps, hService]
    exact hMarks.exact.trans (h.sequences _).symm
  · intro o ho
    obtain ⟨ho, hGen⟩ := mem_currentSnaps.mp ho
    obtain ⟨o', ho', -, hGeneration, hSequence, -⟩ := h.exists_issued ho
    rw [hService] at hGen ⊢
    rw [← hSequence]
    exact hMarks.found o' (mem_currentSnaps.mpr ⟨ho', hGeneration.trans hGen⟩)

theorem Regroups.delivered (h : st.Regroups st') (hDelivered : st.Delivered) : st'.Delivered := by
  obtain ⟨freeSnaps, hService⟩ := h.service
  obtain ⟨old, current, hTracked⟩ := hDelivered.tracked
  refine ⟨⟨old, current, h.tracked hTracked⟩, ?_, ?_, fun o ho => ?_, fun o ho => ?_, ?_, ?_⟩
  · rw [hService]
    exact hDelivered.placed
  · rw [hService]
    exact hDelivered.linked
  · obtain ⟨o', ho', -, -, -, hBook⟩ := h.exists_issued ho
    exact hBook ▸ hDelivered.books o' ho'
  · obtain ⟨o', ho', -, hGeneration, hSequence, hBook⟩ := h.exists_issued ho
    have hCaughtUp := hDelivered.caughtUp o' ho'
    unfold CaughtUp at hCaughtUp ⊢
    rw [hService]
    rwa [hGeneration, hSequence, hBook] at hCaughtUp
  · rw [hService]
    exact hDelivered.fresh
  · rw [hService]
    exact hDelivered.start

end ServiceRun

namespace OrderbookListenerImpl

variable {l l' : OrderbookListenerImpl}

/-- The service, and the snapshot but for its condition, are the same. -/
def SameBook (l l' : OrderbookListenerImpl) : Prop :=
  l'.snapshotService = l.snapshotService ∧ ∃ condition, l'.snapshot = { l.snapshot with condition }

theorem sameBook_onConnectionState (l : OrderbookListenerImpl) (cstate : ConnectionState) :
    l.SameBook (l.onConnectionState cstate).1 := by
  rw [onConnectionState_fst, update_eq]
  exact ⟨rfl, _, rfl⟩

theorem sameBook_onCommandResponse {payload : JsonObject}
    (hCall : l.onCommandResponse payload = some l') : l.SameBook l' := by
  obtain ⟨code, -, rfl⟩ := onCommandResponse_eq_some.mp hCall
  rw [update_eq]
  exact ⟨rfl, _, rfl⟩

end OrderbookListenerImpl

namespace ListenerRun

variable {st st' : ListenerRun} {op : ListenerOp} {symbol : MarketKey} {log : List Issue}
  {tick : TickRecord} {now : TimestampType}

/-- The objects that the listener, a subscriber or a deleter has. -/
def owned (st : ListenerRun) : List OrderbookSnapshot :=
  st.listener.snapshot :: (st.retired ++ st.returning)

/-- The listener's service with its receivers. Object 0 is not one of its snapshots. -/
def receivers (st : ListenerRun) (log : List Issue) : ServiceRun :=
  { svc := st.listener.snapshotService, held := st.owned.filter (·.object ≠ 0), log }

/-- The call of the service in an event of the listener. -/
def serviceOps : ListenerOp → List ServiceOp
  | .onTick tick now => [.processTick tick now]
  | _ => []

/-- What the service wrote into these objects, object 0 apart. -/
def marks (os : List OrderbookSnapshot) : List (ℕ × ℕ × ℕ × OrderBook) :=
  (os.filter (·.object ≠ 0)).map OrderbookSnapshot.issued

@[simp] theorem marks_append (os os' : List OrderbookSnapshot) :
    marks (os ++ os') = marks os ++ marks os' := by
  simp [marks]

theorem marks_cons (o : OrderbookSnapshot) (os : List OrderbookSnapshot) :
    marks (o :: os) = marks [o] ++ marks os :=
  marks_append [o] os

theorem marks_perm {os os' : List OrderbookSnapshot} (h : os'.Perm os) :
    (marks os').Perm (marks os) :=
  (h.filter _).map _

theorem marks_filter (p : OrderbookSnapshot → Bool) (os : List OrderbookSnapshot) :
    marks (os.filter fun o => p o && o.object ≠ 0) = marks (os.filter p) := by
  rw [marks, marks, List.filter_filter, List.filter_filter]
  refine congrArg _ (List.filter_congr fun o _ => ?_)
  rw [Bool.and_comm (p o), ← Bool.and_assoc, Bool.and_self]

theorem marks_of_made {os : List OrderbookSnapshot} (h : ∀ o ∈ os, o.object ≠ 0) :
    marks os = os.map OrderbookSnapshot.issued := by
  rw [marks, List.filter_eq_self.mpr fun o ho => decide_eq_true (h o ho)]

theorem Sourced.free (h : st.Sourced symbol) :
    ∀ o ∈ st.listener.snapshotService.freeSnaps, o.object ≠ 0 :=
  fun o ho => (h.freeSnaps o ho).made

theorem Sourced.snaps_receivers (h : st.Sourced symbol) (log : List Issue) :
    (st.receivers log).snaps.map OrderbookSnapshot.issued = marks st.objects := by
  have hObjects : st.objects = st.owned ++ st.listener.snapshotService.freeSnaps := by
    rw [owned, objects, List.cons_append, List.append_assoc]
  rw [hObjects, marks_append, marks_of_made h.free]
  exact List.map_append

theorem Sourced.regroups (h : st.Sourced symbol) (h' : st'.Sourced symbol)
    (hService : ∃ freeSnaps, st'.listener.snapshotService =
      { st.listener.snapshotService with freeSnaps })
    (hObjects : (marks st'.objects).Perm (marks st.objects)) (log : List Issue) :
    (st.receivers log).Regroups (st'.receivers log) := by
  refine ⟨hService, rfl, ?_⟩
  rw [h.snaps_receivers, h'.snaps_receivers]
  exact hObjects

/-! ### The events -/

theorem marks_sameBook (h : st.listener.SameBook st'.listener) (hRetired : st'.retired = st.retired)
    (hReturning : st'.returning = st.returning) : marks st'.objects = marks st.objects := by
  obtain ⟨hService, condition, hSnap⟩ := h
  rw [objects, objects, marks_cons, marks_cons st.listener.snapshot, hSnap, hRetired, hReturning,
    hService]
  refine congrArg (· ++ _) ?_
  unfold marks
  by_cases hZero : st.listener.snapshot.object = 0
  · simp [hZero]
  · simp [hZero, OrderbookSnapshot.issued]

/-- Swept objects go on to the service, and object 0 is destroyed. -/
theorem marks_sweep (st : ListenerRun) : (marks st.sweep.objects).Perm (marks st.objects) := by
  have hSwept := marks_perm (List.filter_append_perm (fun o => st.isHeld o.object) st.retired)
  rw [marks_append] at hSwept
  rw [objects, objects, marks_cons, marks_cons st.listener.snapshot]
  refine List.Perm.append_left _ ?_
  simp only [sweep, marks_append, marks_filter fun o => !st.isHeld o.object]
  rw [← List.append_assoc, ← List.append_assoc, ← List.append_assoc]
  exact (hSwept.append_right _).append_right _

/-- The replaced snapshot goes to those who hold it, to the pool, or nowhere. -/
theorem marks_letGo (st : ListenerRun) (old : OrderbookSnapshot) :
    (marks (st.letGo old).objects).Perm (marks (st.listener.snapshot :: old ::
      (st.retired ++ (st.returning ++ st.listener.snapshotService.freeSnaps)))) := by
  unfold letGo
  split
  · exact .refl _
  · split
    · rename_i hZero
      rw [objects, marks_cons, marks_cons st.listener.snapshot (old :: _), marks_cons old]
      refine List.Perm.append_left _ (.of_eq ?_)
      simp [marks, hZero]
    · exact marks_perm ((pool_perm _ _ _ _).cons _)

theorem marks_deallocateSnapshot {i : ℕ} {snap : OrderbookSnapshot}
    (hSnap : st.returning[i]? = some snap) : (marks (objects { st with
      listener := { st.listener with
        snapshotService := st.listener.snapshotService.deallocateSnapshot snap }
      returning := st.returning.eraseIdx i
      emitted := none })).Perm (marks st.objects) := by
  obtain ⟨hi, rfl⟩ := List.getElem?_eq_some_iff.mp hSnap
  have hPerm := List.getElem_cons_eraseIdx_perm hi
  refine marks_perm ((List.Perm.append_left _ ?_).cons _)
  exact List.perm_middle.trans (hPerm.append_right _)

/-- A snapshot that the service has just returned, the objects that are out and those pooled. -/
theorem marks_issue {snap : OrderbookSnapshot} {condition : FeedCondition}
    {out free : List OrderbookSnapshot} (hMade : snap.object ≠ 0)
    (hFree : ∀ o ∈ free, o.object ≠ 0) :
    marks ({ snap with condition } :: (out ++ free)) =
      (snap :: out.filter (·.object ≠ 0) ++ free).map OrderbookSnapshot.issued := by
  have hSnap : marks [{ snap with condition }] = [snap.issued] := by
    simp [marks, hMade, OrderbookSnapshot.issued]
  rw [marks_cons, hSnap, marks_append, marks_of_made hFree, List.map_append, List.map_cons]
  rfl

/-- What a tick does. -/
theorem step_onTick (hStep : st.step (.onTick tick now) = some st') : ∃ svc snap listener,
    st.listener.snapshotService.processTick tick now = some (svc, snap) ∧
      listener.snapshotService = svc ∧ (∃ condition, listener.snapshot = { snap with condition }) ∧
      st' = (letGo { st with listener, rebuilt := st.rebuilt || tick.isSnapshot }
        st.listener.snapshot).signal := by
  obtain ⟨listener, hTick, hStep⟩ := Option.bind_eq_some_iff.mp hStep
  obtain ⟨svc, snap, hCall, rfl⟩ := OrderbookListenerImpl.onTick_eq_some.mp hTick
  refine ⟨svc, snap, _, hCall, ?_, ?_, (Option.some.inj hStep).symm⟩
  · rw [OrderbookListenerImpl.update_eq]
  · rw [OrderbookListenerImpl.update_eq]
    exact ⟨_, rfl⟩

/-- Every event does to the service what its call does, up to a regrouping. -/
theorem Sourced.simulates (h : st.Sourced symbol) (hStep : st.step op = some st')
    (log : List Issue) : ∃ s, run ServiceRun.step (st.receivers log) (serviceOps op) = some s ∧
      s.Regroups (st'.receivers s.log) := by
  have hSourced := (h.step_iff hStep).2
  have hQuiet : (∃ freeSnaps, st'.listener.snapshotService =
      { st.listener.snapshotService with freeSnaps }) →
      (marks st'.objects).Perm (marks st.objects) →
      serviceOps op = [] → ∃ s, run ServiceRun.step (st.receivers log) (serviceOps op) = some s ∧
        s.Regroups (st'.receivers s.log) := by
    intro hService hObjects hNone
    rw [hNone]
    exact ⟨_, rfl, h.regroups hSourced hService hObjects log⟩
  cases op with
  | onConnectionState cstate =>
    have hSame := OrderbookListenerImpl.sameBook_onConnectionState st.listener cstate
    rw [step_onConnectionState] at hStep
    obtain rfl := Option.some.inj hStep
    exact hQuiet ⟨_, hSame.1⟩ (.of_eq (marks_sameBook hSame rfl rfl)) rfl
  | onCommandResponse payload =>
    obtain ⟨-, rfl⟩ | ⟨code, listener, -, hCall, rfl⟩ := onCommandResponse_cases hStep
    · exact hQuiet ⟨_, rfl⟩ (.refl _) rfl
    · have hSame := OrderbookListenerImpl.sameBook_onCommandResponse hCall
      exact hQuiet ⟨_, hSame.1⟩ (.of_eq (marks_sameBook hSame rfl rfl)) rfl
  | onTick tick now =>
    obtain ⟨svc, snap, listener, hCall, hService, ⟨condition, hSnap⟩, rfl⟩ := step_onTick hStep
    obtain ⟨hMade, -, hFree⟩ :=
      OrderbookSnapshotService.processTick_unlabelled h.made h.freeSnaps hCall
    refine ⟨_, by rw [serviceOps, run_cons, ServiceRun.step, receivers, hCall]; rfl, ?_, rfl, ?_⟩
    · obtain ⟨retired, freeSnaps, hLetGo⟩ := letGo_eq { st with
        listener, rebuilt := st.rebuilt || tick.isSnapshot } st.listener.snapshot
      exact ⟨freeSnaps, by rw [hLetGo, ← hService]; rfl⟩
    · rw [hSourced.snaps_receivers]
      refine (marks_letGo _ _).trans (.of_eq ?_)
      have hObjects : st.listener.snapshot :: (st.retired ++ (st.returning ++
          svc.freeSnaps)) = st.owned ++ svc.freeSnaps := by
        rw [owned, List.cons_append, List.append_assoc]
      rw [hSnap, hService, hObjects]
      exact marks_issue hMade.made fun o ho => (hFree o ho).made
  | subscribe | disconnect =>
    obtain rfl := Option.some.inj hStep
    exact hQuiet ⟨_, rfl⟩ (.refl _) rfl
  | release i =>
    obtain rfl := Option.some.inj hStep
    exact hQuiet ⟨_, rfl⟩ (marks_sweep _) rfl
  | deallocateSnapshot i =>
    obtain rfl | ⟨snap, hSnap, rfl⟩ := deallocateSnapshot_cases hStep
    · exact hQuiet ⟨_, rfl⟩ (.refl _) rfl
    · exact hQuiet ⟨_, rfl⟩ (marks_deallocateSnapshot hSnap) rfl

/-- Without a tick the listener's snapshot and the service stay, and a subscriber receives that
snapshot or nothing. -/
theorem step_quiet (hOp : serviceOps op = []) (hStep : st.step op = some st') :
    (∃ freeSnaps, st'.listener.snapshotService = { st.listener.snapshotService with freeSnaps }) ∧
      (∃ condition, st'.listener.snapshot = { st.listener.snapshot with condition }) ∧
      ∀ r ∈ st'.receipts, r ∈ st.receipts ∨ r = st'.listener.snapshot := by
  have hSignal : ∀ {listener : OrderbookListenerImpl} {r : OrderbookSnapshot},
      r ∈ List.replicate st.slots listener.snapshot ++ st.receipts →
        r ∈ st.receipts ∨ r = listener.snapshot := by
    intro listener r hr
    rcases List.mem_append.mp hr with hr | hr
    · exact .inr (List.eq_of_mem_replicate hr)
    · exact .inl hr
  cases op with
  | onConnectionState cstate =>
    have hSame := OrderbookListenerImpl.sameBook_onConnectionState st.listener cstate
    rw [step_onConnectionState] at hStep
    obtain rfl := Option.some.inj hStep
    exact ⟨⟨_, hSame.1⟩, hSame.2, fun r hr => hSignal hr⟩
  | onCommandResponse payload =>
    obtain ⟨-, rfl⟩ | ⟨code, listener, -, hCall, rfl⟩ := onCommandResponse_cases hStep
    · exact ⟨⟨_, rfl⟩, ⟨_, rfl⟩, fun r hr => .inl hr⟩
    · have hSame := OrderbookListenerImpl.sameBook_onCommandResponse hCall
      exact ⟨⟨_, hSame.1⟩, hSame.2, fun r hr => hSignal hr⟩
  | onTick => cases hOp
  | subscribe =>
    obtain rfl := Option.some.inj hStep
    exact ⟨⟨_, rfl⟩, ⟨_, rfl⟩, fun r hr => (List.mem_cons.mp hr).symm⟩
  | disconnect =>
    obtain rfl := Option.some.inj hStep
    exact ⟨⟨_, rfl⟩, ⟨_, rfl⟩, fun r hr => .inl hr⟩
  | release i =>
    obtain rfl := Option.some.inj hStep
    exact ⟨⟨_, rfl⟩, ⟨_, rfl⟩, fun r hr => .inl (List.mem_of_mem_eraseIdx hr)⟩
  | deallocateSnapshot i =>
    obtain rfl | ⟨snap, hSnap, rfl⟩ := deallocateSnapshot_cases hStep
    · exact ⟨⟨_, rfl⟩, ⟨_, rfl⟩, fun r hr => .inl hr⟩
    · exact ⟨⟨_, rfl⟩, ⟨_, rfl⟩, fun r hr => .inl hr⟩

/-! ### The books that are sent -/

theorem delivered_start (symbol : MarketKey) (created : TimestampType) :
    ((start symbol created).receivers []).Delivered where
  tracked := ⟨[], [], {
    split := rfl
    older := by simp
    numbered := by simp
    history := TickHistory.keeps_reset {}
    watermarks _ h := nomatch h
    issued := by simp [ServiceRun.snaps, receivers, owned, start, OrderbookListenerImpl.construct]
    objects := by simp [ServiceRun.snaps, receivers, owned, start, OrderbookListenerImpl.construct]
    made := by simp [ServiceRun.snaps, receivers, owned, start, OrderbookListenerImpl.construct] }⟩
  placed := OrderBook.placed_empty
  linked := OrderBook.linked_empty
  books _ h := nomatch h
  caughtUp _ h := nomatch h
  fresh _ := rfl
  start _ _ := rfl

/-- The call of the service is a clean one. -/
def Clean (st : ListenerRun) : ListenerOp → Prop
  | .onTick tick now => (st.receivers []).Clean (.processTick tick now)
  | _ => True

instance (st : ListenerRun) (op : ListenerOp) : Decidable (st.Clean op) :=
  match op with
  | .onConnectionState _ | .onCommandResponse _ | .onTick _ _ | .subscribe | .disconnect | .release _
  | .deallocateSnapshot _ => by
    dsimp only [Clean]
    infer_instance

/-- A tick sends a snapshot with the book of the service. -/
def EmitsBook (_ : ListenerRun) (op : ListenerOp) (st' : ListenerRun) : Prop :=
  match op with
  | .onTick _ _ => ∃ snap, st'.emitted = some snap ∧
      snap.book.same st'.listener.snapshotService.orderBook
  | _ => True

theorem step_returns (st : ListenerRun) (hOp : serviceOps op = []) : ∃ st', st.step op = some st' := by
  cases op with
  | onTick => cases hOp
  | onCommandResponse payload =>
    simp only [step]
    split <;> exact ⟨_, rfl⟩
  | deallocateSnapshot i =>
    simp only [step]
    split <;> exact ⟨_, rfl⟩
  | _ => exact ⟨_, rfl⟩

theorem onTick_returns {svc : OrderbookSnapshotService} {snap : OrderbookSnapshot}
    (hCall : st.listener.snapshotService.processTick tick now = some (svc, snap)) :
    ∃ st', st.step (.onTick tick now) = some st' := by
  have hTick := OrderbookListenerImpl.onTick_eq_some.mpr ⟨svc, snap, hCall, rfl⟩
  simp only [step, hTick]
  exact ⟨_, rfl⟩

/-- What a tick sends is the listener's new snapshot, and that is the one that the service
returned. -/
theorem step_onTick_emitted (hStep : st.step (.onTick tick now) = some st') : ∃ svc snap,
    st.listener.snapshotService.processTick tick now = some (svc, snap) ∧
      st'.listener.snapshotService.orderBook = svc.orderBook ∧
      st'.listener.snapshot.book = snap.book ∧ st'.emitted = some st'.listener.snapshot ∧
      st'.receipts = List.replicate st.slots st'.listener.snapshot ++ st.receipts := by
  obtain ⟨svc, snap, listener, hCall, hService, ⟨condition, hSnap⟩, rfl⟩ := step_onTick hStep
  obtain ⟨retired, freeSnaps, hLetGo⟩ := letGo_eq { st with
    listener, rebuilt := st.rebuilt || tick.isSnapshot } st.listener.snapshot
  rw [hLetGo]
  refine ⟨svc, snap, hCall, ?_, ?_, rfl, rfl⟩
  · show listener.snapshotService.orderBook = _
    rw [hService]
  · show listener.snapshot.book = _
    rw [hSnap]

/-- The invariant: the service, seen with its receivers, delivers. -/
structure Serves (symbol : MarketKey) (st : ListenerRun) : Prop where
  sourced : st.Sourced symbol
  delivered : ∃ log, (st.receivers log).Delivered

theorem Serves.returns (h : st.Serves symbol) (hClean : st.Clean op) :
    ∃ st', st.step op = some st' := by
  cases op with
  | onTick tick now =>
    obtain ⟨log, hDelivered⟩ := h.delivered
    obtain ⟨s, hStep⟩ := hDelivered.returns hClean
    obtain ⟨⟨svc, snap⟩, hCall, -⟩ := Option.bind_eq_some_iff.mp hStep
    exact onTick_returns hCall
  | _ => exact step_returns st rfl

theorem Serves.step (h : st.Serves symbol) (hClean : st.Clean op) (hStep : st.step op = some st') :
    EmitsBook st op st' ∧ st'.Serves symbol := by
  obtain ⟨log, hDelivered⟩ := h.delivered
  obtain ⟨s, hRun, hRegroups⟩ := h.sourced.simulates hStep log
  have hSourced := (h.sourced.step_iff hStep).2
  cases op with
  | onTick tick now =>
    obtain ⟨svc, snap, hCall, hBook, hSnap, hEmitted, -⟩ := step_onTick_emitted hStep
    rw [serviceOps, run_cons] at hRun
    obtain ⟨s', hTick, hEnd⟩ := Option.bind_eq_some_iff.mp hRun
    obtain rfl := Option.some.inj hEnd
    obtain ⟨⟨snap', hHeld, hSame⟩, hNext⟩ := hDelivered.processTick hClean hTick
    obtain ⟨⟨svc', snap''⟩, hCall', hResult⟩ := Option.bind_eq_some_iff.mp hTick
    obtain ⟨rfl, rfl⟩ := Prod.mk.inj (Option.some.inj (hCall.symm.trans hCall'))
    obtain rfl := Option.some.inj hResult
    obtain rfl := (List.cons.inj hHeld).1
    refine ⟨⟨_, hEmitted, ?_⟩, hSourced, _, hRegroups.delivered hNext⟩
    rw [hSnap, hBook]
    exact hSame
  | _ =>
    obtain rfl := Option.some.inj hRun
    exact ⟨trivial, hSourced, log, hRegroups.delivered hDelivered⟩

/-- The careful subscriber, over a reconnection that brings other orders. -/
def keptOverReconnect : List ListenerOp :=
  carefulSubscriber ++ [.onConnectionState { ec := 0 },
    .onTick (.snapshot (.ofSides [⟨"5", 39629, 1, 40, .buy⟩] [])) 50,
    .onTick (.add ⟨"6", 39631, 1, 60, .sell⟩) 60]

end ListenerRun

end Arby.PowerTrade
