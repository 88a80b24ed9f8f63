import Arby.PowerTrade.ListenerCondition
import Arby.PowerTrade.ServiceRun

/-! How the snapshots that subscribers receive are labelled. Only the constructor of the listener
writes the source of a snapshot: those of the service have none, new or taken again. -/

namespace Arby.PowerTrade

open Trading Kit

/-- What the service hands out and takes back. -/
structure OrderbookSnapshot.Unlabelled (snap : OrderbookSnapshot) : Prop where
  made : snap.object ≠ 0
  source : snap.source = ""

theorem OrderbookListenerImpl.buildSourceId_ne_empty (symbol : MarketKey) :
    buildSourceId symbol ≠ "" := by
  unfold buildSourceId
  rw [Ne, String.append_eq_empty_iff, String.append_eq_empty_iff]
  simp

namespace OrderbookSnapshotService

variable {svc svc' : OrderbookSnapshotService} {tick : TickRecord} {now : TimestampType}
  {snap : OrderbookSnapshot}

theorem processTick_source (h : svc.processTick tick now = some (svc', snap)) :
    snap.source = (svc.taken now).source := by
  obtain ⟨orderBook, -, svc₃, book, -, hStamp⟩ := processTick_eq_some.mp h
  rw [← (Prod.mk.inj hStamp).2]

/-- A tick is answered without a source, and so is the next one. -/
theorem processTick_unlabelled (hMade : 0 < svc.made)
    (hFree : ∀ o ∈ svc.freeSnaps, o.Unlabelled)
    (h : svc.processTick tick now = some (svc', snap)) :
    snap.Unlabelled ∧ 0 < svc'.made ∧ ∀ o ∈ svc'.freeSnaps, o.Unlabelled := by
  have hTurn := processTick_turn h
  have hSource := processTick_source h
  rcases hTurn.pool with ⟨-, hFree', hMade', hTaken⟩ | ⟨hPool, hMade'⟩
  · rw [hTaken] at hSource
    refine ⟨⟨?_, hSource⟩, by omega, fun o ho => ?_⟩
    · rw [hTurn.object, hTaken]
      exact hMade.ne'
    · rw [hFree'] at ho
      cases ho
  · have hTaken : (svc.taken now).Unlabelled := hFree _ (by rw [hPool]; exact List.mem_cons_self)
    refine ⟨⟨?_, hSource.trans hTaken.source⟩, hMade' ▸ hMade, fun o ho => hFree o ?_⟩
    · rw [hTurn.object]
      exact hTaken.made
    · rw [hPool]
      exact List.mem_cons_of_mem _ ho

end OrderbookSnapshotService

namespace ListenerRun

variable {st st' : ListenerRun} {op : ListenerOp} {symbol : MarketKey}

/-- The receipts that a step adds. -/
def received (st st' : ListenerRun) : List OrderbookSnapshot :=
  st'.receipts.take (st'.receipts.length - st.receipts.length)

/-- What subscribers receive in a step carries the source of the listener, and what the step passes
to `signal_` the conditions of the connection and the book, merged. -/
structure Labels (st st' : ListenerRun) : Prop where
  source : ∀ snap ∈ received st st',
    snap.source = OrderbookListenerImpl.buildSourceId st'.listener.symbol
  state : ∀ snap ∈ st'.emitted, snap.condition.state =
    max st'.listener.connectionCondition.state st'.listener.bookCondition.state
  errors : ∀ snap ∈ st'.emitted, snap.condition.errors =
    st'.listener.connectionCondition.errors ++ st'.listener.bookCondition.errors

instance (st st' : ListenerRun) : Decidable (Labels st st') :=
  decidable_of_iff ((∀ snap ∈ received st st',
      snap.source = OrderbookListenerImpl.buildSourceId st'.listener.symbol) ∧
    (∀ snap ∈ st'.emitted, snap.condition.state =
      max st'.listener.connectionCondition.state st'.listener.bookCondition.state) ∧
    ∀ snap ∈ st'.emitted, snap.condition.errors =
      st'.listener.connectionCondition.errors ++ st'.listener.bookCondition.errors)
    ⟨fun ⟨source, state, errors⟩ => ⟨source, state, errors⟩,
      fun h => ⟨h.source, h.state, h.errors⟩⟩

/-- Nobody receives another snapshot than the one that the constructor made. -/
def Initial (st : ListenerRun) : ListenerOp → Prop
  | .onConnectionState _ => st.slots = 0 ∨ st.listener.snapshot.object = 0
  | .onCommandResponse payload =>
    payload.ifContains "error_code" = none ∨ st.slots = 0 ∨ st.listener.snapshot.object = 0
  | .onTick _ _ => st.slots = 0
  | .subscribe => st.listener.snapshot.object = 0
  | _ => True

instance (st : ListenerRun) (op : ListenerOp) : Decidable (st.Initial op) :=
  match op with
  | .onConnectionState _ | .onTick _ _ | .subscribe | .disconnect | .release _
  | .deallocateSnapshot _ => by
    dsimp only [Initial]
    infer_instance
  | .onCommandResponse payload => by
    dsimp only [Initial]
    have : Decidable (payload.ifContains "error_code" = none) :=
      decidable_of_iff _ Option.isNone_iff_eq_none
    infer_instance

/-- The invariant: only object 0 has a source, and it does not go to the service. -/
structure Sourced (symbol : MarketKey) (st : ListenerRun) : Prop where
  market : st.listener.symbol = symbol
  made : 0 < st.listener.snapshotService.made
  own : st.listener.snapshot.object = 0 ∧
      st.listener.snapshot.source = OrderbookListenerImpl.buildSourceId symbol ∨
    st.listener.snapshot.Unlabelled
  retired : ∀ o ∈ st.retired, o.object ≠ 0 → o.source = ""
  returning : ∀ o ∈ st.returning, o.Unlabelled
  freeSnaps : ∀ o ∈ st.listener.snapshotService.freeSnaps, o.Unlabelled

theorem sourced_start (symbol : MarketKey) (created : TimestampType) :
    (start symbol created).Sourced symbol where
  market := rfl
  made := Nat.one_pos
  own := .inl ⟨rfl, rfl⟩
  retired _ ho := (List.not_mem_nil ho).elim
  returning _ ho := (List.not_mem_nil ho).elim
  freeSnaps _ ho := (List.not_mem_nil ho).elim

theorem Sourced.source_iff (h : st.Sourced symbol) :
    st.listener.snapshot.source = OrderbookListenerImpl.buildSourceId st.listener.symbol ↔
      st.listener.snapshot.object = 0 := by
  rw [h.market]
  rcases h.own with ⟨hObject, hSource⟩ | hUnlabelled
  · exact iff_of_true hSource hObject
  · refine iff_of_false ?_ hUnlabelled.made
    rw [hUnlabelled.source]
    exact (OrderbookListenerImpl.buildSourceId_ne_empty symbol).symm

/-! ### What a step sends -/

/-- A step that passes the listener's snapshot to `signal_`. -/
structure Sends (st st' : ListenerRun) : Prop where
  emitted : st'.emitted = some st'.listener.snapshot
  shown : st'.listener.snapshot.condition = st'.listener.condition
  receipts : st'.receipts = List.replicate st.slots st'.listener.snapshot ++ st.receipts

theorem received_append {new : List OrderbookSnapshot} (h : st'.receipts = new ++ st.receipts) :
    received st st' = new := by
  rw [received, h, List.length_append, Nat.add_sub_cancel, List.take_left']
  rfl

theorem received_of_length_le (h : st'.receipts.length ≤ st.receipts.length) :
    received st st' = [] := by
  rw [received, Nat.sub_eq_zero_of_le h, List.take_zero]

/-- A step that sends labels what it sends exactly when nobody receives it or it is object 0. -/
theorem Sends.labels_iff (hSends : Sends st st') (h : st'.Sourced symbol) :
    Labels st st' ↔ st.slots = 0 ∨ st'.listener.snapshot.object = 0 := by
  have hReceived := received_append hSends.receipts
  constructor
  · intro hLabels
    by_cases hSlots : st.slots = 0
    · exact .inl hSlots
    · refine .inr (h.source_iff.mp (hLabels.source _ ?_))
      rw [hReceived]
      exact List.mem_replicate.mpr ⟨hSlots, rfl⟩
  · intro hInitial
    constructor
    · intro snap hSnap
      rw [hReceived, List.mem_replicate] at hSnap
      obtain ⟨hSlots, rfl⟩ := hSnap
      exact h.source_iff.mpr (hInitial.resolve_left hSlots)
    all_goals
      intro snap hSnap
      rw [← Option.some.inj (hSends.emitted.symm.trans hSnap), hSends.shown]
      rfl

/-- A step that sends nothing and adds no receipts. -/
theorem labels_of_quiet (hEmitted : st'.emitted = none)
    (hLength : st'.receipts.length ≤ st.receipts.length) : Labels st st' := by
  constructor
  · rw [received_of_length_le hLength]
    exact fun _ hSnap => (List.not_mem_nil hSnap).elim
  all_goals
    rw [hEmitted]
    exact fun snap hSnap => (Option.not_mem_none snap hSnap).elim

/-- The listener with the objects of `l`: its snapshot may show another condition. -/
structure SameObjects (l l' : OrderbookListenerImpl) : Prop where
  symbol : l'.symbol = l.symbol
  service : l'.snapshotService = l.snapshotService
  object : l'.snapshot.object = l.snapshot.object
  source : l'.snapshot.source = l.snapshot.source

theorem Sourced.sameObjects (h : st.Sourced symbol)
    (hListener : SameObjects st.listener st'.listener)
    (hRetired : st'.retired = st.retired) (hReturning : st'.returning = st.returning) :
    st'.Sourced symbol := by
  constructor
  · exact hListener.symbol.trans h.market
  · rw [hListener.service]
    exact h.made
  · rw [hListener.object, hListener.source]
    exact h.own.imp_right fun hOwn => ⟨hListener.object ▸ hOwn.made, hListener.source ▸ hOwn.source⟩
  · rw [hRetired]
    exact h.retired
  · rw [hReturning]
    exact h.returning
  · rw [hListener.service]
    exact h.freeSnaps

theorem Sourced.signal (h : st.Sourced symbol) : st.signal.Sourced symbol :=
  ⟨h.market, h.made, h.own, h.retired, h.returning, h.freeSnaps⟩

/-- A snapshot that the listener lets go of is kept with its source, or goes to the service without
one. -/
theorem Sourced.letGo (h : st.Sourced symbol) {old : OrderbookSnapshot}
    (hOld : old.object ≠ 0 → old.source = "") : (st.letGo old).Sourced symbol := by
  unfold ListenerRun.letGo
  split
  · refine ⟨h.market, h.made, h.own, fun o ho => ?_, h.returning, h.freeSnaps⟩
    rcases List.mem_cons.mp ho with rfl | ho
    · exact hOld
    · exact h.retired o ho
  · split
    · exact h
    · rename_i hObject
      refine ⟨h.market, h.made, h.own, h.retired, h.returning, fun o ho => ?_⟩
      rcases List.mem_cons.mp ho with rfl | ho
      · exact ⟨hObject, hOld hObject⟩
      · exact h.freeSnaps o ho

theorem Sourced.own_source (h : st.Sourced symbol) (hObject : st.listener.snapshot.object ≠ 0) :
    st.listener.snapshot.source = "" :=
  (h.own.resolve_left fun hOwn => hObject hOwn.1).source

theorem Sourced.onTick {tick : TickRecord} {now : TimestampType} (h : st.Sourced symbol)
    (hStep : st.step (.onTick tick now) = some st') :
    Sends st st' ∧ st'.listener.snapshot.object ≠ 0 ∧ st'.Sourced symbol := by
  obtain ⟨listener, hTick, hStep⟩ := Option.bind_eq_some_iff.mp hStep
  obtain ⟨svc, snap, hCall, rfl⟩ := OrderbookListenerImpl.onTick_eq_some.mp hTick
  obtain ⟨hSnap, hMade, hFree⟩ :=
    OrderbookSnapshotService.processTick_unlabelled h.made h.freeSnaps hCall
  rw [OrderbookListenerImpl.update_eq] at hStep
  obtain rfl := Option.some.inj hStep
  obtain ⟨retired, freeSnaps, hLetGo⟩ := letGo_eq { st with
    listener := { st.listener with
      snapshotService := svc
      snapshot := { snap with condition :=
        st.listener.connectionCondition.merge (st.listener.bookCondition.reset .good) }
      bookCondition := st.listener.bookCondition.reset .good }
    rebuilt := st.rebuilt || tick.isSnapshot } st.listener.snapshot
  refine ⟨?_, ?_, Sourced.signal (Sourced.letGo ?_ h.own_source)⟩
  · unfold OrderbookListenerImpl.condition
    dsimp only
    rw [hLetGo]
    exact ⟨rfl, rfl, rfl⟩
  · unfold OrderbookListenerImpl.condition
    dsimp only
    rw [hLetGo]
    exact hSnap.made
  · exact ⟨h.market, hMade, .inr ⟨hSnap.made, hSnap.source⟩, h.retired, h.returning, hFree⟩

theorem sameObjects_onConnectionState (l : OrderbookListenerImpl) (cstate : ConnectionState) :
    SameObjects l (l.onConnectionState cstate).1 := by
  rw [OrderbookListenerImpl.onConnectionState_fst, OrderbookListenerImpl.update_eq]
  exact ⟨rfl, rfl, rfl, rfl⟩

theorem Sourced.onConnectionState {cstate : ConnectionState} (h : st.Sourced symbol)
    (hStep : st.step (.onConnectionState cstate) = some st') :
    Sends st st' ∧ st'.listener.snapshot.object = st.listener.snapshot.object ∧
      st'.Sourced symbol := by
  have hSame := sameObjects_onConnectionState st.listener cstate
  rw [step_onConnectionState] at hStep
  obtain rfl := Option.some.inj hStep
  refine ⟨⟨rfl, ?_, rfl⟩, hSame.object, h.sameObjects hSame rfl rfl⟩
  show (st.listener.onConnectionState cstate).1.snapshot.condition =
    (st.listener.onConnectionState cstate).1.condition
  rw [OrderbookListenerImpl.onConnectionState_fst, OrderbookListenerImpl.update_eq]
  rfl

theorem Sourced.onCommandResponse {payload : JsonObject} {listener : OrderbookListenerImpl}
    (h : st.Sourced symbol) (hCall : st.listener.onCommandResponse payload = some listener) :
    Sends st (ListenerRun.signal { st with listener }) ∧
      listener.snapshot.object = st.listener.snapshot.object ∧
      (ListenerRun.signal { st with listener }).Sourced symbol := by
  obtain ⟨code, -, rfl⟩ := OrderbookListenerImpl.onCommandResponse_eq_some.mp hCall
  rw [OrderbookListenerImpl.update_eq]
  exact ⟨⟨rfl, rfl, rfl⟩, rfl, h.sameObjects ⟨rfl, rfl, rfl, rfl⟩ rfl rfl⟩

theorem Sourced.release (h : st.Sourced symbol) (i : ℕ) :
    (sweep { st with receipts := st.receipts.eraseIdx i, emitted := none }).Sourced symbol := by
  refine ⟨h.market, h.made, h.own, fun o ho => ?_, fun o ho => ?_, h.freeSnaps⟩
  · exact h.retired o (List.mem_filter.mp ho).1
  · rcases List.mem_append.mp ho with ho | ho
    · obtain ⟨hRetired, hGone⟩ := List.mem_filter.mp ho
      have hObject : o.object ≠ 0 := of_decide_eq_true (Bool.and_eq_true_iff.mp hGone).2
      exact ⟨hObject, h.retired o hRetired hObject⟩
    · exact h.returning o ho

theorem Sourced.deallocateSnapshot {i : ℕ} {snap : OrderbookSnapshot} (h : st.Sourced symbol)
    (hSnap : st.returning[i]? = some snap) : Sourced symbol { st with
      listener := { st.listener with
        snapshotService := st.listener.snapshotService.deallocateSnapshot snap }
      returning := st.returning.eraseIdx i
      emitted := none } := by
  refine ⟨h.market, h.made, h.own, h.retired, fun o ho => ?_, fun o ho => ?_⟩
  · exact h.returning o (List.mem_of_mem_eraseIdx ho)
  · rcases List.mem_cons.mp ho with rfl | ho
    · exact h.returning o (List.mem_of_getElem? hSnap)
    · exact h.freeSnaps o ho

/-- The step lemma: what a step sends is labelled exactly when the step meets the condition. -/
theorem Sourced.step_iff (h : st.Sourced symbol) (hStep : st.step op = some st') :
    (st.Initial op ↔ Labels st st') ∧ st'.Sourced symbol := by
  have hQuiet : st'.emitted = none → st'.receipts.length ≤ st.receipts.length →
      st'.Sourced symbol → (True ↔ Labels st st') ∧ st'.Sourced symbol :=
    fun hEmitted hLength hSourced =>
      ⟨iff_of_true trivial (labels_of_quiet hEmitted hLength), hSourced⟩
  cases op with
  | onConnectionState cstate =>
    obtain ⟨hSends, hObject, hSourced⟩ := h.onConnectionState hStep
    refine ⟨?_, hSourced⟩
    rw [hSends.labels_iff hSourced, hObject]
    exact Iff.rfl
  | onCommandResponse payload =>
    obtain ⟨hCode, rfl⟩ | ⟨code, listener, hCode, hCall, rfl⟩ := onCommandResponse_cases hStep
    · have hRest := hQuiet rfl le_rfl (h.sameObjects ⟨rfl, rfl, rfl, rfl⟩ rfl rfl)
      exact ⟨(iff_of_true (.inl hCode) trivial).trans hRest.1, hRest.2⟩
    · obtain ⟨hSends, hObject, hSourced⟩ := h.onCommandResponse hCall
      refine ⟨?_, hSourced⟩
      rw [hSends.labels_iff hSourced]
      show _ ↔ _ ∨ listener.snapshot.object = 0
      rw [hObject]
      simp [Initial, hCode]
  | onTick tick now =>
    obtain ⟨hSends, hObject, hSourced⟩ := h.onTick hStep
    refine ⟨?_, hSourced⟩
    rw [hSends.labels_iff hSourced]
    simp [Initial, hObject]
  | subscribe =>
    obtain rfl := Option.some.inj hStep
    refine ⟨?_, h.sameObjects ⟨rfl, rfl, rfl, rfl⟩ rfl rfl⟩
    have hReceived : received st { st with
        slots := st.slots + 1
        receipts := st.listener.snapshot :: st.receipts
        emitted := none } = [st.listener.snapshot] := received_append rfl
    have hNone : ∀ snap, snap ∉ (none : Option OrderbookSnapshot) := Option.not_mem_none
    refine h.source_iff.symm.trans ⟨fun hSource => ⟨?_, ?_, ?_⟩, fun hLabels => ?_⟩
    · rw [hReceived]
      intro snap hSnap
      rw [List.mem_singleton.mp hSnap, hSource]
    · exact fun snap hSnap => (hNone snap hSnap).elim
    · exact fun snap hSnap => (hNone snap hSnap).elim
    · exact hLabels.source _ (by rw [hReceived]; exact List.mem_singleton_self _)
  | disconnect =>
    obtain rfl := Option.some.inj hStep
    exact hQuiet rfl le_rfl (h.sameObjects ⟨rfl, rfl, rfl, rfl⟩ rfl rfl)
  | release i =>
    obtain rfl := Option.some.inj hStep
    exact hQuiet rfl (List.length_eraseIdx_le ..) (h.release i)
  | deallocateSnapshot i =>
    obtain rfl | ⟨snap, hSnap, rfl⟩ := deallocateSnapshot_cases hStep
    · exact hQuiet rfl le_rfl (h.sameObjects ⟨rfl, rfl, rfl, rfl⟩ rfl rfl)
    · exact hQuiet rfl le_rfl (h.deallocateSnapshot hSnap)

/-- In every run what subscribers receive is labelled exactly when it is the constructor's snapshot
every time. -/
theorem labels_run_iff {created : TimestampType} {ops : List ListenerOp}
    (hRun : run step (start symbol created) ops = some st) :
    Safe step (fun st _ st' => Labels st st') (start symbol created) ops ↔
      Along step Initial (start symbol created) ops :=
  safe_iff_of_run (I := Sourced symbol) (fun _ _ _ h hStep => (h.step_iff hStep).1)
    (fun _ _ _ h _ hStep => (h.step_iff hStep).2) (sourced_start symbol created) hRun

/-- A subscriber that leaves before the first tick, while the connection comes up. -/
def earlyLeaver : List ListenerOp :=
  [.subscribe, .onConnectionState { ec := 0 }, .onCommandResponse [("error_code", .string "0")],
    .disconnect, .onTick (.snapshot (.ofSides [⟨"1", 39628, 1, 1, .buy⟩] [])) 10, .release 0,
    .release 0, .release 0, .onTick (.add ⟨"2", 39631, 1, 2, .sell⟩) 20]

theorem earlyLeaver_labels : Safe step (fun st _ st' => Labels st st')
    (start (.spot ⟨"btc", "usd"⟩) 0) earlyLeaver :=
  (labels_run_iff (Option.getD_of_ne_none (by decide +kernel)
    (start (.spot ⟨"btc", "usd"⟩) 0)).symm).mpr (by decide +kernel)

/-- A subscriber that waits for the first tick. -/
def firstTick : List ListenerOp :=
  [.subscribe, .onConnectionState { ec := 0 },
    .onTick (.snapshot (.ofSides [⟨"1", 39628, 1, 1, .buy⟩] [])) 10]

theorem firstTick_unlabelled :
    (run step (start (.spot ⟨"btc", "usd"⟩) 0) firstTick).isSome ∧
      ¬Safe step (fun st _ st' => Labels st st') (start (.spot ⟨"btc", "usd"⟩) 0) firstTick := by
  decide +kernel

end ListenerRun

end Arby.PowerTrade
