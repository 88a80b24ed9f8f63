import Arby.Kit.Allocated
import Arby.Kit.Run
import Arby.PowerTrade.ListenerRun
import Arby.PowerTrade.ServiceRun

/-! What subscribers read through the snapshots that they keep: each reads what it received, as long
as the condition of the listener's own snapshot is not changed under a subscriber. -/

namespace Arby.PowerTrade

open Trading Kit

namespace OrderbookListenerImpl

variable {l l' : OrderbookListenerImpl} {cstate : ConnectionState}

/-- The snapshot shows the condition, and the errors of a condition say which event gave it. -/
structure Shows (l : OrderbookListenerImpl) : Prop where
  shown : l.snapshot.condition = l.condition
  connection : ∀ cstate, l.connectionCondition.errors = (conditionOf cstate).errors →
    l.connectionCondition = conditionOf cstate
  book : ∀ code, l.bookCondition.errors = (responseCondition code).errors →
    l.bookCondition = responseCondition code

theorem shows_construct (symbol : MarketKey) (now : TimestampType) :
    (construct symbol now).Shows where
  shown := by unfold construct condition; rfl
  connection cstate h := by
    unfold conditionOf at h
    split at h <;> simp [construct] at h
  book code h := by
    unfold responseCondition at h
    split at h <;> simp [construct] at h

theorem Shows.service (h : l.Shows) (snapshotService : OrderbookSnapshotService) :
    Shows { l with snapshotService } := ⟨h.shown, h.connection, h.book⟩

theorem conditionOf_errors {cstate' : ConnectionState}
    (h : (conditionOf cstate).errors = (conditionOf cstate').errors) :
    conditionOf cstate = conditionOf cstate' := by
  unfold conditionOf at h ⊢
  split at h <;> split at h <;> simp_all

theorem responseCondition_errors {code code' : Json}
    (h : (responseCondition code).errors = (responseCondition code').errors) :
    responseCondition code = responseCondition code' := by
  unfold responseCondition at h ⊢
  split at h <;> split at h <;> simp_all

theorem responseCondition_mergeState (code : Json) :
    (responseCondition code).mergeState .stale = responseCondition code := by
  unfold responseCondition
  split <;> rfl

/-- The condition of a book after a connection event. -/
def bookAfter (l : OrderbookListenerImpl) (cstate : ConnectionState) : FeedCondition :=
  if cstate.down then l.bookCondition.mergeState .stale else l.bookCondition

theorem bookAfter_errors : (l.bookAfter cstate).errors = l.bookCondition.errors := by
  unfold bookAfter
  split <;> rfl

theorem Shows.onConnectionState (h : l.Shows) : (l.onConnectionState cstate).1.Shows := by
  rw [onConnectionState_fst, update_eq]
  refine ⟨rfl, fun cstate' hErrors => conditionOf_errors hErrors, fun code hErrors => ?_⟩
  have hBook := h.book code (bookAfter_errors.symm.trans hErrors)
  show l.bookAfter cstate = responseCondition code
  unfold bookAfter
  rw [hBook, responseCondition_mergeState, ite_self]

theorem Shows.onCommandResponse {payload : JsonObject} (h : l.Shows)
    (hCall : l.onCommandResponse payload = some l') : l'.Shows := by
  obtain ⟨code, -, rfl⟩ := onCommandResponse_eq_some.mp hCall
  rw [update_eq]
  exact ⟨rfl, h.connection, fun code' hErrors => responseCondition_errors hErrors⟩

theorem Shows.onTick {tick : TickRecord} {now : TimestampType} (h : l.Shows)
    (hCall : l.onTick tick now = some l') : l'.Shows := by
  obtain ⟨snapshotService, snapshot, -, rfl⟩ := onTick_eq_some.mp hCall
  rw [update_eq]
  refine ⟨rfl, h.connection, fun code hErrors => ?_⟩
  unfold responseCondition at hErrors
  split at hErrors <;> simp at hErrors

theorem Shows.onConnectionState_condition (h : l.Shows) :
    (l.onConnectionState cstate).1.condition = l.snapshot.condition ↔
      l.connectionCondition = conditionOf cstate := by
  rw [onConnectionState_fst, update_eq, h.shown]
  show (conditionOf cstate).merge (l.bookAfter cstate) = l.connectionCondition.merge l.bookCondition
    ↔ _
  constructor
  · intro hSame
    have hErrors := congrArg FeedCondition.errors hSame
    rw [FeedCondition.merge_errors, FeedCondition.merge_errors, bookAfter_errors] at hErrors
    exact h.connection cstate (List.append_cancel_right hErrors).symm
  · intro hRepeats
    rw [hRepeats]
    unfold bookAfter conditionOf
    split
    · unfold FeedCondition.merge FeedCondition.mergeState
      simp [max_comm]
    · rfl

theorem Shows.onCommandResponse_condition {payload : JsonObject} {code : Json} (h : l.Shows)
    (hCode : payload.ifContains "error_code" = some code)
    (hCall : l.onCommandResponse payload = some l') :
    l'.condition = l.snapshot.condition ↔ l.bookCondition = responseCondition code := by
  obtain ⟨code', hCode', rfl⟩ := onCommandResponse_eq_some.mp hCall
  obtain rfl := Option.some.inj (hCode.symm.trans hCode')
  rw [update_eq, h.shown]
  show l.connectionCondition.merge (responseCondition code) =
    l.connectionCondition.merge l.bookCondition ↔ _
  constructor
  · intro hSame
    have hErrors := congrArg FeedCondition.errors hSame
    rw [FeedCondition.merge_errors, FeedCondition.merge_errors] at hErrors
    exact h.book code (List.append_cancel_left hErrors).symm
  · intro hRepeats
    rw [hRepeats]

end OrderbookListenerImpl

namespace ListenerRun

/-- The objects that somebody points to, and those that wait to be taken again. -/
def objects (st : ListenerRun) : List OrderbookSnapshot :=
  st.listener.snapshot :: (st.retired ++ (st.returning ++ st.listener.snapshotService.freeSnaps))

/-- What a pointer to `object` reads. -/
def read (st : ListenerRun) (object : ℕ) : Option OrderbookSnapshot :=
  (st.listener.snapshot :: st.retired).find? fun o => o.object = object

/-- Every pointer outside the listener reads what it read when it was received. -/
def Intact (st : ListenerRun) : Prop := ∀ r ∈ st.receipts, st.read r.object = some r

/-- The listener's snapshot is not held outside when an event changes the condition that it
shows. -/
def Undisturbed (st : ListenerRun) : ListenerOp → Prop
  | .onConnectionState cstate =>
    st.isHeld st.listener.snapshot.object = false ∨
      st.listener.connectionCondition = OrderbookListenerImpl.conditionOf cstate
  | .onCommandResponse payload =>
    ∀ code ∈ payload.ifContains "error_code",
      st.isHeld st.listener.snapshot.object = false ∨
        st.listener.bookCondition = OrderbookListenerImpl.responseCondition code
  | _ => True

instance (st : ListenerRun) (op : ListenerOp) : Decidable (st.Undisturbed op) :=
  match op with
  | .onConnectionState _ | .onCommandResponse _ | .onTick _ _ | .subscribe | .disconnect | .release _
  | .deallocateSnapshot _ => by
    dsimp only [Undisturbed]
    infer_instance

variable {st st' : ListenerRun} {op : ListenerOp} {tick : TickRecord} {now : TimestampType}

/-- The objects of a run are told apart by their identities, and receipts point to current and
retired ones. -/
structure Owned (st : ListenerRun) : Prop where
  shows : st.listener.Shows
  objects : Allocated OrderbookSnapshot.object st.listener.snapshotService.made st.objects
  receipts : ∀ r ∈ st.receipts, r ∈ st.listener.snapshot :: st.retired

theorem owned_start (symbol : MarketKey) (created : TimestampType) :
    (start symbol created).Owned where
  shows := OrderbookListenerImpl.shows_construct symbol created
  objects := by
    constructor
    · exact List.nodup_singleton _
    · intro o ho
      obtain rfl := List.mem_singleton.mp ho
      exact Nat.one_pos
  receipts _ hReceipt := absurd hReceipt List.not_mem_nil

theorem Owned.pointed (h : st.Owned) :
    Allocated OrderbookSnapshot.object st.listener.snapshotService.made
      (st.listener.snapshot :: st.retired) :=
  h.objects.sublist ((List.sublist_append_left _ _).cons_cons _)

theorem Owned.intact (h : st.Owned) : st.Intact :=
  fun r hr => h.pointed.find?_eq_some.mpr (h.receipts r hr)

theorem isHeld_iff {object : ℕ} :
    st.isHeld object = true ↔ ∃ r ∈ st.receipts, r.object = object := by
  simp [isHeld]

theorem isHeld_of_mem {r : OrderbookSnapshot} (hr : r ∈ st.receipts) : st.isHeld r.object = true :=
  isHeld_iff.mpr ⟨r, hr, rfl⟩

/-! ### Events that change the condition -/

section Condition

variable {l' : OrderbookListenerImpl} (h : st.Owned) (hShows : l'.Shows)
  (hSnap : l'.snapshot = { st.listener.snapshot with condition := l'.condition })
  (hService : l'.snapshotService = st.listener.snapshotService)
  (hListener : st'.listener = l') (hRetired : st'.retired = st.retired)
  (hReturning : st'.returning = st.returning)
  (hReceipts : st'.receipts = List.replicate st.slots l'.snapshot ++ st.receipts)

include h hSnap hService hListener hRetired hReturning

theorem Owned.objects_condition :
    Allocated OrderbookSnapshot.object st'.listener.snapshotService.made st'.objects := by
  unfold ListenerRun.objects
  rw [hListener, hService, hRetired, hReturning]
  exact h.objects.update (by rw [hSnap])

/-- Those of them that somebody points to. -/
theorem Owned.pointed_condition :
    Allocated OrderbookSnapshot.object st'.listener.snapshotService.made
      (st'.listener.snapshot :: st'.retired) :=
  (h.objects_condition hSnap hService hListener hRetired hReturning).sublist
    ((List.sublist_append_left _ _).cons_cons _)

include hShows in
theorem Owned.condition (hIntact : st'.Intact) : st'.Owned := by
  have hObjects := h.objects_condition hSnap hService hListener hRetired hReturning
  have hPointed := h.pointed_condition hSnap hService hListener hRetired hReturning
  exact ⟨hListener ▸ hShows, hObjects, fun r hr => hPointed.find?_eq_some.mp (hIntact r hr)⟩

include hReceipts

theorem Owned.intact_condition :
    (st.isHeld st.listener.snapshot.object = false ∨ l'.condition = st.listener.snapshot.condition) ↔
      st'.Intact := by
  have hPointed := h.pointed_condition hSnap hService hListener hRetired hReturning
  constructor
  · intro hCond r hr
    refine hPointed.find?_eq_some.mpr ?_
    rw [hReceipts, List.mem_append] at hr
    rw [hListener, hRetired]
    rcases hr with hr | hr
    · rw [List.eq_of_mem_replicate hr]
      exact List.mem_cons_self
    · rcases List.mem_cons.mp (h.receipts r hr) with rfl | hr'
      · rcases hCond with hHeld | hSame
        · rw [isHeld_of_mem hr] at hHeld
          cases hHeld
        · rw [hSnap, hSame]
          exact List.mem_cons_self
      · exact List.mem_cons_of_mem _ hr'
  · intro hIntact
    cases hHeld : st.isHeld st.listener.snapshot.object with
    | false => exact .inl rfl
    | true =>
      obtain ⟨r, hr, hObject⟩ := isHeld_iff.mp hHeld
      -- The receipt is for the current object, so it says what that was before the event.
      obtain rfl : r = st.listener.snapshot :=
        h.pointed.eq_of_identity (h.receipts r hr) List.mem_cons_self hObject
      have hRead := hIntact st.listener.snapshot (by
        rw [hReceipts]
        exact List.mem_append_right _ hr)
      have hMem := hPointed.find?_eq_some.mp hRead
      have hSame := hPointed.eq_of_identity hMem List.mem_cons_self (by rw [hListener, hSnap])
      rw [hListener] at hSame
      have hCondition := congrArg OrderbookSnapshot.condition hSame
      rw [hSnap] at hCondition
      exact .inr hCondition.symm

end Condition

/-! ### Ticks and subscribers -/

theorem pool_perm (o : OrderbookSnapshot) (xs ys zs : List OrderbookSnapshot) :
    (xs ++ (ys ++ o :: zs)).Perm (o :: (xs ++ (ys ++ zs))) := by
  rw [← List.append_assoc, ← List.append_assoc]
  exact List.perm_middle

theorem Owned.turn {svc : OrderbookSnapshotService} {snap : OrderbookSnapshot} (h : st.Owned)
    (hTurn : st.listener.snapshotService.Turn tick now svc snap) :
    Allocated OrderbookSnapshot.object svc.made
      (snap :: st.listener.snapshot :: (st.retired ++ (st.returning ++ svc.freeSnaps))) := by
  have hObjects := h.objects
  unfold ListenerRun.objects at hObjects
  rcases hTurn.pool with ⟨hFree, hFree', hMade, hTaken⟩ | ⟨hFree, hMade⟩
  · rw [hFree] at hObjects
    rw [hFree', hMade]
    exact hObjects.cons (by rw [hTurn.object, hTaken])
  · rw [hFree] at hObjects
    rw [hMade]
    have hPerm := (pool_perm (st.listener.snapshotService.taken now) st.retired st.returning
      svc.freeSnaps).cons st.listener.snapshot
    exact (hObjects.perm (hPerm.trans (.swap _ _ _)).symm).update hTurn.object

/-- The object that the listener lets go of is kept by those who hold it, destroyed or pooled. -/
theorem owned_letGo {old : OrderbookSnapshot} (hShows : st.listener.Shows)
    (hObjects : Allocated OrderbookSnapshot.object st.listener.snapshotService.made
      (st.listener.snapshot :: old ::
        (st.retired ++ (st.returning ++ st.listener.snapshotService.freeSnaps))))
    (hReceipts : ∀ r ∈ st.receipts, r ∈ old :: st.retired) : (st.letGo old).Owned := by
  unfold letGo
  split
  · exact ⟨hShows, hObjects, fun r hr => List.mem_cons_of_mem _ (hReceipts r hr)⟩
  · rename_i hHeld
    have hRetired : ∀ r ∈ st.receipts, r ∈ st.listener.snapshot :: st.retired := by
      intro r hr
      rcases List.mem_cons.mp (hReceipts r hr) with rfl | hr'
      · exact absurd (isHeld_of_mem hr) hHeld
      · exact List.mem_cons_of_mem _ hr'
    split
    · exact ⟨hShows, hObjects.sublist ((List.sublist_cons_self _ _).cons_cons _), hRetired⟩
    · exact ⟨hShows.service _, hObjects.perm ((pool_perm _ _ _ _).cons _), hRetired⟩

theorem Owned.signal (h : st.Owned) : st.signal.Owned := by
  refine ⟨h.shows, h.objects, fun r hr => ?_⟩
  rcases List.mem_append.mp hr with hr | hr
  · rw [List.eq_of_mem_replicate hr]
    exact List.mem_cons_self
  · exact h.receipts r hr

theorem Owned.onTick (h : st.Owned) (hStep : st.step (.onTick tick now) = some st') : st'.Owned := by
  obtain ⟨l', hCall, hStep⟩ := Option.bind_eq_some_iff.mp hStep
  have hShows := h.shows.onTick hCall
  obtain ⟨svc, snap, hTick, rfl⟩ := OrderbookListenerImpl.onTick_eq_some.mp hCall
  have hObjects := h.turn (OrderbookSnapshotService.processTick_turn hTick)
  obtain rfl := Option.some.inj hStep
  rw [OrderbookListenerImpl.update_eq] at hShows ⊢
  apply Owned.signal
  exact owned_letGo hShows (hObjects.update rfl) h.receipts

theorem sweep_objects (st : ListenerRun) : st.sweep.objects.Subperm st.objects := by
  refine (List.subperm_cons _).mpr ?_
  have hSwept := List.filter_append_perm (fun o => st.isHeld o.object) st.retired
  have hGone : (st.retired.filter fun o => !st.isHeld o.object && o.object ≠ 0).Sublist
      (st.retired.filter fun o => !st.isHeld o.object) :=
    List.monotone_filter_right _ fun o ho => (Bool.and_eq_true_iff.mp ho).1
  show ((st.retired.filter fun o => st.isHeld o.object) ++
    ((st.retired.filter fun o => !st.isHeld o.object && o.object ≠ 0) ++ st.returning ++
      st.listener.snapshotService.freeSnaps)).Subperm _
  rw [List.append_assoc, ← List.append_assoc]
  exact (List.subperm_append_right _).mpr ((hGone.append_left _).subperm.trans hSwept.subperm)

theorem Owned.release (h : st.Owned) (i : ℕ) :
    Owned (sweep { st with receipts := st.receipts.eraseIdx i, emitted := none }) := by
  refine ⟨h.shows, h.objects.subperm (sweep_objects _), fun r hr => ?_⟩
  rcases List.mem_cons.mp (h.receipts r (List.mem_of_mem_eraseIdx hr)) with rfl | hr'
  · exact List.mem_cons_self
  · exact List.mem_cons_of_mem _ (List.mem_filter.mpr ⟨hr', isHeld_of_mem hr⟩)

theorem Owned.deallocateSnapshot {i : ℕ} {snap : OrderbookSnapshot} (h : st.Owned)
    (hSnap : st.returning[i]? = some snap) : Owned { st with
      listener := { st.listener with
        snapshotService := st.listener.snapshotService.deallocateSnapshot snap }
      returning := st.returning.eraseIdx i
      emitted := none } := by
  obtain ⟨hi, rfl⟩ := List.getElem?_eq_some_iff.mp hSnap
  have hPerm := List.getElem_cons_eraseIdx_perm hi
  refine ⟨h.shows.service _, h.objects.perm ?_, h.receipts⟩
  refine (List.Perm.append_left _ ?_).cons _
  exact List.perm_middle.trans (hPerm.append_right _)

/-! ### Runs -/

theorem Owned.onConnectionState {cstate : ConnectionState} (h : st.Owned)
    (hStep : st.step (.onConnectionState cstate) = some st') :
    (st.Undisturbed (.onConnectionState cstate) ↔ st'.Intact) ∧ (st'.Intact → st'.Owned) := by
  have hSnap : (st.listener.onConnectionState cstate).1.snapshot = { st.listener.snapshot with
      condition := (st.listener.onConnectionState cstate).1.condition } := by
    rw [OrderbookListenerImpl.onConnectionState_fst, OrderbookListenerImpl.update_eq]
    rfl
  have hService : (st.listener.onConnectionState cstate).1.snapshotService =
      st.listener.snapshotService := by
    rw [OrderbookListenerImpl.onConnectionState_fst, OrderbookListenerImpl.update_eq]
  rw [step_onConnectionState] at hStep
  obtain rfl := Option.some.inj hStep
  constructor
  · refine Iff.trans ?_ (h.intact_condition hSnap hService rfl rfl rfl rfl)
    rw [h.shows.onConnectionState_condition]
    exact Iff.rfl
  · exact h.condition h.shows.onConnectionState hSnap hService rfl rfl rfl

theorem Owned.onCommandResponse {payload : JsonObject} (h : st.Owned)
    (hStep : st.step (.onCommandResponse payload) = some st') :
    (st.Undisturbed (.onCommandResponse payload) ↔ st'.Intact) ∧ (st'.Intact → st'.Owned) := by
  obtain ⟨hNone, rfl⟩ | ⟨code, l', hCode, hCall, rfl⟩ := onCommandResponse_cases hStep
  · have hOwned : Owned { st with emitted := none } := ⟨h.shows, h.objects, h.receipts⟩
    refine ⟨iff_of_true (fun code hCode => ?_) hOwned.intact, fun _ => hOwned⟩
    cases hNone.symm.trans hCode
  · obtain ⟨_, -, hl'⟩ := OrderbookListenerImpl.onCommandResponse_eq_some.mp hCall
    have hSnap : l'.snapshot = { st.listener.snapshot with condition := l'.condition } := by
      rw [hl', OrderbookListenerImpl.update_eq]
      rfl
    have hService : l'.snapshotService = st.listener.snapshotService := by
      rw [hl', OrderbookListenerImpl.update_eq]
    constructor
    · refine Iff.trans ?_ (h.intact_condition hSnap hService rfl rfl rfl rfl)
      rw [h.shows.onCommandResponse_condition hCode hCall]
      simp [Undisturbed, hCode]
    · exact h.condition (h.shows.onCommandResponse hCall) hSnap hService rfl rfl rfl

/-- From the invariant, a step is undisturbed exactly when the pointers read on what they read, and
then the invariant goes on. -/
theorem Owned.step_iff (h : st.Owned) (hStep : st.step op = some st') :
    (st.Undisturbed op ↔ st'.Intact) ∧ (st'.Intact → st'.Owned) := by
  have hKept : st'.Owned → (True ↔ st'.Intact) ∧ (st'.Intact → st'.Owned) :=
    fun hOwned => ⟨iff_of_true trivial hOwned.intact, fun _ => hOwned⟩
  cases op with
  | onConnectionState cstate => exact h.onConnectionState hStep
  | onCommandResponse payload => exact h.onCommandResponse hStep
  | onTick tick now => exact hKept (h.onTick hStep)
  | subscribe =>
    obtain rfl := Option.some.inj hStep
    refine hKept ⟨h.shows, h.objects, fun r hr => ?_⟩
    rcases List.mem_cons.mp hr with rfl | hr
    · exact List.mem_cons_self
    · exact h.receipts r hr
  | disconnect =>
    obtain rfl := Option.some.inj hStep
    exact hKept ⟨h.shows, h.objects, h.receipts⟩
  | release i =>
    obtain rfl := Option.some.inj hStep
    exact hKept (h.release i)
  | deallocateSnapshot i =>
    obtain rfl | ⟨snap, hSnap, rfl⟩ := deallocateSnapshot_cases hStep
    · exact hKept ⟨h.shows, h.objects, h.receipts⟩
    · exact hKept (h.deallocateSnapshot hSnap)

/-- In every run what subscribers hold does not change exactly when no connection event and no
response changes the condition that the listener's snapshot shows while it is held. -/
theorem intact_run_iff {symbol : MarketKey} {created : TimestampType} {ops : List ListenerOp}
    (hRun : run step (start symbol created) ops = some st) :
    Safe step (fun _ _ st => st.Intact) (start symbol created) ops ↔
      Along step Undisturbed (start symbol created) ops :=
  safe_iff_of_run (I := Owned) (fun _ _ _ h hStep => (h.step_iff hStep).1)
    (fun _ _ _ h hIntact hStep => (h.step_iff hStep).2 hIntact) (owned_start symbol created) hRun

/-- A subscriber that keeps what it receives while ticks arrive and an older snapshot is recycled,
and lets go of it before the connection drops. -/
def carefulSubscriber : List ListenerOp :=
  [.onConnectionState { ec := 0 },
    .onTick (.snapshot (.ofSides [⟨"1", 39628, 1, 1, .buy⟩] [])) 10, .subscribe,
    .onTick (.add ⟨"2", 39631, 1, 2, .sell⟩) 20, .release 1, .deallocateSnapshot 0,
    .onTick (.add ⟨"3", 39632, 1, 3, .sell⟩) 30, .release 0, .onConnectionState {}]

theorem carefulSubscriber_intact :
    Safe step (fun _ _ st => st.Intact) (start (.spot ⟨"btc", "usd"⟩) 0) carefulSubscriber :=
  (intact_run_iff (Option.getD_of_ne_none (by decide +kernel)
    (start (.spot ⟨"btc", "usd"⟩) 0)).symm).mpr (by decide +kernel)

/-- A subscriber still holds the snapshot that it received when the connection drops. -/
def droppedConnection : List ListenerOp :=
  [.onConnectionState { ec := 0 },
    .onTick (.snapshot (.ofSides [⟨"1", 39628, 1, 1, .buy⟩] [])) 10, .subscribe,
    .onConnectionState {}]

/-- The run returns, and the snapshot that was good is stale in the subscriber's hands. -/
theorem droppedConnection_changes :
    (run step (start (.spot ⟨"btc", "usd"⟩) 0) droppedConnection).isSome ∧
      ¬Safe step (fun _ _ st => st.Intact) (start (.spot ⟨"btc", "usd"⟩) 0) droppedConnection := by
  refine ⟨by decide +kernel, fun h => ?_⟩
  have hConditions : Safe step (fun _ _ st => ∀ r ∈ st.receipts,
      (st.read r.object).map OrderbookSnapshot.condition = some r.condition)
      (start (.spot ⟨"btc", "usd"⟩) 0) droppedConnection :=
    h.mono fun _ _ _ hIntact r hr => by rw [hIntact r hr]; rfl
  exact absurd hConditions (by decide +kernel)

end ListenerRun

end Arby.PowerTrade
