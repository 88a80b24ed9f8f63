import Arby.PowerTrade.LiveOrders

/-! The book refines its reference: replayed snapshots, additions and removals keep it a mirror of
the live orders. -/

namespace Arby.PowerTrade

open Trading Kit LiveOrder

/-- The reference. `times` are the timestamps of the changes since the last reset, where the time
of the last update was `start`. -/
structure LiveBook where
  orders : SideType → List LiveOrder := fun _ => []
  start : TimestampType := 0
  times : List TimestampType := []

def Add.live (a : Add) : LiveOrder := { id := a.orderId, price := a.price, qty := a.qty }

namespace LiveBook

def update (live : LiveBook) (d : SideType) (orders : List LiveOrder) (ts : TimestampType) :
    LiveBook :=
  { live with
    orders := Function.update live.orders d orders
    times := live.times ++ [ts] }

/-- The reference after a tick. Executions are not among its ticks. -/
def step (live : LiveBook) : TickRecord → LiveBook
  | .snapshot snap =>
    { orders := fun d => (snap.orders d).map Add.live
      start := timePointMin
      times := (snap.bids ++ snap.offers).map Add.timestamp }
  | .add a => live.update a.side (live.orders a.side ++ [a.live]) a.timestamp
  | .remove r =>
    if ∃ o ∈ live.orders r.side, o.id = r.orderId then
      live.update r.side (without (live.orders r.side) r.orderId) r.timestamp
    else live
  | .execute _ => live

/-- The tick is no execution, and it adds no order whose id is live on its side. -/
def Admits (live : LiveBook) : TickRecord → Prop
  | .snapshot snap =>
    (snap.bids.map Add.orderId).Nodup ∧ (snap.offers.map Add.orderId).Nodup
  | .add a => ∀ o ∈ live.orders a.side, o.id ≠ a.orderId
  | .remove _ => True
  | .execute _ => False

instance (live : LiveBook) (t : TickRecord) : Decidable (live.Admits t) :=
  match t with
  | .add _ | .remove _ | .execute _ | .snapshot _ => by
    dsimp only [Admits]
    infer_instance

/-- The time of the last update: the latest of the start and the changes since. -/
def lastUpdate (live : LiveBook) : TimestampType := live.times.foldl max live.start

@[simp] theorem orders_update_self (live : LiveBook) (d : SideType) (orders : List LiveOrder)
    (ts : TimestampType) : (live.update d orders ts).orders d = orders :=
  Function.update_self ..

theorem orders_update_ne (live : LiveBook) {d d' : SideType} (h : d' ≠ d) (orders : List LiveOrder)
    (ts : TimestampType) : (live.update d orders ts).orders d' = live.orders d' :=
  Function.update_of_ne h ..

@[simp] theorem lastUpdate_update (live : LiveBook) (d : SideType) (orders : List LiveOrder)
    (ts : TimestampType) : (live.update d orders ts).lastUpdate = max live.lastUpdate ts := by
  simp [update, lastUpdate]

end LiveBook

/-- On side `d`, price `p` is at least as good as `q`. -/
def AtLeastAsGood (d : SideType) (p q : PriceType) : Prop :=
  match d with
  | .buy => q ≤ p
  | .sell => p ≤ q

theorem toKey_le {d : SideType} {p q : PriceType} :
    toKey d p ≤ toKey d q ↔ AtLeastAsGood d p q := by
  cases d <;> exact Iff.rfl

namespace BookSide

variable {d : SideType} {s : BookSide (Key d)} {live : List LiveOrder}

/-- What one side shows of the live orders. -/
structure Mirrors (s : BookSide (Key d)) (live : List LiveOrder) : Prop where
  /-- The keys of the ladder are the prices of the live orders. -/
  keys : ∀ p, (s.ladder.find? (toKey d p)).isSome ↔ ∃ o ∈ live, o.price = p
  /-- A level queues the live orders of its price in arrival order, and its depth is their sum. -/
  levels : ∀ p node, s.ladder.find? (toKey d p) = some node →
    node.val.orders.map Node.val = (atPrice live p).map LiveOrder.order ∧
      node.val.aggregateDepth = total (atPrice live p)
  aggregate : s.aggregate = total live
  /-- The nodes of the ladder are all different. -/
  placed : s.Placed
  /-- The cache has the live ids, each with the level and the node of its own order. -/
  cache : ∀ id entry, s.cache.lookup id = some entry ↔ ∃ o ∈ live, o.id = id ∧
    ∃ detail, s.ladder.find? (toKey d o.price) = some ⟨entry.ilevel, detail⟩ ∧
      ⟨entry.iqty, o.order⟩ ∈ detail.orders
  /-- The first level has the best price. -/
  best : match s.ladder.first? with
    | none => live = []
    | some (key, _) => ∃ o ∈ live, toKey d o.price = key ∧
      ∀ o' ∈ live, AtLeastAsGood d o.price o'.price

theorem Represents.keys (h : s.Represents live) (p : PriceType) :
    (s.ladder.find? (toKey d p)).isSome ↔ ∃ o ∈ live, o.price = p := by
  rw [Option.isSome_iff_exists]
  constructor
  · rintro ⟨node, hp⟩
    obtain ⟨o, ho⟩ := List.exists_mem_of_ne_nil _ (h.queue hp).1
    exact ⟨o, mem_atPrice.mp ho⟩
  · rintro ⟨o, ho, rfl⟩
    exact h.exists_level (List.ne_nil_of_mem (mem_atPrice.mpr ⟨ho, rfl⟩))

theorem Represents.cached (h : s.Represents live) (id : String) (entry : CacheEntry) :
    s.cache.lookup id = some entry ↔ ∃ o ∈ live, o.id = id ∧
      ∃ detail, s.ladder.find? (toKey d o.price) = some ⟨entry.ilevel, detail⟩ ∧
        ⟨entry.iqty, o.order⟩ ∈ detail.orders := by
  rw [h.indexed id entry]
  constructor
  · rintro ⟨qty, hr⟩
    obtain ⟨p, detail, hLive, hp, ho⟩ := h.restsAt hr
    exact ⟨_, hLive, rfl, detail, hp, ho⟩
  · rintro ⟨o, -, rfl, detail, hp, ho⟩
    exact ⟨o.qty, toKey d o.price, detail, hp, ho⟩

theorem Represents.best (h : s.Represents live) : match s.ladder.first? with
    | none => live = []
    | some (key, _) => ∃ o ∈ live, toKey d o.price = key ∧
      ∀ o' ∈ live, AtLeastAsGood d o.price o'.price := by
  split <;> rename_i hFirst
  · refine List.eq_nil_iff_forall_not_mem.mpr fun o ho => ?_
    obtain ⟨node, hp⟩ := Option.isSome_iff_exists.mp ((h.keys o.price).mpr ⟨o, ho, rfl⟩)
    have hMem := OrdMap.find?_eq_some.mp hp
    rw [List.head?_eq_none_iff.mp hFirst] at hMem
    cases hMem
  · rename_i key node
    obtain ⟨p, rfl⟩ := toKey_surjective d key
    have hp : s.ladder.find? (toKey d p) = some node :=
      OrdMap.find?_eq_some.mpr (List.mem_of_mem_head? hFirst)
    obtain ⟨o, ho, rfl⟩ := (h.keys p).mp (by rw [hp]; rfl)
    refine ⟨o, ho, rfl, fun o' ho' => toKey_le.mp ?_⟩
    obtain ⟨node', hp'⟩ := Option.isSome_iff_exists.mp ((h.keys o'.price).mpr ⟨o', ho', rfl⟩)
    exact OrdMap.first?_le hFirst hp'

theorem Represents.mirrors (h : s.Represents live) : s.Mirrors live where
  keys := h.keys
  levels _ _ hp := ⟨(h.queue hp).2.2, (h.queue hp).2.1⟩
  aggregate := h.aggregate
  placed := h.placed
  cache := h.cached
  best := h.best

theorem Represents.addAll (h : s.Represents live) {orders : List Add}
    (hIds : (orders.map Add.orderId).Nodup)
    (hNew : ∀ a ∈ orders, ∀ o ∈ live, o.id ≠ a.orderId) :
    (s.addAll orders).Represents (live ++ orders.map Add.live) := by
  induction orders generalizing s live with
  | nil => simpa [BookSide.addAll] using h
  | cons a orders ih =>
    obtain ⟨ha, hIds⟩ := List.nodup_cons.mp hIds
    have hAdd : (s.add (toKey d a.price) a.order).Represents (live ++ [a.live]) :=
      h.add (o := a.live) (hNew a (by simp))
    rw [List.map_cons, List.append_cons]
    refine ih hAdd hIds fun b hb o ho => ?_
    rcases List.mem_append.mp ho with ho | ho
    · exact hNew b (List.mem_cons_of_mem _ hb) o ho
    · rw [List.mem_singleton.mp ho]
      have hne : a.orderId ≠ b.orderId := fun e => ha (e ▸ List.mem_map_of_mem hb)
      exact hne

theorem represents_snapshot (s : BookSide (Key d)) {orders : List Add}
    (hIds : (orders.map Add.orderId).Nodup) :
    (s.reset.addAll orders).Represents (orders.map Add.live) :=
  (represents_empty s.fresh).addAll hIds (by simp)

end BookSide

namespace OrderBook

variable {book book' : OrderBook} {live : LiveBook} {t : TickRecord}

/-- Book and reference agree. -/
structure Refines (book : OrderBook) (live : LiveBook) : Prop where
  sides : ∀ d, (book.side d).Represents (live.orders d)
  lastUpdate : book.lastUpdate = live.lastUpdate

theorem refines_empty : ({} : OrderBook).Refines {} where
  sides d := by cases d <;> exact BookSide.represents_empty 0
  lastUpdate := rfl

/-- One tick. The branches of a removal follow `remove_cases`. -/
theorem Refines.step (h : book.Refines live) (ht : live.Admits t) :
    ∃ book', book.replayTick t = some book' ∧ book'.Refines (live.step t) := by
  cases t with
  | snapshot snap =>
    refine ⟨_, rfl, fun d => ?_, ?_⟩
    · rw [side_snapshot book snap rfl d]
      refine BookSide.represents_snapshot _ ?_
      cases d
      · exact ht.1
      · exact ht.2
    · rw [lastUpdate_foldl_add, lastUpdate_foldl_add]
      simp [LiveBook.step, LiveBook.lastUpdate, reset]
  | add a =>
    refine ⟨_, rfl, fun d => ?_, ?_⟩
    · by_cases hd : d = a.side
      · subst hd
        rw [side_add_self, LiveBook.step, LiveBook.orders_update_self]
        exact (h.sides a.side).add (o := a.live) ht
      · rw [side_add_ne book a hd, LiveBook.step, LiveBook.orders_update_ne live hd]
        exact h.sides d
    · rw [lastUpdate_add, h.lastUpdate, LiveBook.step, LiveBook.lastUpdate_update]
  | remove r =>
    have hSide := h.sides r.side
    obtain ⟨book', hBook⟩ := Option.isSome_iff_exists.mp <| remove_isSome book r
      fun entry he => hSide.indexed.linked.remove_isSome hSide.placed he
    refine ⟨book', hBook, ?_⟩
    rcases remove_cases hBook with ⟨hNone, rfl⟩ | ⟨entry, s', he, hs', hSelf, hOther, hTime⟩
    · have hAbsent := hSide.lookup_none.mp hNone
      rw [LiveBook.step, if_neg (by simpa using hAbsent)]
      exact h
    · have hLive : ∃ o ∈ live.orders r.side, o.id = r.orderId := by
        by_contra hNot
        rw [hSide.lookup_none.mpr (by simpa using hNot)] at he
        cases he
      rw [LiveBook.step, if_pos hLive]
      refine ⟨fun d => ?_, ?_⟩
      · by_cases hd : d = r.side
        · subst hd
          rw [hSelf, LiveBook.orders_update_self]
          exact hSide.remove he hs'
        · rw [hOther d hd, LiveBook.orders_update_ne live hd]
          exact h.sides d
      · rw [hTime, h.lastUpdate, max_comm, LiveBook.lastUpdate_update]
  | execute e => exact ht.elim

/-- Replayed snapshots, additions and removals, in any order and from the empty book, never get
stuck, and both sides and the time of the last update are those of the reference. -/
theorem replay_mirrors_live_orders (ticks : List TickRecord)
    (hAdmits : Along (always LiveBook.step) LiveBook.Admits {} ticks) :
    ∃ book, run OrderBook.replayTick {} ticks = some book ∧
      (∀ d, (book.side d).Mirrors ((ticks.foldl LiveBook.step {}).orders d)) ∧
      book.lastUpdate = (ticks.foldl LiveBook.step {}).lastUpdate := by
  obtain ⟨book, hRun, hRefines⟩ := Along.simulate (R := Refines)
    (fun book live t _ h ht hStep => Option.some.inj hStep ▸ h.step ht) refines_empty hAdmits
    (run_always LiveBook.step {} ticks)
  exact ⟨book, hRun, fun d => (hRefines.sides d).mirrors, hRefines.lastUpdate⟩

/-- A snapshot, another bid at the same price, and the removal of the first bid. -/
def threeTicks : List TickRecord :=
  [.snapshot (.ofSides [⟨"1", 39628, 1 / 400, 1, .buy⟩] [⟨"2", 39630, 1 / 400, 2, .sell⟩]),
    .add ⟨"3", 39628, 1, 3, .buy⟩, .remove ⟨"1", 4, .buy⟩]

theorem threeTicks_mirrors : ∃ book, run OrderBook.replayTick {} threeTicks = some book ∧
    (∀ d, (book.side d).Mirrors ((threeTicks.foldl LiveBook.step {}).orders d)) ∧
    book.lastUpdate = (threeTicks.foldl LiveBook.step {}).lastUpdate :=
  replay_mirrors_live_orders threeTicks (by decide +kernel)

end OrderBook

end Arby.PowerTrade
