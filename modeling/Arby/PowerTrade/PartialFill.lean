import Arby.PowerTrade.BookInvariants
import Mathlib.Algebra.Order.BigOperators.Group.List

/-! What executions should do to the order that they name, its level and its side, and what they do:
whatever is executed, the depth of a level stays. -/

namespace Arby.PowerTrade

open Trading Kit

namespace BookSide

/-- Executions of `e` in all took their quantity from `order`, which rested in the node of `entry` in
the level `detail` of `price`, and from the totals above it. -/
structure Filled {κ : Type} [LinearOrder κ] (s s' : BookSide κ) (price : κ) (entry : CacheEntry)
    (detail : LevelData) (order : OrderQty) (e : QtyType) : Prop where
  part : e < order.qty →
    s'.ladder.find? price = some ⟨entry.ilevel,
      { aggregateDepth := detail.aggregateDepth - e
        orders := modifyNode detail.orders entry.iqty fun o => { o with qty := order.qty - e } }⟩ ∧
    s'.cache = s.cache
  whole : e = order.qty →
    s'.ladder.find? price =
      (if eraseNode detail.orders entry.iqty = [] then none
      else some ⟨entry.ilevel,
        { aggregateDepth := detail.aggregateDepth - e
          orders := eraseNode detail.orders entry.iqty }⟩) ∧
    s'.cache = s.cache.erase order.orderid
  others : ∀ p, p ≠ price → s'.ladder.find? p = s.ladder.find? p
  aggregate : s'.aggregate = s.aggregate - e

variable {d : SideType} {s s' : BookSide (Key d)} {price : Key d} {entry : CacheEntry}
  {detail : LevelData} {order : OrderQty} {e : QtyType}

theorem modifyNode_same (h : s.Placed)
    (hLevel : s.ladder.find? price = some ⟨entry.ilevel, detail⟩)
    (hOrder : ⟨entry.iqty, order⟩ ∈ detail.orders) :
    modifyNode detail.orders entry.iqty (fun o => { o with qty := order.qty }) = detail.orders := by
  have hDistinct : Distinct detail.orders := h.orders price _ hLevel
  rw [modifyNode]
  conv_rhs => rw [← List.map_id detail.orders]
  apply List.map_congr_left
  intro node hNode
  by_cases hAddr : node.addr = entry.iqty
  · obtain rfl := hDistinct.unique hNode hOrder hAddr
    rw [Node.modify_self]
    rfl
  · rw [Node.modify_ne hAddr]
    rfl

/-- With nothing executed an order of some quantity rests on as it was. -/
theorem filled_zero (h : s.Placed) (hLevel : s.ladder.find? price = some ⟨entry.ilevel, detail⟩)
    (hOrder : ⟨entry.iqty, order⟩ ∈ detail.orders) (hQty : order.qty ≠ 0) :
    s.Filled s price entry detail order 0 where
  part _ := by
    rw [sub_zero, sub_zero, modifyNode_same h hLevel hOrder]
    exact ⟨hLevel, rfl⟩
  whole hZero := absurd hZero.symm hQty
  others _ _ := rfl
  aggregate := (sub_zero _).symm

/-- An execution that returns leaves every level in the ladder, with its depth. -/
theorem Placed.depth_execute (h : s.Placed) {id : String} {qty : QtyType}
    (hExecute : s.execute id entry qty = some s') {node : Node LevelData}
    (hNode : s.ladder.find? price = some node) :
    ∃ node', s'.ladder.find? price = some node' ∧
      node'.val.aggregateDepth = node.val.aggregateDepth := by
  obtain ⟨detail, order, hDeref, hCases⟩ := execute_eq_some.mp hExecute
  obtain ⟨p, hLevel, -⟩ := h.deref.mp hDeref
  rcases hCases with ⟨-, hNonempty, rfl⟩ | ⟨-, rfl⟩
  · by_cases hp : price = p
    · subst hp
      obtain rfl := Option.some.inj (hLevel.symm.trans hNode)
      have hFind := find?_eraseOrder_self (c := detail) hLevel
      rw [if_neg hNonempty] at hFind
      exact ⟨_, hFind, rfl⟩
    · exact ⟨node, (h.find?_eraseOrder_ne hLevel hp).trans hNode, rfl⟩
  · by_cases hp : price = p
    · subst hp
      obtain rfl := Option.some.inj (hLevel.symm.trans hNode)
      exact ⟨_, OrdMap.AddrInj.find?_modifyNode_self hLevel _, rfl⟩
    · exact ⟨node, (h.levels.find?_modifyNode_ne hLevel hp _).trans hNode, rfl⟩

/-- A level with the depth that it had has not lost what was executed. -/
theorem not_filled {node : Node LevelData}
    (hPos : 0 < e) (hLe : e ≤ order.qty) (hNode : s'.ladder.find? price = some node)
    (hDepth : node.val.aggregateDepth = detail.aggregateDepth) :
    ¬ s.Filled s' price entry detail order e := by
  intro h
  have hLost : detail.aggregateDepth ≠ detail.aggregateDepth - e := by
    intro hSame
    exact hPos.ne' (sub_eq_self.mp hSame.symm)
  apply hLost
  rcases hLe.lt_or_eq with hLt | hEq
  · have hLevel := (h.part hLt).1
    rw [hNode, Option.some.injEq] at hLevel
    rw [hLevel] at hDepth
    exact hDepth.symm
  · have hLevel := (h.whole hEq).1
    rw [hNode] at hLevel
    split at hLevel
    · cases hLevel
    · rw [Option.some.injEq] at hLevel
      rw [hLevel] at hDepth
      exact hDepth.symm

end BookSide

namespace OrderBook

variable {book book' : OrderBook} {d : SideType} {price : Key d} {node : Node LevelData}

theorem Placed.depth_execute (h : book.Placed) {x : Execute} (hExecute : book.execute x = some book')
    (hNode : (book.side d).ladder.find? price = some node) :
    ∃ node', (book'.side d).ladder.find? price = some node' ∧
      node'.val.aggregateDepth = node.val.aggregateDepth := by
  rcases execute_cases hExecute with ⟨-, rfl⟩ | ⟨entry, s', -, hSide, hSelf, hOther, -⟩
  · exact ⟨node, hNode, rfl⟩
  · by_cases hd : d = x.side
    · subst hd
      rw [hSelf]
      exact (h x.side).depth_execute hSide hNode
    · rw [hOther d hd]
      exact ⟨node, hNode, rfl⟩

theorem Placed.depth_executes (h : book.Placed) {xs : List Execute}
    (hRun : run OrderBook.replayTick book (xs.map .execute) = some book')
    (hNode : (book.side d).ladder.find? price = some node) :
    ∃ node', (book'.side d).ladder.find? price = some node' ∧
      node'.val.aggregateDepth = node.val.aggregateDepth := by
  induction xs generalizing book node with
  | nil => exact ⟨node, Option.some.inj hRun ▸ hNode, rfl⟩
  | cons x xs ih =>
    obtain ⟨book₁, hExecute, hRest⟩ := Option.bind_eq_some_iff.mp hRun
    obtain ⟨node₁, hNode₁, hDepth₁⟩ := h.depth_execute hExecute hNode
    obtain ⟨node', hNode', hDepth'⟩ := ih (h.replayTick hExecute) hRest hNode₁
    exact ⟨node', hNode', hDepth'.trans hDepth₁⟩

theorem total_pos {x : Execute} {xs : List Execute} (hPos : ∀ y ∈ x :: xs, 0 < y.qty) :
    0 < ((x :: xs).map Execute.qty).sum := by
  rw [List.map_cons, List.sum_cons]
  have hHead := hPos x (by simp)
  have hTail : 0 ≤ (xs.map Execute.qty).sum := by
    apply List.sum_nonneg
    intro q hq
    obtain ⟨y, hy, rfl⟩ := List.mem_map.mp hq
    exact (hPos y (List.mem_cons_of_mem _ hy)).le
  exact add_pos_of_pos_of_nonneg hHead hTail

/-- The executions of one order do to its side what they should, and nothing to the other. -/
def FilledBy (book : OrderBook) (xs : List Execute) (d : SideType) (price : Key d)
    (entry : CacheEntry) (detail : LevelData) (order : OrderQty) : Prop :=
  ∃ book', run OrderBook.replayTick book (xs.map .execute) = some book' ∧
    (book.side d).Filled (book'.side d) price entry detail order (xs.map Execute.qty).sum ∧
    ∀ d', d' ≠ d → book'.side d' = book.side d'

/-- Over the books that are reached with no addition of an id that rests, the executions of a resting order do
what they should exactly when there are none of them and the order has a quantity. -/
theorem filledBy_iff {ticks : List TickRecord}
    (hFresh : Along OrderBook.replayTick FreshIds {} ticks)
    (hRun : run OrderBook.replayTick {} ticks = some book) {entry : CacheEntry} {detail : LevelData}
    {order : OrderQty} (hLevel : (book.side d).ladder.find? price = some ⟨entry.ilevel, detail⟩)
    (hOrder : ⟨entry.iqty, order⟩ ∈ detail.orders) {xs : List Execute}
    (hExecutes : ∀ x ∈ xs, x.side = d ∧ x.orderId = order.orderid ∧ 0 < x.qty)
    (hTotal : (xs.map Execute.qty).sum ≤ order.qty) :
    book.FilledBy xs d price entry detail order ↔ xs = [] ∧ order.qty ≠ 0 := by
  obtain ⟨hPlaced, hIndexed⟩ := replay_placed_indexed hFresh hRun
  constructor
  · rintro ⟨book', hExecute, hFilled, -⟩
    cases xs with
    | nil =>
      refine ⟨rfl, fun hZero => ?_⟩
      obtain rfl := Option.some.inj hExecute
      have hCached := (hIndexed d order.orderid entry).mpr ⟨order.qty, price, detail, hLevel, hOrder⟩
      rw [(hFilled.whole hZero.symm).2, Finmap.lookup_erase] at hCached
      cases hCached
    | cons x xs =>
      exfalso
      obtain ⟨node, hNode, hDepth⟩ := hPlaced.depth_executes hExecute hLevel
      refine BookSide.not_filled (total_pos (fun y hy => (hExecutes y hy).2.2)) hTotal hNode hDepth
        hFilled
  · rintro ⟨rfl, hQty⟩
    exact ⟨book, rfl, BookSide.filled_zero (hPlaced d) hLevel hOrder hQty, fun _ _ => rfl⟩

/-- An offer of 3, and one of 2 behind it at the same price. -/
def twoOffers : List TickRecord :=
  [.add ⟨"1", 100, 3, 1, .sell⟩, .add ⟨"2", 100, 2, 2, .sell⟩]

/-- The level of the two offers, whose node has address 0. -/
def twoOffersLevel : LevelData where
  aggregateDepth := 5
  orders := [⟨1, { orderid := "1", qty := 3 }⟩, ⟨2, { orderid := "2", qty := 2 }⟩]

def firstOfferFilled : List Execute := [⟨"1", 100, 1, 3, .sell⟩]

theorem level_twoOffers : (run OrderBook.replayTick {} twoOffers).bind (fun book =>
    (book.side .sell).ladder.find? (toKey .sell 100)) = some ⟨0, twoOffersLevel⟩ := by
  decide +kernel

theorem twoOffers_filledBy : ∃ book, run OrderBook.replayTick {} twoOffers = some book ∧
    (book.FilledBy firstOfferFilled .sell (toKey .sell 100) ⟨0, 1⟩ twoOffersLevel ⟨"1", 3⟩ ↔
      firstOfferFilled = [] ∧ (3 : QtyType) ≠ 0) := by
  obtain ⟨book, hRun, hLevel⟩ := Option.bind_eq_some_iff.mp level_twoOffers
  exact ⟨book, hRun, filledBy_iff (by decide +kernel) hRun hLevel (by decide +kernel)
    (by decide +kernel) (by decide +kernel)⟩

/-- Of the first offer 1 is executed: it should rest on with 2, in a level of 4. -/
theorem twoOffers_not_filledBy : Along OrderBook.replayTick FreshIds {} twoOffers ∧
    ∃ book, run OrderBook.replayTick {} twoOffers = some book ∧
      (book.side .sell).ladder.find? (toKey .sell 100) = some ⟨0, twoOffersLevel⟩ ∧
      ¬ book.FilledBy firstOfferFilled .sell (toKey .sell 100) ⟨0, 1⟩ twoOffersLevel ⟨"1", 3⟩ := by
  refine ⟨by decide +kernel, ?_⟩
  obtain ⟨book, hRun, hLevel⟩ := Option.bind_eq_some_iff.mp level_twoOffers
  refine ⟨book, hRun, hLevel, ?_⟩
  rintro ⟨book', hExecute, hFilled, -⟩
  have hAll : run OrderBook.replayTick {} (twoOffers ++ firstOfferFilled.map .execute) =
      some book' := by
    rw [run_append, hRun]
    exact hExecute
  have hDepth : (run OrderBook.replayTick {} (twoOffers ++ firstOfferFilled.map .execute)).bind
      (fun book => ((book.side .sell).ladder.find? (toKey .sell 100)).map
        fun node => node.val.aggregateDepth) = some 5 := by
    decide +kernel
  rw [hAll, Option.bind_some, (hFilled.part (by decide +kernel)).1] at hDepth
  exact absurd hDepth (by decide +kernel)

end OrderBook

end Arby.PowerTrade
