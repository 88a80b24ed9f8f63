import Arby.Kit.Nodes
import Arby.PowerTrade.TickRecord
import Mathlib.Data.Finmap

/-! The order book: on each side a ladder of price levels, a cache from order ids to positions in
the ladder, and the aggregate quantity. `BookSide` holds the three members of one side, over the
key type of its ladder: `PriceType` for the offers, whose ladder starts at the lowest price, and
`PriceTypeᵒᵈ` for the bids, whose ladder starts at the highest.

The iterators that a cache entry holds are addresses of nodes. A function that dereferences an
iterator, or reads a reference, whose node is gone returns `none`: its behaviour is undefined. -/

namespace Arby.PowerTrade

open Trading Kit

/-- `order_qty`. -/
structure OrderQty where
  orderid : String
  qty : QtyType
deriving DecidableEq, Repr

/-- `level_data`: the queue of the orders at one price. -/
structure LevelData where
  aggregateDepth : QtyType := 0
  orders : List (Node OrderQty) := []
deriving DecidableEq, Repr

/-- A cache entry: the iterator to the level and the iterator to the order in its queue. -/
structure CacheEntry where
  ilevel : ℕ
  iqty : ℕ
deriving DecidableEq, Repr

abbrev Ladder (κ : Type) [LinearOrder κ] := OrdMap κ (Node LevelData)

abbrev OrderCache := Finmap fun _ : String => CacheEntry

/-- One side of the book. `fresh` is the address of the next node that the side allocates. -/
structure BookSide (κ : Type) [LinearOrder κ] where
  ladder : Ladder κ := ∅
  cache : OrderCache := ∅
  aggregate : QtyType := 0
  fresh : ℕ := 0

namespace BookSide

variable {κ : Type} [LinearOrder κ]

/-- `find` in the ladder and, at its end, `emplace` of an empty level: the level of `price`. -/
def level (s : BookSide κ) (price : κ) : BookSide κ × ℕ :=
  match s.ladder.find? price with
  | some node => (s, node.addr)
  | none =>
    ({ s with ladder := s.ladder.insert price ⟨s.fresh, {}⟩, fresh := s.fresh + 1 }, s.fresh)

/-- The order at the end of the queue of level `ilevel`, and its cache entry. -/
def append (s : BookSide κ) (ilevel : ℕ) (order : OrderQty) : BookSide κ where
  ladder := s.ladder.modifyNode ilevel fun detail =>
    { aggregateDepth := detail.aggregateDepth + order.qty
      orders := detail.orders ++ [⟨s.fresh, order⟩] }
  cache := s.cache.insert order.orderid ⟨ilevel, s.fresh⟩
  aggregate := s.aggregate + order.qty
  fresh := s.fresh + 1

/-- The branch of `order_book::add` for one side. -/
def add (s : BookSide κ) (price : κ) (order : OrderQty) : BookSide κ :=
  (s.level price).1.append (s.level price).2 order

/-- The level and the order that a cache entry refers to. -/
def deref (s : BookSide κ) (entry : CacheEntry) : Option (LevelData × OrderQty) := do
  let detail ← s.ladder.deref entry.ilevel
  let order ← Kit.deref detail.orders entry.iqty
  return (detail, order)

/-- `detail.orders.erase(iqty)` and, when the queue is empty then, the erasure of the level. -/
def eraseOrder (s : BookSide κ) (entry : CacheEntry) (detail : LevelData) : BookSide κ :=
  let orders := eraseNode detail.orders entry.iqty
  { s with
    ladder :=
      if orders = [] then s.ladder.eraseNode entry.ilevel
      else s.ladder.modifyNode entry.ilevel fun _ => { detail with orders } }

/-- The branch of `order_book::remove` for one side, from the cache entry that it found. -/
def remove (s : BookSide κ) (orderId : String) (entry : CacheEntry) : Option (BookSide κ) := do
  let (detail, order) ← s.deref entry
  let s' := s.eraseOrder entry { detail with aggregateDepth := detail.aggregateDepth - order.qty }
  return { s' with aggregate := s.aggregate - order.qty, cache := s.cache.erase orderId }

/-- The assertions of that branch: the depth of the level and the aggregate of the side are not
negative after the subtraction. -/
def removeAsserts (s : BookSide κ) (entry : CacheEntry) : Bool :=
  match s.deref entry with
  | some (detail, order) =>
    decide (0 ≤ detail.aggregateDepth - order.qty) && decide (0 ≤ s.aggregate - order.qty)
  | none => false

/-- What both branches of `order_book::execute` do to the ladder and the cache of their side. In
`iqty->qty -= tick.qty == 0` the comparison binds tighter than the assignment, so the quantity of
the order loses 1 when the tick's quantity is 0 and nothing otherwise, and the order is erased when
the result is not 0. The erasure of the cache entry destroys the tuple that `ilevel` refers to, and
the erasure of an empty level then reads it. -/
def execute (s : BookSide κ) (orderId : String) (entry : CacheEntry) (qty : QtyType) :
    Option (BookSide κ) := do
  let (detail, order) ← s.deref entry
  let left := order.qty - if qty = 0 then 1 else 0
  if left ≠ 0 then
    let orders := eraseNode detail.orders entry.iqty
    if orders = [] then
      none
    else
      return { s with
        ladder := s.ladder.modifyNode entry.ilevel fun _ => { detail with orders }
        cache := s.cache.erase orderId }
  else
    let orders := modifyNode detail.orders entry.iqty fun order => { order with qty := left }
    return { s with ladder := s.ladder.modifyNode entry.ilevel fun _ => { detail with orders } }

/-- `clear` of the ladder and the cache, and an aggregate of 0. -/
def reset (s : BookSide κ) : BookSide κ := { fresh := s.fresh }

/-- A copied ladder has nodes of its own, with addresses from `base` on. -/
def copyLadder (base : ℕ) (ladder : Ladder κ) : Ladder κ :=
  ladder.mapVal fun node =>
    ⟨base + node.addr, { node.val with
      orders := node.val.orders.map fun order => ⟨base + order.addr, order.val⟩ }⟩

/-- `emplace` in the cache: an id that has an entry keeps it. -/
def emplace (cache : OrderCache) (orderId : String) (entry : CacheEntry) : OrderCache :=
  match cache.lookup orderId with
  | some _ => cache
  | none => cache.insert orderId entry

/-- The position of every order of a ladder, in the order of iteration. -/
def positions (ladder : Ladder κ) : List (String × CacheEntry) :=
  ladder.values.flatMap fun level =>
    level.val.orders.map fun order => (order.val.orderid, ⟨level.addr, order.addr⟩)

/-- The loops of `order_book::operator=` that rebuild the index of one side. The cache is not
cleared before, and `emplace` keeps what it finds there. -/
def reindex (cache : OrderCache) (ladder : Ladder κ) : OrderCache :=
  (positions ladder).foldl (fun cache p => emplace cache p.1 p.2) cache

/-- One side of `order_book::operator=`. -/
def assign (s r : BookSide κ) : BookSide κ where
  ladder := copyLadder s.fresh r.ladder
  cache := reindex s.cache (copyLadder s.fresh r.ladder)
  aggregate := r.aggregate
  fresh := s.fresh + r.fresh

/-- What `operator==` compares on one side: the prices with the depths and orders of their levels,
and the aggregate. -/
def content (s : BookSide κ) : List (κ × QtyType × List OrderQty) × QtyType :=
  (s.ladder.entries.map fun e =>
    (e.1, e.2.val.aggregateDepth, e.2.val.orders.map Node.val), s.aggregate)

/-- An order with id `orderId` rests on the side. -/
def rests (s : BookSide κ) (orderId : String) : Bool :=
  s.ladder.values.any fun level => level.val.orders.any fun order => order.val.orderid = orderId

/-- The cache has an entry for `orderId` that refers to a node which is gone. -/
def stale (s : BookSide κ) (orderId : String) : Bool :=
  match s.cache.lookup orderId with
  | some entry => (s.deref entry).isNone
  | none => false

end BookSide

/-- `order_book`. -/
structure OrderBook where
  lastUpdate : TimestampType := 0
  offers : BookSide PriceType := {}
  bids : BookSide PriceTypeᵒᵈ := {}

namespace OrderBook

def add (book : OrderBook) (r : Add) : OrderBook :=
  let lastUpdate := max book.lastUpdate r.timestamp
  let order : OrderQty := { orderid := r.orderId, qty := r.qty }
  match r.side with
  | .buy => { book with lastUpdate, bids := book.bids.add (OrderDual.toDual r.price) order }
  | .sell => { book with lastUpdate, offers := book.offers.add r.price order }

/-- `order_book::remove`. An id that is not in the cache changes nothing. -/
def remove (book : OrderBook) (tick : Remove) : Option OrderBook :=
  let lastUpdate := max tick.timestamp book.lastUpdate
  match tick.side with
  | .buy =>
    match book.bids.cache.lookup tick.orderId with
    | none => some book
    | some entry => do
      let bids ← book.bids.remove tick.orderId entry
      return { book with bids, lastUpdate }
  | .sell =>
    match book.offers.cache.lookup tick.orderId with
    | none => some book
    | some entry => do
      let offers ← book.offers.remove tick.orderId entry
      return { book with offers, lastUpdate }

/-- The assertions that `order_book::remove` evaluates on the way hold. -/
def removeAsserts (book : OrderBook) (tick : Remove) : Bool :=
  match tick.side with
  | .buy => (book.bids.cache.lookup tick.orderId).elim true book.bids.removeAsserts
  | .sell => (book.offers.cache.lookup tick.orderId).elim true book.offers.removeAsserts

/-- `order_book::execute`. Both branches subtract the quantity from `aggregate_bids_`. -/
def execute (book : OrderBook) (tick : Execute) : Option OrderBook :=
  let lastUpdate := max tick.timestamp book.lastUpdate
  match tick.side with
  | .buy =>
    match book.bids.cache.lookup tick.orderId with
    | none => some book
    | some entry => do
      let bids ← book.bids.execute tick.orderId entry tick.qty
      return { book with
        bids := { bids with aggregate := bids.aggregate - tick.qty }, lastUpdate }
  | .sell =>
    match book.offers.cache.lookup tick.orderId with
    | none => some book
    | some entry => do
      let offers ← book.offers.execute tick.orderId entry tick.qty
      return { book with
        offers, bids := { book.bids with aggregate := book.bids.aggregate - tick.qty }, lastUpdate }

def reset (book : OrderBook) : OrderBook where
  lastUpdate := timePointMin
  offers := book.offers.reset
  bids := book.bids.reset

/-- `order_book::operator=`. -/
def assign (book r : OrderBook) : OrderBook where
  lastUpdate := r.lastUpdate
  offers := book.offers.assign r.offers
  bids := book.bids.assign r.bids

/-- `operator==`: the caches are not compared. -/
def same (l r : OrderBook) : Prop :=
  l.lastUpdate = r.lastUpdate ∧ l.bids.content = r.bids.content ∧
    l.offers.content = r.offers.content

instance (l r : OrderBook) : Decidable (l.same r) := by dsimp only [same]; infer_instance

/-- `orderbook_snapshot_service::replay_tick`. -/
def replayTick (book : OrderBook) : TickRecord → Option OrderBook
  | .snapshot snap => some (snap.offers.foldl add (snap.bids.foldl add book.reset))
  | .add a => some (book.add a)
  | .remove r => book.remove r
  | .execute e => book.execute e

end OrderBook

end Arby.PowerTrade
