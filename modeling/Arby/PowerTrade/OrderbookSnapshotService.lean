import Arby.Kit.Run
import Arby.PowerTrade.OrderBook
import Arby.PowerTrade.TickHistory
import Arby.Trading.FeedCondition

/-! The snapshot service. It maintains the order book and answers every tick with a snapshot of it,
for which it brings an object that was given back up to date when it can. -/

namespace Arby.PowerTrade

open Trading Kit

/-- `orderbook_snapshot`, with the fields of `feed_snapshot`. `object` is the identity of the
object. The list of parents is left out: nothing fills it. -/
structure OrderbookSnapshot where
  object : ℕ
  condition : FeedCondition := {}
  source : String := ""
  timestamp : TimestampType
  upstreamTime : TimestampType
  generation : ℕ := 0
  sequence : ℕ := 0
  book : OrderBook := {}

/-- `orderbook_snapshot_service`. The back of the vector `free_snaps_` is the head of `freeSnaps`;
`made` objects have been constructed so far, and their number is the identity of the next. -/
structure OrderbookSnapshotService where
  tickHistory : TickHistory := {}
  currentGeneration : ℕ := 0
  orderBook : OrderBook := {}
  freeSnaps : List OrderbookSnapshot := []
  made : ℕ := 0

namespace OrderbookSnapshotService

/-- `allocate_snapshot`. The time of construction is `now`. -/
def allocateSnapshot (svc : OrderbookSnapshotService) (now : TimestampType) :
    OrderbookSnapshotService × OrderbookSnapshot :=
  match svc.freeSnaps with
  | [] =>
    ({ svc with made := svc.made + 1 },
      { object := svc.made, timestamp := now, upstreamTime := now })
  | result :: rest => ({ svc with freeSnaps := rest }, result)

def deallocateSnapshot (svc : OrderbookSnapshotService) (snap : OrderbookSnapshot) :
    OrderbookSnapshotService :=
  { svc with freeSnaps := snap :: svc.freeSnaps }

/-- The first part of `process_tick`: a snapshot tick starts a new generation, and the tick goes to
the history and to the order book. -/
def beginTick (svc : OrderbookSnapshotService) (tick : TickRecord) :
    Option OrderbookSnapshotService := do
  let svc :=
    if tick.isSnapshot then
      { svc with
        tickHistory := svc.tickHistory.reset
        currentGeneration := svc.currentGeneration + 1 }
    else svc
  let svc := { svc with tickHistory := svc.tickHistory.addTick tick }
  let orderBook ← svc.orderBook.replayTick tick
  return { svc with orderBook }

/-- The branch of `process_tick` that replays the history onto the snapshot. -/
def catchesUp (svc : OrderbookSnapshotService) (snap : OrderbookSnapshot) : Bool :=
  decide (snap.generation = svc.currentGeneration) &&
    (svc.tickHistory.history.find? snap.sequence).isSome

/-- The ticks which that branch replays. -/
def replayed (svc : OrderbookSnapshotService) (snap : OrderbookSnapshot) : List TickRecord :=
  svc.tickHistory.history.after snap.sequence

/-- The second part of `process_tick`: the book of the allocated snapshot is caught up, or it is
copied from the order book. -/
def bringUp (svc : OrderbookSnapshotService) (snap : OrderbookSnapshot) :
    Option (OrderbookSnapshotService × OrderBook) :=
  if svc.catchesUp snap then do
    let book ← run OrderBook.replayTick snap.book (svc.replayed snap)
    return ({ svc with tickHistory := svc.tickHistory.removeWatermark snap.sequence }, book)
  else
    some (svc, snap.book.assign svc.orderBook)

/-- The last part of `process_tick`: the snapshot is stamped, and its sequence number becomes a
watermark. -/
def stamp (svc : OrderbookSnapshotService) (snap : OrderbookSnapshot) (book : OrderBook)
    (now : TimestampType) : OrderbookSnapshotService × OrderbookSnapshot :=
  let sequence := svc.tickHistory.highestSequence
  ({ svc with tickHistory := svc.tickHistory.addWatermark sequence },
    { snap with
      book
      generation := svc.currentGeneration
      sequence
      timestamp := now
      upstreamTime := svc.orderBook.lastUpdate })

/-- `process_tick`, at time `now`. -/
def processTick (svc : OrderbookSnapshotService) (tick : TickRecord) (now : TimestampType) :
    Option (OrderbookSnapshotService × OrderbookSnapshot) := do
  let svc ← svc.beginTick tick
  let (svc, newSnap) := svc.allocateSnapshot now
  let (svc, book) ← svc.bringUp newSnap
  return svc.stamp newSnap book now

end OrderbookSnapshotService

end Arby.PowerTrade
