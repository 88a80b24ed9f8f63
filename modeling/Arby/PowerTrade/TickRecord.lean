import Arby.Trading.Types

/-! Tick records: the changes to an order book that the exchange sends, and the snapshot that
starts one afresh. -/

namespace Arby.PowerTrade

open Trading

/-- `tick_record::add`: an order starts to rest. -/
structure Add where
  orderId : String
  price : PriceType
  qty : QtyType
  timestamp : TimestampType
  side : SideType
deriving DecidableEq, Repr

/-- `tick_record::remove`: an order is cancelled. -/
structure Remove where
  orderId : String
  timestamp : TimestampType
  side : SideType
deriving DecidableEq, Repr

/-- `tick_record::execute`: an order trades `qty`. -/
structure Execute where
  orderId : String
  price : PriceType
  qty : QtyType
  timestamp : TimestampType
  side : SideType
deriving DecidableEq, Repr

/-- `tick_record::snapshot`: the orders of both sides. `make_snapshot` gives every entry of the
array `"buy"` the side `buy` and every entry of `"sell"` the side `sell`. -/
structure Snapshot where
  bids : List Add
  offers : List Add
  bids_buy : ∀ a ∈ bids, a.side = .buy := by decide
  offers_sell : ∀ a ∈ offers, a.side = .sell := by decide
deriving DecidableEq

/-- The snapshot of `bids` and `offers`: the list gives an order its side. -/
def Snapshot.ofSides (bids offers : List Add) : Snapshot where
  bids := bids.map fun a => { a with side := .buy }
  offers := offers.map fun a => { a with side := .sell }
  bids_buy := by simp
  offers_sell := by simp

/-- The variant that a `tick_record` holds. -/
inductive TickRecord
  | add (a : Add)
  | remove (r : Remove)
  | execute (e : Execute)
  | snapshot (s : Snapshot)
deriving DecidableEq

/-- `holds_alternative<tick_record::snapshot>`. -/
def TickRecord.isSnapshot : TickRecord → Bool
  | .snapshot _ => true
  | _ => false

/-- `holds_alternative<tick_record::execute>`. -/
def TickRecord.isExecute : TickRecord → Bool
  | .execute _ => true
  | _ => false

end Arby.PowerTrade
