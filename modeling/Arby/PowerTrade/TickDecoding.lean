import Arby.PowerTrade.OrderbookListenerImpl

/-! The decoding of a tick from the payload of a message. The text of a price or of a quantity is
read by the constructor of the number type, `number`, that of a side by `wise_enum::from_string`,
`fromString`, and that of a timestamp by `atol`, which takes what number the text begins with. -/

namespace Arby.PowerTrade

open Trading Kit

inductive TickCode
  | snapshot
  | add
  | remove
  | execute
deriving DecidableEq, Repr

/-! ### Texts -/

/-- The text has no NUL character. -/
def plain (s : String) : Bool := s.toList.all (· ≠ Char.ofNat 0)

/-- `c_str`, as far as a function reads it that takes a NUL for the end. -/
def cStr (s : String) : String := String.ofList (s.toList.takeWhile (· ≠ Char.ofNat 0))

def isSpace (c : Char) : Bool := c = ' ' || (9 ≤ c.toNat && c.toNat ≤ 13)

/-- What `atol` makes of a text: the sign, the digits after it, and what it leaves. -/
structure LongText where
  negative : Bool
  digits : List Char
  rest : List Char

namespace LongText

def scan (s : String) : LongText :=
  let signed : Bool × List Char :=
    match s.toList.dropWhile isSpace with
    | '-' :: cs => (true, cs)
    | '+' :: cs => (false, cs)
    | cs => (false, cs)
  { negative := signed.1
    digits := signed.2.takeWhile Char.isDigit
    rest := signed.2.dropWhile Char.isDigit }

def value (t : LongText) : ℤ :=
  let n : ℕ := t.digits.foldl (fun n c => 10 * n + (c.toNat - 48)) 0
  if t.negative then -n else n

/-- The value is one of `long`. -/
def fits (t : LongText) : Bool := -2 ^ 63 ≤ t.value && t.value < 2 ^ 63

/-- The text is a number from its first to its last character, but for spaces before it. -/
def whole (t : LongText) : Bool := !t.digits.isEmpty && t.rest.isEmpty

end LongText

/-- A text without a number has the value 0, and a value that is none of `long` is undefined. -/
def atol (s : String) : Outcome ℤ :=
  let t := LongText.scan s
  if t.fits then .ok t.value else .undefined

/-! ### The decoders -/

section Decoders

variable (number : String → Option ℚ) (fromString : String → Option SideType)

def toPrice (v : Json) : Outcome PriceType := do
  let s ← v.asString
  (number (cStr s)).elim .throws .ok

def toQty (v : Json) : Outcome QtyType := do
  let s ← v.asString
  (number (cStr s)).elim .throws .ok

/-- The optional is dereferenced, empty or not. -/
def toSide (v : Json) : Outcome SideType := do
  let s ← v.asString
  (fromString s).elim .undefined .ok

def toTimestamp (v : Json) : Outcome TimestampType := do
  let s ← v.asString
  atol (cStr s)

/-- An element of the arrays of a snapshot. -/
def snapshotAdd (side : SideType) (e : Json) : Outcome Add := do
  let oe ← e.asObject
  let orderId ← oe.fieldAt "orderid" >>= Json.asString
  let price ← oe.fieldAt "price" >>= toPrice number
  let qty ← oe.fieldAt "quantity" >>= toQty number
  let timestamp ← oe.fieldAt "utc_timestamp" >>= toTimestamp
  return { orderId, price, qty, timestamp, side }

def makeSnapshot (p : JsonObject) : Outcome Snapshot := do
  let buy ← p.fieldAt "buy" >>= Json.asArray
  let bids ← buy.mapM (snapshotAdd number .buy)
  let sell ← p.fieldAt "sell" >>= Json.asArray
  let offers ← sell.mapM (snapshotAdd number .sell)
  return .ofSides bids offers

def construct2 (code : TickCode) (p : JsonObject) : Outcome TickRecord :=
  match code with
  | .add => do
    let orderId ← p.fieldAt "order_id" >>= Json.asString
    let price ← p.fieldAt "price" >>= toPrice number
    let qty ← p.fieldAt "quantity" >>= toQty number
    let timestamp ← p.fieldAt "utc_timestamp" >>= toTimestamp
    let side ← p.fieldAt "side" >>= toSide fromString
    return .add { orderId, price, qty, timestamp, side }
  | .remove => do
    let orderId ← p.fieldAt "order_id" >>= Json.asString
    let timestamp ← p.fieldAt "utc_timestamp" >>= toTimestamp
    let side ← p.fieldAt "side" >>= toSide fromString
    return .remove { orderId, timestamp, side }
  | .execute => do
    let orderId ← p.fieldAt "order_id" >>= Json.asString
    let price ← p.fieldAt "price" >>= toPrice number
    let qty ← p.fieldAt "quantity" >>= toQty number
    let timestamp ← p.fieldAt "utc_timestamp" >>= toTimestamp
    let side ← p.fieldAt "side" >>= toSide fromString
    return .execute { orderId, price, qty, timestamp, side }
  | .snapshot => do
    let s ← makeSnapshot number p
    return .snapshot s

/-- `_handle_tick` with the call of `on_tick` that it dispatches, at time `now`. An exception of the
constructor is caught before anything is dispatched. -/
def OrderbookListenerImpl.handleTick (l : OrderbookListenerImpl) (code : TickCode) (p : JsonObject)
    (now : TimestampType) : Outcome OrderbookListenerImpl :=
  match construct2 number fromString code p with
  | .ok tick => (l.onTick tick now).elim .undefined .ok
  | .throws => .ok l
  | .undefined => .undefined

end Decoders

end Arby.PowerTrade
