import Arby.Kit.Json
import Arby.PowerTrade.ConnectionState
import Arby.PowerTrade.OrderbookSnapshotService
import Arby.Trading.MarketKey

/-! The listener of one market. It merges the condition of the connection and that of the book into
the snapshots of the book that it sends to its subscribers. -/

namespace Arby.PowerTrade

open Trading Kit

def nativeSymbol : MarketKey → String
  | .spot key => (key.base ++ "-" ++ key.term).toUpper

/-- `orderbook_listener_impl`, without its executor, the connector and the connections to it. The
pointer `snapshot_` is the object that it points to. -/
structure OrderbookListenerImpl where
  symbol : MarketKey
  connstate : ConnectionState := {}
  snapshotService : OrderbookSnapshotService := {}
  snapshot : OrderbookSnapshot
  connectionCondition : FeedCondition
  bookCondition : FeedCondition

namespace OrderbookListenerImpl

def buildSubscribeId (symbol : MarketKey) : String := "order_book:" ++ symbol.toString

def buildSourceId (symbol : MarketKey) : String :=
  "orderbook_listener_impl[" ++ symbol.toString ++ "]"

/-- The constructor, at time `now`. The snapshot that it makes is object 0, the only one that the
service does not make. -/
def construct (symbol : MarketKey) (now : TimestampType) : OrderbookListenerImpl :=
  let connectionCondition := { state := .notReady, errors := ["connection state unknown"] }
  let bookCondition := { state := .notReady, errors := ["no book"] }
  { symbol
    connectionCondition
    bookCondition
    snapshotService := { made := 1 }
    snapshot := {
      object := 0
      condition := (({} : FeedCondition).merge connectionCondition).merge bookCondition
      source := buildSourceId symbol
      timestamp := now
      upstreamTime := now } }

/-- The command that `on_connection_state` sends. -/
def subscribeRequest (l : OrderbookListenerImpl) : Json :=
  .object [("subscribe", .object [
    ("market_id", .string "0"),
    ("symbol", .string (nativeSymbol l.symbol)),
    ("type", .string "snap_full_updates"),
    ("interval", .string "0"),
    ("user_tag", .string (buildSubscribeId l.symbol))])]

/-- `update`, without the signal. -/
def update (l : OrderbookListenerImpl) : OrderbookListenerImpl :=
  let condition := (l.snapshot.condition.reset .good).merge l.connectionCondition
  { l with snapshot := { l.snapshot with condition := condition.merge l.bookCondition } }

/-- `on_connection_state`, with the commands that it sends. -/
def onConnectionState (l : OrderbookListenerImpl) (cstate : ConnectionState) :
    OrderbookListenerImpl × List Json :=
  let l := { l with connstate := cstate }
  if l.connstate.down then
    ({ l with
      connectionCondition := (l.connectionCondition.reset .stale).pushError "connection dropped"
      bookCondition := l.bookCondition.mergeState .stale }.update, [])
  else
    ({ l with connectionCondition := l.connectionCondition.reset .good }.update,
      [l.subscribeRequest])

/-- `on_command_response`, `none` when the payload has no error code. -/
def onCommandResponse (l : OrderbookListenerImpl) (payload : JsonObject) :
    Option OrderbookListenerImpl := do
  let code ← payload.ifContains "error_code"
  let bookCondition :=
    if code.ifString = some "0" then (l.bookCondition.reset .notReady).pushError "subscribed"
    else (l.bookCondition.reset .error).pushError "failed to subscribe"
  return { l with bookCondition }.update

/-- `on_tick`, at time `now`. What becomes of the snapshot that it replaces is left to the runs. -/
def onTick (l : OrderbookListenerImpl) (tick : TickRecord) (now : TimestampType) :
    Option OrderbookListenerImpl := do
  let (snapshotService, snapshot) ← l.snapshotService.processTick tick now
  return { l with
    snapshotService
    snapshot
    bookCondition := l.bookCondition.reset .good }.update

end OrderbookListenerImpl

end Arby.PowerTrade
