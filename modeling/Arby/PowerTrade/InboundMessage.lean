import Arby.Kit.Json
import Arby.Trading.Types

/-! The message that the connector reads into. One object serves for all the messages of a
connection. -/

namespace Arby.PowerTrade

open Trading Kit

/-- `connector_impl::inbound_message`. The pointer `object_` is the object that it points to, `none`
when it is null. -/
structure InboundMessage where
  timestamp : TimestampType := 0
  buffer : String := ""
  value : Json := .null
  type : String := ""
  object : Option JsonObject := none

namespace InboundMessage

/-- `prepare`, at time `now`: everything is cleared for the next message. -/
def prepare (_ : InboundMessage) (now : TimestampType) : InboundMessage := { timestamp := now }

/-- The bytes of `chunk` arrive in the buffer. -/
def receive (m : InboundMessage) (chunk : String) : InboundMessage :=
  { m with buffer := m.buffer ++ chunk }

def view (m : InboundMessage) : String := m.buffer

/-- `commit`, at time `now`, with the parser `parse`: the message, and whether its text was
parsed. -/
def commit (parse : String → Option Json) (m : InboundMessage) (now : TimestampType) :
    InboundMessage × Bool :=
  let m := { m with timestamp := now }
  match parse m.view with
  | none => (m, false)
  | some value =>
    match value.ifObject with
    | some ((type, inner) :: _) => ({ m with value, type, object := inner.ifObject }, true)
    | _ => ({ m with value }, true)

end InboundMessage

end Arby.PowerTrade
