import Mathlib.Data.Int.Notation

/-! The state of the connection to the exchange. -/

namespace Arby.PowerTrade

/-- The value of an `error_code`, 0 for success. Its category is left out. -/
abbrev ErrorCode := ℤ

/-- `asio::error::not_connected`. -/
def notConnected : ErrorCode := 107

structure ConnectionState where
  ec : ErrorCode := notConnected
deriving DecidableEq, Repr

namespace ConnectionState

def set (_ : ConnectionState) (ec : ErrorCode) : ConnectionState := { ec }

def up (c : ConnectionState) : Bool := decide (c.ec = 0)

def down (c : ConnectionState) : Bool := decide (c.ec ≠ 0)

theorem down_eq_not_up (c : ConnectionState) : c.down = !c.up := by
  simp [down, up]

end ConnectionState

end Arby.PowerTrade
