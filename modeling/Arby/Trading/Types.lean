import Mathlib.Algebra.Order.Field.Rat
import Mathlib.Data.Fintype.Defs
import Mathlib.Data.Finset.Insert
import Mathlib.Order.OrderDual

/-! The quantities of the trading layer: sides, prices, quantities and time points. -/

namespace Arby.Trading

inductive SideType
  | buy
  | sell
deriving DecidableEq, Repr

instance : Fintype SideType := ⟨{.buy, .sell}, fun d => by cases d <;> decide⟩

/-- Quantities are exact decimals: the rounding of `cpp_dec_float_50` is left out. -/
abbrev QtyType := ℚ

abbrev PriceType := ℚ

/-- A `system_clock` time point, in ticks since the epoch. Only compared and copied. -/
abbrev TimestampType := ℤ

/-- `system_clock::time_point::min()`. -/
def timePointMin : TimestampType := -2 ^ 63

end Arby.Trading
