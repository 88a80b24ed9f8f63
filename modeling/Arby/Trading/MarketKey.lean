/-! Market keys, and their textual form. -/

namespace Arby.Trading

structure SpotMarketKey where
  base : String
  term : String
deriving DecidableEq, Repr

namespace SpotMarketKey

/-- `to_string(spot_market_key const &)`. -/
def toString (key : SpotMarketKey) : String := key.base ++ "/" ++ key.term

end SpotMarketKey

/-- `market_key`: a variant with one alternative. -/
inductive MarketKey
  | spot (key : SpotMarketKey)
deriving DecidableEq, Repr

/-- `to_string(market_key const &)`. -/
def MarketKey.toString : MarketKey → String
  | spot key => key.toString

end Arby.Trading
