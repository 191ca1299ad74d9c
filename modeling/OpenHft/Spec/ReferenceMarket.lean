import OpenHft.Spec.Replay

/-!
# The market a trader sees

The live orders of a feed, and beside them what a reader of the book is shown: the best
price of each side, and a quantity at every price. The quantity is not the one that is
live. Shares that leave an order which itself stays in the book, cancelled or executed,
are still shown at its price, for good: `reduced` adds them up.
-/

namespace OpenHft

/-- The better of two prices for an order on this side. -/
def Side.better : Side → Price → Price → Price
  | .buy, a, b => if a < b then b else a
  | .sell, a, b => if b < a then b else a

/-- The orders that are live, and what the shown quantities have lost sight of. -/
structure Market where
  live : List OrderData
  /-- shares taken out of orders that stayed, by side and price -/
  reduced : Side → Price → Nat

namespace Market

/-- No order is live. -/
def empty : Market where
  live := []
  reduced := fun _ _ => 0

/-- The best price at which an order of this side is live. -/
def bestOf (side : Side) : List OrderData → Option Price
  | [] => none
  | o :: live =>
      if o.side = side then
        some (match bestOf side live with
          | none => o.price
          | some price => side.better o.price price)
      else bestOf side live

/-- The best price of a side. -/
def best (m : Market) (side : Side) : Option Price := bestOf side m.live

/-- The quantity that is live at a price. -/
def liveQuantity (m : Market) (side : Side) (price : Price) : Nat :=
  ((m.live.filter fun o => o.side = side ∧ o.price = price).map fun o => o.quantity.toNat).sum

/-- The quantity that is shown, a number of 32 bits. -/
def shown (m : Market) (side : Side) (price : Price) : Quantity :=
  UInt32.ofNat (m.liveQuantity side price + m.reduced side price)

/-- The order that an event takes a part of. -/
def reducedOrder (live : List OrderData) (event : MarketDataEvent) : Option OrderData :=
  match event.type with
  | .cancelOrder | .executeOrder =>
      (Replay.find live event.orderId).filter fun o =>
        event.quantity ≠ 0 ∧ event.quantity < o.quantity
  | _ => none

/-- One event. -/
def step (m : Market) (event : MarketDataEvent) : Market where
  live := Replay.step defaultOrderCapacity m.live event
  reduced := fun side price => m.reduced side price +
    match reducedOrder m.live event with
    | some o => if o.side = side ∧ o.price = price then event.quantity.toNat else 0
    | none => 0

/-- Events one after the other. -/
def run (m : Market) (events : List MarketDataEvent) : Market := events.foldl step m

end Market

end OpenHft
