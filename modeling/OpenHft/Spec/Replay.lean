import OpenHft.Lib.KeyedList
import OpenHft.Model.MarketData

/-!
# Replaying market data

What the market-data consumer is for: the live orders, in one list, in the order
in which they took their place in the book. An order that is added, or that takes
the place of another, comes last; one that is reduced stays where it is. The
queue of a price level is the part of the list that stands on its side and price.
-/

namespace OpenHft

open OpenHft.Lib

namespace Replay

/-- The order an `AddOrder` event describes. -/
def added (event : MarketDataEvent) : OrderData :=
  ⟨event.orderId, event.accountId, event.side, event.price, event.quantity⟩

/-- The live order with an id; the oldest, should there be two. -/
def find (live : List OrderData) (id : OrderId) : Option OrderData :=
  lookup OrderData.id id live

/-- Without the order with an id. -/
def remove (live : List OrderData) (id : OrderId) : List OrderData :=
  dropKey OrderData.id id live

/-- The order with an id has so much less. -/
def lower (live : List OrderData) (id : OrderId) (quantity : Quantity) :
    List OrderData :=
  alterKey OrderData.id id (fun o => { o with quantity := o.quantity - quantity }) live

/-- Cancelling or executing part of an order, or all of it. -/
def reduce (live : List OrderData) (id : OrderId) (quantity : Quantity) :
    List OrderData :=
  match find live id with
  | none => live
  | some o =>
      if quantity = 0 ∨ quantity > o.quantity then live
      else if quantity = o.quantity then remove live id
      else lower live id quantity

/-- An order that takes the place of another, on the same side and for the same
account. -/
def replace (live : List OrderData) (id newId : OrderId) (quantity : Quantity)
    (price : Price) : List OrderData :=
  match find live id with
  | none => live
  | some o =>
      if newId = 0 ∨ quantity = 0 ∨ newId = id ∨ (find live newId).isSome then live
      else remove live id ++ [⟨newId, o.accountId, o.side, price, quantity⟩]

/-- One event, with room for so many live orders. -/
def step (capacity : Nat) (live : List OrderData) (event : MarketDataEvent) :
    List OrderData :=
  match event.type with
  | .addOrder => if live.length = capacity then live else live ++ [added event]
  | .cancelOrder => reduce live event.orderId event.quantity
  | .deleteOrder => remove live event.orderId
  | .executeOrder => reduce live event.orderId event.quantity
  | .replaceOrder =>
      replace live event.orderId event.newOrderId event.quantity event.price

/-- Events one after the other. -/
def run (capacity : Nat) (live : List OrderData) (events : List MarketDataEvent) :
    List OrderData := events.foldl (step capacity) live

/-- No `AddOrder` of the run carries the id of an order still live. -/
def addsFresh (capacity : Nat) (live : List OrderData) : List MarketDataEvent → Bool
  | [] => true
  | event :: events =>
      (decide (event.type ≠ .addOrder) || (find live event.orderId).isNone) &&
        addsFresh capacity (step capacity live event) events

end Replay

end OpenHft
