import OpenHft.Model.OrderBook
import OpenHft.Model.OrderPool

/-!
# `MarketDataBookConsumer`

Normalized market-data events and the consumer that applies them to a book
(`pipeline/market_data_event.hpp`, `pipeline/market_data_book_consumer.cpp`).
An event carries the fields of all five kinds, and the consumer reads those of
its own kind. The book is the one the consumer was constructed over; its orders
are the objects of the consumer's pool.
-/

namespace OpenHft

/-- `MarketDataEventType` -/
inductive MarketDataEventType where
  | addOrder
  | cancelOrder
  | deleteOrder
  | executeOrder
  | replaceOrder
  deriving DecidableEq, Repr

/-- The event, with the defaults of the source for the fields that its kind does not use. -/
structure MarketDataEvent where
  type : MarketDataEventType := .addOrder
  orderId : OrderId := 0
  newOrderId : OrderId := 0
  accountId : AccountId := 0
  side : Side := .buy
  symbol : Symbol := Vector.replicate 8 0
  price : Price := 0
  quantity : Quantity := 0
  deriving DecidableEq

/-- The consumer with the book it was constructed over. -/
structure MarketDataBookConsumer where
  book : ArrayOrderBook
  orderPool : OrderPool

namespace MarketDataBookConsumer

/-- A fresh consumer over a fresh book. -/
def init (stdHash : OrderId → Nat) : MarketDataBookConsumer where
  book := .init stdHash fun _ => default
  orderPool := .init defaultOrderCapacity

/-- What the book has let go of goes back to the pool. -/
def releaseIfOwned (c : MarketDataBookConsumer) (order : Option OrderPtr) :
    MarketDataBookConsumer :=
  { c with orderPool := c.orderPool.releaseIfOwned order }

/-- The `switch` over the kind of the event. Without an order to be had from the pool an added
order is dropped; what the book answers to a replacement is not looked at. -/
def consume (c : MarketDataBookConsumer) (event : MarketDataEvent) :
    Except Fault MarketDataBookConsumer :=
  match event.type with
  | .addOrder =>
      match c.orderPool.acquire with
      | (none, _) => .ok c
      | (some order, pool) => do
          let book := { c.book with
            orders := c.book.orders.modify order fun _ =>
              { id := event.orderId, accountId := event.accountId, side := event.side,
                price := event.price, quantity := event.quantity } }
          .ok { book := ← book.addOrder order, orderPool := pool }
  | .cancelOrder => do
      let (result, book) ← c.book.reduceOrder event.orderId event.quantity
      .ok ({ c with book := book }.releaseIfOwned result.removedOrder)
  | .deleteOrder => do
      let (removedOrder, book) ← c.book.cancelOrder event.orderId
      .ok ({ c with book := book }.releaseIfOwned removedOrder)
  | .executeOrder => do
      let (result, book) ← c.book.executeOrder event.orderId event.quantity
      .ok ({ c with book := book }.releaseIfOwned result.removedOrder)
  | .replaceOrder => do
      let (_, book) ← c.book.replaceOrder event.orderId event.newOrderId
        event.quantity event.price
      .ok { c with book := book }

/-- Events consumed one after the other. -/
def consumeAll (c : MarketDataBookConsumer) :
    List MarketDataEvent → Except Fault MarketDataBookConsumer
  | [] => .ok c
  | event :: events => do (← c.consume event).consumeAll events

end MarketDataBookConsumer

end OpenHft
