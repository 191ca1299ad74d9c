import OpenHft.Model.MarketData
import OpenHft.Model.Wire

/-!
# ITCH messages

The parsers and mappers of `dpdk/parser/itch` and the dispatcher of
`market_data/replay/itch_replay_dispatcher.cpp`. A parser accepts a message that is
long enough for its packed struct, whatever else it says; the fields are read at the
offsets of that struct. A mapper copies them into a struct of host integers, and the
dispatcher turns that struct into a `MarketDataEvent`.
-/

namespace OpenHft

/-- `AddOrder`, the host struct of an `A` message -/
structure AddOrder where
  stockLocate : UInt16
  trackingNumber : UInt16
  orderReferenceNumber : UInt64
  isBuy : Bool
  shares : UInt32
  symbol : Symbol
  price : UInt32

/-- `OrderCancel`, of an `X` message -/
structure OrderCancel where
  orderReferenceNumber : UInt64
  cancelledShares : UInt32

/-- `OrderDelete`, of a `D` message -/
structure OrderDelete where
  orderReferenceNumber : UInt64

/-- `OrderExecuted`, of an `E` message -/
structure OrderExecuted where
  orderReferenceNumber : UInt64
  executedShares : UInt32
  matchNumber : UInt64

/-- `OrderReplace`, of a `U` message -/
structure OrderReplace where
  originalOrderReferenceNumber : UInt64
  newOrderReferenceNumber : UInt64
  shares : UInt32
  price : UInt32

/-- What every ITCH parser does: the message is taken for the struct at its first
byte if it is at least as long, and then mapped. -/
def parseItch {α : Type} (wireSize : Nat) (fromWire : Bytes → α) (data : Bytes)
    (length : Nat) : Option α :=
  if length < wireSize then none else some (fromWire data)

/-- Every side but `B` is a sell. -/
def AddOrderMapper.fromWire (message : Bytes) : AddOrder where
  stockLocate := readUint16 (message.drop 1)
  trackingNumber := readUint16 (message.drop 3)
  orderReferenceNumber := readUint64 (message.drop 11)
  isBuy := message 19 == 'B'.toUInt8
  shares := readUint32 (message.drop 20)
  symbol := copyN (message.drop 24) 8
  price := readUint32 (message.drop 32)

/-- The locate code, the tracking number and the timestamp are not copied, here and below. -/
def OrderCancelMapper.fromWire (message : Bytes) : OrderCancel where
  orderReferenceNumber := readUint64 (message.drop 11)
  cancelledShares := readUint32 (message.drop 19)

/-- Only the reference is copied. -/
def OrderDeleteMapper.fromWire (message : Bytes) : OrderDelete where
  orderReferenceNumber := readUint64 (message.drop 11)

/-- The match number is copied but no event has it. -/
def OrderExecutedMapper.fromWire (message : Bytes) : OrderExecuted where
  orderReferenceNumber := readUint64 (message.drop 11)
  executedShares := readUint32 (message.drop 19)
  matchNumber := readUint64 (message.drop 23)

/-- The two references, and the terms of the new order. -/
def OrderReplaceMapper.fromWire (message : Bytes) : OrderReplace where
  originalOrderReferenceNumber := readUint64 (message.drop 11)
  newOrderReferenceNumber := readUint64 (message.drop 19)
  shares := readUint32 (message.drop 27)
  price := readUint32 (message.drop 31)

/-- `sizeof(AddOrderWireMessage)` is 36. -/
def AddOrderParser.parse : Bytes → Nat → Option AddOrder :=
  parseItch 36 AddOrderMapper.fromWire

/-- `sizeof(OrderCancelWireMessage)` is 23. -/
def OrderCancelParser.parse : Bytes → Nat → Option OrderCancel :=
  parseItch 23 OrderCancelMapper.fromWire

/-- `sizeof(OrderDeleteWireMessage)` is 19. -/
def OrderDeleteParser.parse : Bytes → Nat → Option OrderDelete :=
  parseItch 19 OrderDeleteMapper.fromWire

/-- `sizeof(OrderExecutedWireMessage)` is 31. -/
def OrderExecutedParser.parse : Bytes → Nat → Option OrderExecuted :=
  parseItch 31 OrderExecutedMapper.fromWire

/-- `sizeof(OrderReplaceWireMessage)` is 35. -/
def OrderReplaceParser.parse : Bytes → Nat → Option OrderReplace :=
  parseItch 35 OrderReplaceMapper.fromWire

namespace ItchReplayDispatcher

/-- `static_cast<Price>` of a 32-bit wire price. -/
def toPrice (price : UInt32) : Price := price.toUInt64.toInt64

/-- The event that `dispatch` submits, if it submits one. -/
def event (message : Bytes) (length : Nat) : Option MarketDataEvent :=
  if length = 0 then none
  else if message 0 = 'A'.toUInt8 then
    (AddOrderParser.parse message length).map fun order =>
      { type := .addOrder
        orderId := order.orderReferenceNumber
        newOrderId := 0
        accountId := 0
        side := if order.isBuy then .buy else .sell
        symbol := order.symbol
        price := toPrice order.price
        quantity := order.shares }
  else if message 0 = 'X'.toUInt8 then
    (OrderCancelParser.parse message length).map fun cancel =>
      { type := .cancelOrder
        orderId := cancel.orderReferenceNumber
        quantity := cancel.cancelledShares }
  else if message 0 = 'D'.toUInt8 then
    (OrderDeleteParser.parse message length).map fun deletion =>
      { type := .deleteOrder
        orderId := deletion.orderReferenceNumber }
  else if message 0 = 'E'.toUInt8 then
    (OrderExecutedParser.parse message length).map fun execution =>
      { type := .executeOrder
        orderId := execution.orderReferenceNumber
        quantity := execution.executedShares }
  else if message 0 = 'U'.toUInt8 then
    (OrderReplaceParser.parse message length).map fun replacement =>
      { type := .replaceOrder
        orderId := replacement.originalOrderReferenceNumber
        newOrderId := replacement.newOrderReferenceNumber
        price := toPrice replacement.price
        quantity := replacement.shares }
  else none

/-- `dispatch` over a sink with a state of its own. -/
def dispatch {σ : Type} (submit : MarketDataEvent → σ → Bool × σ) (message : Bytes)
    (length : Nat) (sink : σ) : Bool × σ :=
  match event message length with
  | none => (false, sink)
  | some event => submit event sink

end ItchReplayDispatcher

/-- An ITCH message. -/
structure ItchMessage where
  data : Bytes
  length : Nat

namespace MarketDataBookConsumer

/-- The dispatcher with the consumer behind its sink. -/
def receive (c : MarketDataBookConsumer) (message : ItchMessage) :
    Except Fault MarketDataBookConsumer :=
  (ItchReplayDispatcher.dispatch (fun event c => (true, c >>= fun c => c.consume event))
    message.data message.length (.ok c)).2

end MarketDataBookConsumer

/-- The bytes of an Order Delete message. -/
def deleteMessage (id : UInt8) : List UInt8 := 'D'.toUInt8 :: List.replicate 17 0 ++ [id]

end OpenHft
