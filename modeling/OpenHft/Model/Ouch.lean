import OpenHft.Model.MatchingEngine
import OpenHft.Model.Wire

/-!
# OUCH orders at the exchange

`ExchangeOuchHandler::handleEnterOrder` with the decoder and the encoder it uses. A
field of an `enum class : char` type holds whatever byte the message has there, so
such a field is that byte. A buffer here is never null; the source answers a null one
as it answers one that is too short.
-/

namespace OpenHft

/-- The client's number for an order. -/
abbrev UserRefNum := UInt32

/-- `std::array<char, 14>`. -/
abbrev ClOrdId := Vector UInt8 14

/-- The order as the client enters it. -/
structure EnterOrder where
  userRefNum : UserRefNum
  side : Side
  quantity : Quantity
  symbol : Symbol
  price : UInt64
  timeInForce : UInt8
  display : UInt8
  capacity : UInt8
  isoEligibility : UInt8
  crossType : UInt8
  clOrdId : ClOrdId
  appendageLength : UInt16

/-- The answer to an order that was taken. -/
structure Accepted where
  timestamp : UInt64
  userRefNum : UserRefNum
  side : Side
  quantity : Quantity
  symbol : Symbol
  price : UInt64
  timeInForce : UInt8
  display : UInt8
  orderReferenceNumber : OrderId
  capacity : UInt8
  isoEligibility : UInt8
  crossType : UInt8
  orderState : UInt8
  clOrdId : ClOrdId
  appendageLength : UInt16

/-- Every side but `B` is a sell. The appendage that is announced is not asked for. -/
def OuchDecoder.decodeEnterOrder (data : Bytes) (length : Nat) : Option EnterOrder :=
  if length < 47 then none
  else if data 0 ≠ 'O'.toUInt8 then none
  else some
    { userRefNum := readUint32 (data.drop 1)
      side := if data 5 = 'B'.toUInt8 then .buy else .sell
      quantity := readUint32 (data.drop 6)
      symbol := copyN (data.drop 10) 8
      price := readUint64 (data.drop 18)
      timeInForce := data 26
      display := data 27
      capacity := data 28
      isoEligibility := data 29
      crossType := data 30
      clOrdId := copyN (data.drop 31) 14
      appendageLength := readUint16 (data.drop 45) }

namespace AcceptedEncoder

/-- An Accepted message. -/
abbrev Buffer := Vector UInt8 64

/-- The fields follow one another without a gap, so that the spaces the source fills
the buffer with are all overwritten. -/
def encode (accepted : Accepted) : Buffer :=
  #v['A'.toUInt8] ++ writeUint64 accepted.timestamp ++ writeUint32 accepted.userRefNum ++
    #v[if accepted.side = .buy then 'B'.toUInt8 else 'S'.toUInt8] ++
    writeUint32 accepted.quantity ++ accepted.symbol ++ writeUint64 accepted.price ++
    #v[accepted.timeInForce, accepted.display] ++
    writeUint64 accepted.orderReferenceNumber ++
    #v[accepted.capacity, accepted.isoEligibility, accepted.crossType,
      accepted.orderState] ++
    accepted.clOrdId ++ writeUint16 accepted.appendageLength

end AcceptedEncoder

/-- `ExchangeOrderSessionMap`: the client's reference of each order, by order id. -/
abbrev ExchangeOrderSessionMap := OrderId → Option UserRefNum

/-- A reference under the same id is replaced. -/
def ExchangeOrderSessionMap.registerOrder (m : ExchangeOrderSessionMap)
    (orderId : OrderId) (userRefNum : UserRefNum) : ExchangeOrderSessionMap :=
  Function.update m orderId (some userRefNum)

/-- The handler with the engine and the session map it was constructed over. -/
structure ExchangeOuchHandler where
  matchingEngine : MatchingEngine
  sessionMap : ExchangeOrderSessionMap

namespace ExchangeOuchHandler

/-- A new engine, and no order registered. -/
def init (stdHash : OrderId → Nat) : ExchangeOuchHandler where
  matchingEngine := .init stdHash
  sessionMap := fun _ => none

/-- The answer to an order that the engine has taken under `orderId`. -/
def accept (enterOrder : EnterOrder) (orderId : OrderId) : Accepted where
  timestamp := 0
  userRefNum := enterOrder.userRefNum
  side := enterOrder.side
  quantity := enterOrder.quantity
  symbol := enterOrder.symbol
  price := enterOrder.price
  timeInForce := enterOrder.timeInForce
  display := enterOrder.display
  orderReferenceNumber := orderId
  capacity := enterOrder.capacity
  isoEligibility := enterOrder.isoEligibility
  crossType := enterOrder.crossType
  -- `OrderState::Live`
  orderState := 'L'.toUInt8
  clOrdId := enterOrder.clOrdId
  appendageLength := 0

/-- `handleEnterOrder` up to its call of `process`: the order has an object, and it is
registered under the id it was given. Otherwise the call returns before. -/
def registerOrder (h : ExchangeOuchHandler) (accountId : AccountId) (data : Bytes)
    (length : Nat) : Option (EnterOrder × OrderPtr × ExchangeOuchHandler) :=
  match OuchDecoder.decodeEnterOrder data length with
  | none => none
  | some enterOrder =>
      match h.matchingEngine.prepareOrder accountId enterOrder.side
          enterOrder.price.toInt64 enterOrder.quantity with
      -- the pool is exhausted, and the engine is as it was
      | (none, _) => none
      | (some order, engine) =>
          let orderId := (engine.book.orders order).id
          some (enterOrder, order,
            { matchingEngine := engine
              sessionMap := h.sessionMap.registerOrder orderId enterOrder.userRefNum })

/-- The response, if there is one, and the handler after the call. -/
def handleEnterOrder (h : ExchangeOuchHandler) (accountId : AccountId) (data : Bytes)
    (length : Nat) : Except Fault (Option AcceptedEncoder.Buffer × ExchangeOuchHandler) :=
  match h.registerOrder accountId data length with
  | none => .ok (none, h)
  | some (enterOrder, order, h) => do
      let orderId := (h.matchingEngine.book.orders order).id
      let engine ← h.matchingEngine.process (some order)
      .ok (some (AcceptedEncoder.encode (accept enterOrder orderId)),
        { h with matchingEngine := engine })

/-- The session map as it is while the call is inside `process`. -/
def mapAtProcess (h : ExchangeOuchHandler) (accountId : AccountId) (data : Bytes)
    (length : Nat) : ExchangeOrderSessionMap :=
  match h.registerOrder accountId data length with
  | none => h.sessionMap
  | some (_, _, h) => h.sessionMap

end ExchangeOuchHandler

/-- A buffer given to `handleEnterOrder`. -/
structure EnterOrderCall where
  accountId : AccountId
  data : Bytes
  length : Nat

/-- A call, for what it does to the handler and the engine behind it. -/
def ExchangeOuchHandler.receive (h : ExchangeOuchHandler) (call : EnterOrderCall) :
    Except Fault ExchangeOuchHandler :=
  (h.handleEnterOrder call.accountId call.data call.length).map Prod.snd

end OpenHft
