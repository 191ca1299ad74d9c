import OpenHft.Model.Gateway
import OpenHft.Model.Ouch

/-!
# OUCH at the client

`OuchExecutionSink`, which turns an intent into an Enter Order message, and
`OuchResponseDispatcher`, which tells the answers apart. The transport is an interface: it
is handed the bytes of a message and reports whether it could send them, so a transport is
a function with a state of its own. Of the null pointers the decoders look for there are
none here, as on the side of the exchange.
-/

namespace OpenHft

/-- The answer to an order that was not taken. -/
structure Rejected where
  timestamp : UInt64
  userRefNum : UserRefNum
  reason : UInt16
  clOrdId : ClOrdId
  appendageLength : UInt16

/-- The report of a trade. -/
structure Executed where
  timestamp : UInt64
  userRefNum : UserRefNum
  quantity : Quantity
  price : UInt64
  liquidityFlag : UInt8
  matchNumber : UInt64
  appendageLength : UInt16

/-- The report of a cancellation. -/
structure Canceled where
  timestamp : UInt64
  userRefNum : UserRefNum
  quantity : Quantity
  reason : UInt8
  appendageLength : UInt16

/-! ## Orders out -/

namespace OuchEncoder

/-- An Enter Order message. -/
abbrev Buffer := Vector UInt8 47

/-- As in `AcceptedEncoder.encode` no padding is left. The appendage length of the order is
not looked at: "optional appendages are not supported yet". -/
def encode (order : EnterOrder) : Buffer :=
  #v['O'.toUInt8] ++ writeUint32 order.userRefNum ++
    #v[if order.side = .buy then 'B'.toUInt8 else 'S'.toUInt8] ++
    writeUint32 order.quantity ++ order.symbol ++ writeUint64 order.price ++
    #v[order.timeInForce, order.display, order.capacity, order.isoEligibility,
      order.crossType] ++
    order.clOrdId ++ writeUint16 0

end OuchEncoder

/-- `OuchTransport::send` of an implementation whose state is in `τ`. -/
abbrev OuchTransport (τ : Type) := List UInt8 → τ → Bool × τ

/-- The sink with the transport it was constructed over. -/
structure OuchExecutionSink (τ : Type) where
  transport : τ
  /-- `nextUserRefNum_` -/
  next : UserRefNum := 1

namespace OuchExecutionSink

variable {τ : Type}

/-- `nextUserRefNum_++` -/
def nextUserRefNum (sink : OuchExecutionSink τ) : UserRefNum × OuchExecutionSink τ :=
  (sink.next, { sink with next := sink.next + 1 })

/-- The order that `submit` fills in. -/
def enterOrder (userRefNum : UserRefNum) (intent : OrderIntent) : EnterOrder where
  userRefNum := userRefNum
  side := intent.side
  quantity := intent.quantity
  symbol := intent.symbol
  price := intent.price.toUInt64
  -- `TimeInForce::Day`, `Display::Visible`, `Capacity::Agency`,
  -- `IsoEligibility::NotEligible`, `CrossType::ContinuousMarket`
  timeInForce := '0'.toUInt8
  display := 'Y'.toUInt8
  capacity := 'A'.toUInt8
  isoEligibility := 'N'.toUInt8
  crossType := 'N'.toUInt8
  clOrdId := Vector.replicate 14 0
  appendageLength := 0

/-- The number is drawn whether or not the transport takes the message. -/
def submit (send : OuchTransport τ) (sink : OuchExecutionSink τ) (intent : OrderIntent) :
    Bool × OuchExecutionSink τ :=
  let (userRefNum, sink) := sink.nextUserRefNum
  let buffer := OuchEncoder.encode (enterOrder userRefNum intent)
  let (sent, transport) := send buffer.toList sink.transport
  (sent, { sink with transport := transport })

/-- Intents submitted one after the other. -/
def submitAll (send : OuchTransport τ) (sink : OuchExecutionSink τ)
    (intents : List OrderIntent) : OuchExecutionSink τ :=
  intents.foldl (fun sink intent => (sink.submit send intent).2) sink

end OuchExecutionSink

/-! ## Answers in -/

namespace OuchDecoder

/-- The message has to be as long as its appendage length says, here and in the next two. -/
def decodeAccepted (data : Bytes) (length : Nat) : Option Accepted :=
  if length < 64 then none
  else if data 0 ≠ 'A'.toUInt8 then none
  else
    let accepted : Accepted :=
      { timestamp := readUint64 (data.drop 1)
        userRefNum := readUint32 (data.drop 9)
        side := if data 13 = 'B'.toUInt8 then .buy else .sell
        quantity := readUint32 (data.drop 14)
        symbol := copyN (data.drop 18) 8
        price := readUint64 (data.drop 26)
        timeInForce := data 34
        display := data 35
        orderReferenceNumber := readUint64 (data.drop 36)
        capacity := data 44
        isoEligibility := data 45
        crossType := data 46
        orderState := data 47
        clOrdId := copyN (data.drop 48) 14
        appendageLength := readUint16 (data.drop 62) }
    if length < 64 + accepted.appendageLength.toNat then none else some accepted

/-- `J` messages, of 31 bytes and an appendage -/
def decodeRejected (data : Bytes) (length : Nat) : Option Rejected :=
  if length < 31 then none
  else if data 0 ≠ 'J'.toUInt8 then none
  else
    let rejected : Rejected :=
      { timestamp := readUint64 (data.drop 1)
        userRefNum := readUint32 (data.drop 9)
        reason := readUint16 (data.drop 13)
        clOrdId := copyN (data.drop 15) 14
        appendageLength := readUint16 (data.drop 29) }
    if length < 31 + rejected.appendageLength.toNat then none else some rejected

/-- `E` messages, of 36 bytes and an appendage -/
def decodeExecuted (data : Bytes) (length : Nat) : Option Executed :=
  if length < 36 then none
  else if data 0 ≠ 'E'.toUInt8 then none
  else
    let executed : Executed :=
      { timestamp := readUint64 (data.drop 1)
        userRefNum := readUint32 (data.drop 9)
        quantity := readUint32 (data.drop 13)
        price := readUint64 (data.drop 17)
        liquidityFlag := data 25
        matchNumber := readUint64 (data.drop 26)
        appendageLength := readUint16 (data.drop 34) }
    if length < 36 + executed.appendageLength.toNat then none else some executed

/-- The one response without an appendage. -/
def decodeCanceled (data : Bytes) (length : Nat) : Option Canceled :=
  if length < 18 then none
  else if data 0 ≠ 'C'.toUInt8 then none
  else some
    { timestamp := readUint64 (data.drop 1)
      userRefNum := readUint32 (data.drop 9)
      quantity := readUint32 (data.drop 13)
      reason := data 17
      appendageLength := 0 }

end OuchDecoder

/-- `std::variant` over the four answers -/
inductive OuchResponse where
  | accepted (message : Accepted)
  | rejected (message : Rejected)
  | executed (message : Executed)
  | canceled (message : Canceled)

/-- The first byte says which decoder is asked. -/
def OuchResponseDispatcher.dispatch (data : Bytes) (length : Nat) : Option OuchResponse :=
  if length = 0 then none
  else if data 0 = 'A'.toUInt8 then (OuchDecoder.decodeAccepted data length).map .accepted
  else if data 0 = 'J'.toUInt8 then (OuchDecoder.decodeRejected data length).map .rejected
  else if data 0 = 'E'.toUInt8 then (OuchDecoder.decodeExecuted data length).map .executed
  else if data 0 = 'C'.toUInt8 then (OuchDecoder.decodeCanceled data length).map .canceled
  else none

end OpenHft
