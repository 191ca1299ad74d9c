import OpenHft.Model.Types
import OpenHft.Model.Wire

/-!
# The generator of replay files

`tools/generate_sample_itch_replay.cpp`: Add Order messages for one instrument, each written
to the stream behind its length. The program writes two of them; here a file is written for
any number of orders. The packed struct is its bytes; the fields that `makeAddOrder` does not
set, which are the locate code, the tracking number and the timestamp, are zero.
-/

namespace OpenHft

/-- The arguments of `makeAddOrder`. -/
structure SampleOrder where
  orderReferenceNumber : UInt64
  side : UInt8
  shares : UInt32
  price : UInt32

namespace SampleItchReplay

/-- `"AAPL    "` -/
def symbol : Symbol :=
  #v['A'.toUInt8, 'A'.toUInt8, 'P'.toUInt8, 'L'.toUInt8, ' '.toUInt8, ' '.toUInt8, ' '.toUInt8,
    ' '.toUInt8]

/-- The packed struct, field by field. -/
def makeAddOrder (order : SampleOrder) : Vector UInt8 36 :=
  Vector.singleton 'A'.toUInt8 ++ Vector.replicate 10 (0 : UInt8) ++
    writeUint64 order.orderReferenceNumber ++ Vector.singleton order.side ++
    writeUint32 order.shares ++ symbol ++ writeUint32 order.price

/-- The stream after `writeMessage`. -/
def writeMessage {n : Nat} (stream : List UInt8) (message : Vector UInt8 n) : List UInt8 :=
  stream ++ (writeUint16 (.ofNat n)).toList ++ message.toList

/-- The file after a `writeMessage` for each order. -/
def generate (orders : List SampleOrder) : List UInt8 :=
  orders.foldl (fun stream order => writeMessage stream (makeAddOrder order)) []

/-- What `main` writes: one bid and one ask. -/
def sample : List SampleOrder :=
  [⟨5001, 'B'.toUInt8, 900, 98⟩, ⟨5002, 'S'.toUInt8, 100, 99⟩]

end SampleItchReplay

end OpenHft
