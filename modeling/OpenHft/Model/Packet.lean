import OpenHft.Lib.Footprint
import OpenHft.Model.Wire

/-!
# The receive loop and its parsers

The body of `Receiver::run` for one packet, from `dpdk/receiver/receiver.cpp`, and
the three parsers it calls. `data` is the memory at and after the packet's first
byte; only `packetLength` bytes of it were received, and what lies behind them is
whatever it is. A header pointer is an offset into `data`. Every byte of a header
that is examined is recorded; a payload is handed on as a `Span`, unread.

The packet and byte counters of the loop's report are left out.
-/

namespace OpenHft

open Lib

/-- `std::span<const std::uint8_t>` over the packet memory. -/
structure Span where
  start : Nat
  size : Nat
  deriving DecidableEq, Repr

/-- The byte at an offset, examined. -/
def load8 (data : Bytes) (offset : Nat) : Reading Nat UInt8 :=
  reading [offset] (data offset)

/-- The two bytes at an offset in network order, examined. -/
def load16 (data : Bytes) (offset : Nat) : Reading Nat UInt16 :=
  reading [offset, offset + 1] (readUint16 (data.drop offset))

namespace EthernetParser

/-- `sizeof(EthernetHeader)`. -/
def headerSize : Nat := 14

/-- The packet is taken for a header if it is long enough for one; nothing is examined. -/
def parse (view : Span) : Option Nat :=
  if view.size < headerSize then none else some view.start

/-- `ether_type`, in host order -/
def etherType (data : Bytes) (header : Nat) : Reading Nat UInt16 :=
  load16 data (header + 12)

/-- Behind the header. -/
def payload (header : Nat) : Nat := header + headerSize

end EthernetParser

namespace IPv4Parser

/-- `sizeof(IPv4Header)`. -/
def headerSize : Nat := 20

/-- The upper half of the first byte. -/
def version (data : Bytes) (header : Nat) : Reading Nat UInt8 := do
  return (← load8 data header) >>> 4

/-- The lower half of the first byte counts words of four bytes. -/
def headerLengthBytes (data : Bytes) (header : Nat) : Reading Nat UInt8 := do
  let ihl := (← load8 data header) &&& 0x0F
  return ihl * 4

/-- `total_length`, in host order -/
def totalLength (data : Bytes) (header : Nat) : Reading Nat UInt16 :=
  load16 data (header + 2)

/-- `protocol` -/
def protocol (data : Bytes) (header : Nat) : Reading Nat UInt8 :=
  load8 data (header + 9)

/-- Accepted are version 4 and a header length that is neither shorter than the header nor
longer than the view. -/
def parse (data : Bytes) (view : Span) : Reading Nat (Option Nat) := do
  if view.size < headerSize then return none
  let header := view.start
  if (← version data header) ≠ 4 then return none
  let headerLength ← headerLengthBytes data header
  if headerLength.toNat < headerSize then return none
  if view.size < headerLength.toNat then return none
  return some header

/-- Behind the header with its options. -/
def payload (data : Bytes) (header : Nat) : Reading Nat Nat := do
  return header + (← headerLengthBytes data header).toNat

/-- What the total length leaves behind the header. -/
def payloadLength (data : Bytes) (header : Nat) : Reading Nat Nat := do
  let totalLengthValue ← totalLength data header
  let headerLength ← headerLengthBytes data header
  if totalLengthValue.toNat < headerLength.toNat then return 0
  return totalLengthValue.toNat - headerLength.toNat

end IPv4Parser

namespace UDPParser

/-- `sizeof(UDPHeader)`. -/
def headerSize : Nat := 8

/-- The view is taken for a header if it is long enough for one. -/
def parse (view : Span) : Option Nat :=
  if view.size < headerSize then none else some view.start

/-- `destination_port`, in host order -/
def destinationPort (data : Bytes) (header : Nat) : Reading Nat UInt16 :=
  load16 data (header + 2)

/-- What the datagram's length leaves behind the header. -/
def payloadLength (data : Bytes) (header : Nat) : Reading Nat UInt16 := do
  let udpLength ← load16 data (header + 4)
  if udpLength.toNat < headerSize then return 0
  return udpLength - 8

/-- Behind the header. -/
def payload (header : Nat) : Nat := header + headerSize

end UDPParser

namespace Receiver

/-- The loop body from `UDPParser::parse` on: the span it submits, if any. `hasSink`
is `payloadSink_ != nullptr`. -/
def receiveUdp (hasSink : Bool) (data : Bytes) (udpView : Span) :
    Reading Nat (Option Span) := do
  match UDPParser.parse udpView with
  | none => return none
  | some udp =>
      if (← UDPParser.destinationPort data udp) ≠ 9000 then return none
      let payload := UDPParser.payload udp
      let payloadLength ← UDPParser.payloadLength data udp
      if hasSink then return some ⟨payload, payloadLength.toNat⟩ else return none

/-- The loop body from `IPv4Parser::parse` on. -/
def receiveIPv4 (hasSink : Bool) (data : Bytes) (ipv4View : Span) :
    Reading Nat (Option Span) := do
  match ← IPv4Parser.parse data ipv4View with
  | none => return none
  | some ipv4 =>
      if (← IPv4Parser.protocol data ipv4) ≠ 17 then return none
      let udpData ← IPv4Parser.payload data ipv4
      let udpAvailableLength ← IPv4Parser.payloadLength data ipv4
      receiveUdp hasSink data ⟨udpData, udpAvailableLength⟩

/-- The loop body for one packet. -/
def receive (hasSink : Bool) (data : Bytes) (packetLength : Nat) :
    Reading Nat (Option Span) := do
  match EthernetParser.parse ⟨0, packetLength⟩ with
  | none => return none
  | some ethernet =>
      if (← EthernetParser.etherType data ethernet) ≠ 0x0800 then return none
      let ipv4Data := EthernetParser.payload ethernet
      let ipv4AvailableLength := packetLength - EthernetParser.headerSize
      receiveIPv4 hasSink data ⟨ipv4Data, ipv4AvailableLength⟩

end Receiver

end OpenHft
