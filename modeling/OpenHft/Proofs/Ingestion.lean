import OpenHft.Model.Ingestion
import OpenHft.Proofs.PacketBounds
import OpenHft.Proofs.ReplayFile

/-!
# A message from the wire and from a file

A well-formed frame is built around a message layer by layer, and the receive loop finds the
message again: its start from the length of the IPv4 header, which options make longer, and
its end from the length in the UDP header, which cuts the padding off. A replay file has
the same message behind its length. What the dispatcher makes of it depends on the bytes of
the message and on nothing behind them, so both ways it submits the same event.
-/

namespace OpenHft

open Bytes

/-! ## The dispatcher reads the message only -/

section Dispatch

variable {data data' : Bytes}

theorem AddOrderMapper.fromWire_congr (h : AgreeFor 36 data data') :
    AddOrderMapper.fromWire data = AddOrderMapper.fromWire data' := by
  rw [AddOrderMapper.fromWire, readUint16_congr (h.drop 1 (by decide)),
    readUint16_congr (h.drop 3 (by decide)), readUint64_congr (h.drop 11 (by decide)),
    h 19 (by decide), readUint32_congr (h.drop 20 (by decide)),
    copyN_congr (h.drop 24 (by decide)), readUint32_congr (h.drop 32 (by decide))]
  rfl

theorem OrderCancelMapper.fromWire_congr (h : AgreeFor 23 data data') :
    OrderCancelMapper.fromWire data = OrderCancelMapper.fromWire data' := by
  rw [OrderCancelMapper.fromWire, readUint64_congr (h.drop 11 (by decide)),
    readUint32_congr (h.drop 19 (by decide))]
  rfl

theorem OrderDeleteMapper.fromWire_congr (h : AgreeFor 19 data data') :
    OrderDeleteMapper.fromWire data = OrderDeleteMapper.fromWire data' := by
  rw [OrderDeleteMapper.fromWire, readUint64_congr (h.drop 11 (by decide))]
  rfl

theorem OrderExecutedMapper.fromWire_congr (h : AgreeFor 31 data data') :
    OrderExecutedMapper.fromWire data = OrderExecutedMapper.fromWire data' := by
  rw [OrderExecutedMapper.fromWire, readUint64_congr (h.drop 11 (by decide)),
    readUint32_congr (h.drop 19 (by decide)), readUint64_congr (h.drop 23 (by decide))]
  rfl

theorem OrderReplaceMapper.fromWire_congr (h : AgreeFor 35 data data') :
    OrderReplaceMapper.fromWire data = OrderReplaceMapper.fromWire data' := by
  rw [OrderReplaceMapper.fromWire, readUint64_congr (h.drop 11 (by decide)),
    readUint64_congr (h.drop 19 (by decide)), readUint32_congr (h.drop 27 (by decide)),
    readUint32_congr (h.drop 31 (by decide))]
  rfl

/-- A parser that accepts a message reads no further than it is long. -/
theorem parseItch_congr {α : Type} {wireSize length : Nat} {fromWire : Bytes → α}
    (hmap : AgreeFor wireSize data data' → fromWire data = fromWire data')
    (h : AgreeFor length data data') :
    parseItch wireSize fromWire data length = parseItch wireSize fromWire data' length := by
  unfold parseItch
  split
  · rfl
  · next hlength => rw [hmap (h.mono (Nat.le_of_not_lt hlength))]

theorem ItchReplayDispatcher.event_congr {length : Nat} (h : AgreeFor length data data') :
    event data length = event data' length := by
  unfold event
  split
  · rfl
  · next hlength =>
      rw [h 0 (Nat.pos_of_ne_zero hlength), AddOrderParser.parse, OrderCancelParser.parse,
        OrderDeleteParser.parse, OrderExecutedParser.parse, OrderReplaceParser.parse,
        parseItch_congr AddOrderMapper.fromWire_congr h,
        parseItch_congr OrderCancelMapper.fromWire_congr h,
        parseItch_congr OrderDeleteMapper.fromWire_congr h,
        parseItch_congr OrderExecutedMapper.fromWire_congr h,
        parseItch_congr OrderReplaceMapper.fromWire_congr h]

theorem ItchReplayDispatcher.dispatch_congr {σ : Type}
    (submit : MarketDataEvent → σ → Bool × σ) {length : Nat} (h : AgreeFor length data data')
    (sink : σ) : dispatch submit data length sink = dispatch submit data' length sink := by
  rw [dispatch, dispatch, event_congr h]

end Dispatch

/-! ## Frames around a message -/

/-- All that a frame to port 9000 has besides its message and the lengths. -/
structure UdpFrame where
  /-- destination and source MAC address -/
  macAddresses : Vector UInt8 12
  ihl : Nat
  ihl_range : 5 ≤ ihl ∧ ihl ≤ 15
  dscpEcn : UInt8
  /-- identification, flags and fragment offset, time to live -/
  fragment : Vector UInt8 5
  /-- header checksum, source and destination address -/
  addresses : Vector UInt8 10
  options : Vector UInt8 (4 * ihl - 20)
  sourcePort : Vector UInt8 2
  checksum : Vector UInt8 2
  padding : List UInt8

namespace UdpFrame

variable {f : UdpFrame} {message : List UInt8} {data : Bytes}

/-- The three headers, for a message of this length. -/
def header (f : UdpFrame) (length : Nat) :
    Vector UInt8 (12 + 2 + 2 + 2 + 5 + 1 + 10 + (4 * f.ihl - 20) + 2 + 2 + 2 + 2) :=
  f.macAddresses ++ writeUint16 0x0800 ++
    #v[UInt8.ofNat (0x40 + f.ihl), f.dscpEcn] ++
    writeUint16 (.ofNat (4 * f.ihl + 8 + length)) ++ f.fragment ++ #v[(17 : UInt8)] ++
    f.addresses ++ f.options ++
    f.sourcePort ++ writeUint16 9000 ++ writeUint16 (.ofNat (8 + length)) ++ f.checksum

/-- The frame around a message. -/
def bytes (f : UdpFrame) (message : List UInt8) : List UInt8 :=
  (f.header message.length).toList ++ message ++ f.padding

theorem length_header (f : UdpFrame) (length : Nat) :
    (f.header length).toList.length = 22 + 4 * f.ihl := by
  have := f.ihl_range
  rw [Vector.length_toList]
  omega

/-- The first byte of the IPv4 header. -/
theorem version_ihl {ihl : Nat} (h : ihl ≤ 15) :
    UInt8.ofNat (0x40 + ihl) >>> 4 = 4 ∧
      ((UInt8.ofNat (0x40 + ihl) &&& 0x0F) * 4).toNat = 4 * ihl := by
  have hall : ∀ ihl : Fin 16, UInt8.ofNat (0x40 + ihl) >>> 4 = 4 ∧
      ((UInt8.ofNat (0x40 + ihl) &&& 0x0F) * 4).toNat = 4 * ihl.val := by decide
  exact hall ⟨ihl, Nat.lt_succ_of_le h⟩

section Fields

open Packet

variable {length : Nat} (h : data.StartsWith (f.header length))
include h

theorem etherType_eq : etherType data = 0x0800 :=
  readUint16_of_startsWith h.left.left.left.left.left.left.left.left.left.left.right

theorem firstByte_eq : data 14 = UInt8.ofNat (0x40 + f.ihl) :=
  h.left.left.left.left.left.left.left.left.left.right 0 (by decide)

theorem version_eq : version data = 4 := by
  rw [version, firstByte_eq h]
  exact (version_ihl f.ihl_range.2).1

theorem headerLength_eq : headerLength data = 4 * f.ihl := by
  rw [headerLength, firstByte_eq h]
  exact (version_ihl f.ihl_range.2).2

theorem totalLength_eq : totalLength data = (4 * f.ihl + 8 + length) % 2 ^ 16 := by
  rw [totalLength, readUint16_of_startsWith
    h.left.left.left.left.left.left.left.left.right, UInt16.toNat_ofNat']

theorem protocol_eq : protocol data = 17 :=
  h.left.left.left.left.left.left.right 0 (by decide)

theorem udp_eq : udp data = 12 + 2 + 2 + 2 + 5 + 1 + 10 + (4 * f.ihl - 20) := by
  have := f.ihl_range
  rw [udp, headerLength_eq h]
  omega

theorem destinationPort_eq : destinationPort data = 9000 := by
  rw [destinationPort, udp_eq h]
  exact readUint16_of_startsWith h.left.left.right

theorem udpLength_eq : udpLength data = (8 + length) % 2 ^ 16 := by
  rw [udpLength, udp_eq h, readUint16_of_startsWith h.left.right, UInt16.toNat_ofNat']

end Fields

open Packet in
/-- The receive loop submits what is behind the headers, for the length of the message. -/
theorem receive_eq {length packetLength : Nat} (h : data.StartsWith (f.header length))
    (hlength : length + (4 * f.ihl - 20) ≤ 65507) (hpacket : 22 + 4 * f.ihl ≤ packetLength) :
    (Receiver.receive true data packetLength).run.1 = some ⟨22 + 4 * f.ihl, length⟩ := by
  have hihl := f.ihl_range
  have htotal : totalLength data = 4 * f.ihl + 8 + length := by
    rw [totalLength_eq h]
    omega
  have hudp : udpLength data - 8 = length := by
    rw [udpLength_eq h]
    omega
  have hstart : udp data + 8 = 22 + 4 * f.ihl := by
    rw [udp_eq h]
    omega
  have hparse : EthernetParser.parse ⟨0, packetLength⟩ = some 0 := if_neg (by
    show ¬ packetLength < 14
    omega)
  have haccepted : ipv4Accepted data (packetLength - 14) := by
    refine ⟨version_eq h, ?_⟩
    rw [headerLength_eq h]
    omega
  have hdatagram : ¬ totalLength data - headerLength data < 8 := by
    rw [htotal, headerLength_eq h]
    omega
  have hudpLoop : Lib.Within (fun _ => True) (Receiver.receiveUdp true data
      ⟨udp data, totalLength data - headerLength data⟩)
        (· = some ⟨22 + 4 * f.ihl, length⟩) := by
    refine (within_receiveUdp true _).mpr ⟨fun hlt => absurd hlt hdatagram, fun _ => ?_⟩
    refine ⟨⟨trivial, trivial⟩, fun hport => absurd (destinationPort_eq h) hport, fun _ => ?_⟩
    rw [hudp, hstart]
    exact ⟨⟨trivial, trivial⟩, rfl⟩
  have hipv4 : Lib.Within (fun _ => True) (Receiver.receiveIPv4 true data
      ⟨14, packetLength - 14⟩) (· = some ⟨22 + 4 * f.ihl, length⟩) := by
    refine (within_receiveIPv4 true (by omega)).mpr
      ⟨trivial, fun hrefused => absurd haccepted hrefused, fun _ => ?_⟩
    exact ⟨trivial, fun hprotocol => absurd (protocol_eq h) hprotocol,
      fun _ => ⟨⟨trivial, trivial⟩, hudpLoop⟩⟩
  have hreceive : Lib.Within (fun _ => True) (Receiver.receive true data packetLength)
      (· = some ⟨22 + 4 * f.ihl, length⟩) := by
    unfold Receiver.receive
    simp only [hparse, Lib.within_bind, within_etherType, Lib.within_ite, Lib.within_pure]
    exact ⟨⟨trivial, trivial⟩, fun hether => absurd (etherType_eq h) hether, fun _ => hipv4⟩
  exact hreceive.2

theorem length_bytes (f : UdpFrame) (message : List UInt8) :
    (f.bytes message).length = 22 + 4 * f.ihl + message.length + f.padding.length := by
  rw [bytes, List.length_append, List.length_append, length_header]

theorem startsWith_header (f : UdpFrame) (message : List UInt8) :
    (Bytes.ofList (f.bytes message)).StartsWith (f.header message.length) := by
  rw [bytes, List.append_assoc]
  exact startsWith_append _ _

/-- The message is behind the headers, whatever padding follows. -/
theorem agreeFor_message (f : UdpFrame) (message : List UInt8) :
    AgreeFor message.length ((Bytes.ofList (f.bytes message)).drop (22 + 4 * f.ihl))
      (.ofList message) := by
  rw [bytes, List.append_assoc, ← f.length_header message.length, drop_ofList_append]
  exact agreeFor_ofList_append message f.padding

end UdpFrame

/-- The receive loop finds the message in any frame that was built around it, and an
`ItchUdpPayloadSink` does with it what the replay of a file does. -/
theorem live_as_replayed {σ : Type} (submit : MarketDataEvent → σ → Bool × σ) (sink : σ)
    (f : UdpFrame) (message rest : List UInt8) (hne : message ≠ [])
    (hlength : message.length + (4 * f.ihl - 20) ≤ 65507) (data : Bytes)
    (hdata : AgreeFor (f.bytes message).length data (.ofList (f.bytes message))) :
    ∃ payload,
      (Receiver.receive true data (f.bytes message).length).run.1 = some payload ∧
      (copyN (data.drop payload.start) payload.size).toList = message ∧
      (ItchReplayReader.init (frame message ++ rest)).readNext =
        (some message, .init rest) ∧
      ItchUdpPayloadSink.submit submit data payload sink =
        ItchReplayDispatcher.dispatch submit (.ofList message) message.length sink := by
  have hbytes := f.length_bytes message
  have hihl := f.ihl_range
  have hheader : data.StartsWith (f.header message.length) :=
    (f.startsWith_header message).of_agree (hdata.mono (by omega))
  have hmessage : AgreeFor message.length (data.drop (22 + 4 * f.ihl)) (.ofList message) := by
    intro i hi
    exact (hdata.drop (22 + 4 * f.ihl) (by omega) i hi).trans (f.agreeFor_message message i hi)
  refine ⟨_, UdpFrame.receive_eq hheader hlength (by omega), ?_, ?_, ?_⟩
  · rw [copyN_congr hmessage, toList_copyN_ofList]
  · exact ItchReplayReader.readNext_frame (List.length_pos_iff.mpr hne) (by omega) rest
  · exact ItchReplayDispatcher.dispatch_congr submit hmessage sink

/-- An Order Delete with options in the IPv4 header and with padding behind it. -/
def paddedFrame : UdpFrame where
  macAddresses := Vector.replicate 12 0
  ihl := 6
  ihl_range := by decide
  dscpEcn := 0
  fragment := #v[0, 0, 0, 0, 64]
  addresses := Vector.replicate 10 0
  options := Vector.replicate 4 1
  sourcePort := #v[0, 0]
  checksum := #v[0, 0]
  padding := [0, 0, 0]

theorem live_as_replayed_padded :
    ∃ payload,
      (Receiver.receive true (.ofList (paddedFrame.bytes (deleteMessage 0)))
        (paddedFrame.bytes (deleteMessage 0)).length).run.1 = some payload ∧
      (copyN ((Bytes.ofList (paddedFrame.bytes (deleteMessage 0))).drop payload.start)
        payload.size).toList = deleteMessage 0 ∧
      (ItchReplayReader.init (frame (deleteMessage 0) ++ [])).readNext =
        (some (deleteMessage 0), .init []) ∧
      ItchUdpPayloadSink.submit (fun event events => (true, events ++ [event]))
          (.ofList (paddedFrame.bytes (deleteMessage 0))) payload [] =
        ItchReplayDispatcher.dispatch (fun event events => (true, events ++ [event]))
          (.ofList (deleteMessage 0)) (deleteMessage 0).length [] :=
  live_as_replayed _ [] paddedFrame (deleteMessage 0) [] (by decide) (by decide) _
    (fun _ _ => rfl)

end OpenHft
