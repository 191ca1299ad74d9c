import OpenHft.Model.Packet

/-!
# Which packets are read inside their bounds

Each parser checks the span it is given, so the question is what that span is. The
Ethernet and IPv4 parsers are given what was received, and nothing they examine lies
behind it. The UDP parser is given the length that the IPv4 header declares, and the
sink the length that the UDP header declares; neither is compared with what was
received. `within_receive` says exactly which packets are read inside their bounds.
-/

namespace OpenHft

open Lib

variable {ok : Nat → Prop} {data : Bytes}

/-! ## One rule for each parser -/

@[simp] theorem within_load8 {post : UInt8 → Prop} (offset : Nat) :
    Within ok (load8 data offset) post ↔ ok offset ∧ post (data offset) := by
  simp [load8]

@[simp] theorem within_load16 {post : UInt16 → Prop} (offset : Nat) :
    Within ok (load16 data offset) post ↔
      (ok offset ∧ ok (offset + 1)) ∧ post (readUint16 (data.drop offset)) := by
  simp [load16]

namespace Packet

/-! The fields of a packet, as the parsers find them. -/

/-- The type in the Ethernet header. -/
def etherType (data : Bytes) : UInt16 := readUint16 (data.drop 12)

/-- The version in the IP header. -/
def version (data : Bytes) : UInt8 := data 14 >>> 4

/-- The IPv4 header with its options, in bytes. -/
def headerLength (data : Bytes) : Nat := ((data 14 &&& 0x0F) * 4).toNat

/-- The length of the IP packet, by its header. -/
def totalLength (data : Bytes) : Nat := (readUint16 (data.drop 16)).toNat

/-- The protocol in the IP header. -/
def protocol (data : Bytes) : UInt8 := data 23

/-- Where the UDP header starts. -/
def udp (data : Bytes) : Nat := 14 + headerLength data

/-- The port in the UDP header. -/
def destinationPort (data : Bytes) : UInt16 := readUint16 (data.drop (udp data + 2))

/-- The length of the datagram, by its header. -/
def udpLength (data : Bytes) : Nat := (readUint16 (data.drop (udp data + 4))).toNat

/-- The IPv4 header is one that the parser accepts in what is left of the packet. -/
def ipv4Accepted (data : Bytes) (available : Nat) : Prop :=
  version data = 4 ∧ 20 ≤ headerLength data ∧ headerLength data ≤ available

/-- The loop takes the packet for a UDP datagram: all it has checked so far lies in
the first `14 + headerLength` bytes. -/
def ReachesUdp (data : Bytes) (packetLength : Nat) : Prop :=
  14 ≤ packetLength ∧ etherType data = 0x0800 ∧ 20 ≤ packetLength - 14 ∧
    ipv4Accepted data (packetLength - 14) ∧ protocol data = 17 ∧
      headerLength data + 8 ≤ totalLength data

instance (data : Bytes) (available : Nat) : Decidable (ipv4Accepted data available) :=
  inferInstanceAs (Decidable (_ ∧ _))

instance (data : Bytes) (packetLength : Nat) : Decidable (ReachesUdp data packetLength) :=
  inferInstanceAs (Decidable (_ ∧ _))

end Packet

open Packet

theorem within_etherType {post : UInt16 → Prop} :
    Within ok (EthernetParser.etherType data 0) post ↔
      (ok 12 ∧ ok 13) ∧ post (etherType data) :=
  within_load16 12

theorem within_version {post : UInt8 → Prop} :
    Within ok (IPv4Parser.version data 14) post ↔ ok 14 ∧ post (version data) := by
  simp [IPv4Parser.version, version]

theorem within_headerLengthBytes {post : UInt8 → Prop} :
    Within ok (IPv4Parser.headerLengthBytes data 14) post ↔
      ok 14 ∧ post ((data 14 &&& 0x0F) * 4) := by
  simp [IPv4Parser.headerLengthBytes]

theorem within_protocol {post : UInt8 → Prop} :
    Within ok (IPv4Parser.protocol data 14) post ↔ ok 23 ∧ post (protocol data) :=
  within_load8 23

theorem within_ipv4_payload {post : Nat → Prop} :
    Within ok (IPv4Parser.payload data 14) post ↔ ok 14 ∧ post (udp data) := by
  simp only [IPv4Parser.payload, within_bind, within_headerLengthBytes, within_pure]
  rfl

theorem within_destinationPort {post : UInt16 → Prop} :
    Within ok (UDPParser.destinationPort data (udp data)) post ↔
      (ok (udp data + 2) ∧ ok (udp data + 3)) ∧ post (destinationPort data) :=
  within_load16 (udp data + 2)

theorem within_ipv4_parse_short {post : Option Nat → Prop} {view : Span}
    (h : view.size < 20) : Within ok (IPv4Parser.parse data view) post ↔ post none := by
  simp [IPv4Parser.parse, IPv4Parser.headerSize, h]

/-- The first byte is all that the IPv4 parser examines. -/
theorem within_ipv4_parse {post : Option Nat → Prop} {available : Nat}
    (h : 20 ≤ available) :
    Within ok (IPv4Parser.parse data ⟨14, available⟩) post ↔
      ok 14 ∧ post (if ipv4Accepted data available then some 14 else none) := by
  have hsize : ¬available < 20 := by omega
  simp only [IPv4Parser.parse, IPv4Parser.headerSize, if_neg hsize, within_bind,
    within_version, within_headerLengthBytes, within_ite, within_pure, and_congr_right_iff]
  intro hok
  change (¬version data = 4 → post none) ∧ (¬¬version data = 4 → ok 14 ∧
    (headerLength data < 20 → post none) ∧ (¬headerLength data < 20 →
      (available < headerLength data → post none) ∧
        (¬available < headerLength data → post (some 14)))) ↔ _
  by_cases hv : version data = 4
  · by_cases hh : headerLength data < 20
    · simp [ipv4Accepted, hv, hh, hok, Nat.not_le.mpr hh]
    · by_cases ha : available < headerLength data
      · simp [ipv4Accepted, hv, hh, hok, ha, Nat.not_le.mpr ha]
      · simp [ipv4Accepted, hv, hh, hok, ha, Nat.not_lt.mp hh, Nat.not_lt.mp ha]
  · simp [ipv4Accepted, hv]

theorem within_payloadLength {post : Nat → Prop} :
    Within ok (IPv4Parser.payloadLength data 14) post ↔
      (ok 16 ∧ ok 17) ∧ ok 14 ∧ post (totalLength data - headerLength data) := by
  simp only [IPv4Parser.payloadLength, IPv4Parser.totalLength, within_bind, within_load16,
    within_headerLengthBytes, within_ite, within_pure, and_congr_right_iff]
  intro _ _
  change (totalLength data < headerLength data → post 0) ∧
    (¬totalLength data < headerLength data → post (totalLength data - headerLength data)) ↔ _
  by_cases hlt : totalLength data < headerLength data
  · simp [hlt, Nat.sub_eq_zero_of_le (Nat.le_of_lt hlt)]
  · simp [hlt]

theorem within_udp_payloadLength (post : Nat → Prop) :
    Within ok (UDPParser.payloadLength data (udp data)) (fun length => post length.toNat) ↔
      (ok (udp data + 4) ∧ ok (udp data + 5)) ∧ post (udpLength data - 8) := by
  simp only [UDPParser.payloadLength, UDPParser.headerSize, within_bind, within_load16,
    and_congr_right_iff]
  intro _
  change Within ok (if udpLength data < 8 then pure 0
    else pure (readUint16 (data.drop (udp data + 4)) - 8)) _ ↔ _
  by_cases hlt : udpLength data < 8
  · rw [if_pos hlt, within_pure, Nat.sub_eq_zero_of_le (Nat.le_of_lt hlt)]
    rfl
  · have hle : (8 : UInt16) ≤ readUint16 (data.drop (udp data + 4)) :=
      UInt16.le_iff_toNat_le.mpr (Nat.not_lt.mp hlt)
    rw [if_neg hlt, within_pure, UInt16.toNat_sub_of_le _ _ hle]
    rfl

/-! ## The loop body -/

theorem within_receiveUdp {post : Option Span → Prop} (hasSink : Bool) (available : Nat) :
    Within ok (Receiver.receiveUdp hasSink data ⟨udp data, available⟩) post ↔
      (available < 8 → post none) ∧
        (¬available < 8 → (ok (udp data + 2) ∧ ok (udp data + 3)) ∧
          (destinationPort data ≠ 9000 → post none) ∧
          (destinationPort data = 9000 → (ok (udp data + 4) ∧ ok (udp data + 5)) ∧
            post (if hasSink then some ⟨udp data + 8, udpLength data - 8⟩ else none))) := by
  by_cases h : available < 8
  · simp [Receiver.receiveUdp, UDPParser.parse, UDPParser.headerSize, h]
  · have hparse : UDPParser.parse ⟨udp data, available⟩ = some (udp data) := if_neg h
    have hsink (length : UInt16) : Within ok (if hasSink = true
          then pure (some ⟨udp data + 8, length.toNat⟩) else pure none) post ↔
        post (if hasSink = true then some ⟨udp data + 8, length.toNat⟩ else none) := by
      cases hasSink <;> simp
    simp only [Receiver.receiveUdp, hparse, UDPParser.payload, UDPParser.headerSize,
      within_bind, within_destinationPort, within_ite, within_pure, h, not_false_eq_true,
      true_implies, false_implies, true_and, hsink, ne_eq, not_not]
    rw [within_udp_payloadLength fun length =>
      post (if hasSink = true then some ⟨udp data + 8, length⟩ else none)]

theorem within_receiveIPv4 {post : Option Span → Prop} (hasSink : Bool) {available : Nat}
    (h : 20 ≤ available) :
    Within ok (Receiver.receiveIPv4 hasSink data ⟨14, available⟩) post ↔
      ok 14 ∧ (¬ipv4Accepted data available → post none) ∧
        (ipv4Accepted data available → ok 23 ∧ (protocol data ≠ 17 → post none) ∧
          (protocol data = 17 → (ok 16 ∧ ok 17) ∧
            Within ok (Receiver.receiveUdp hasSink data
              ⟨udp data, totalLength data - headerLength data⟩) post)) := by
  rw [Receiver.receiveIPv4, within_bind, within_ipv4_parse h, and_congr_right_iff]
  intro hok
  by_cases hacc : ipv4Accepted data available
  · rw [if_pos hacc]
    simp only [within_bind, within_protocol, within_ite, within_pure, within_ipv4_payload,
      within_payloadLength, hacc, hok, not_true_eq_false, true_implies, false_implies,
      true_and, ne_eq, not_not]
  · simp [hacc]

/-- Every byte of the span was received; an empty span has none. -/
def Span.Inside (span : Span) (length : Nat) : Prop :=
  ∀ i, span.start ≤ i → i < span.start + span.size → i < length

/-- Whatever is submitted is inside the packet. -/
def SubmitsInside (packetLength : Nat) (submitted : Option Span) : Prop :=
  ∀ span ∈ submitted, span.Inside packetLength

/-- All that is examined of the packet, and all that is submitted of it, was
received. -/
def StaysInside (hasSink : Bool) (data : Bytes) (packetLength : Nat) : Prop :=
  Within (· < packetLength) (Receiver.receive hasSink data packetLength)
    (SubmitsInside packetLength)

theorem submitsInside_none (packetLength : Nat) : SubmitsInside packetLength none :=
  fun _ h => by cases h

/-- The payload ends where the declared UDP length ends. -/
theorem submitsInside_payload {start udpLength packetLength : Nat} (hasSink : Bool) :
    SubmitsInside packetLength
        (if hasSink then some ⟨start + 8, udpLength - 8⟩ else none) ↔
      (hasSink = true → 8 < udpLength → start + udpLength ≤ packetLength) := by
  cases hasSink with
  | false => simp [submitsInside_none]
  | true =>
      simp only [SubmitsInside, if_true, Option.mem_some_iff, forall_eq', true_implies]
      constructor
      · intro hin hlt
        have := hin (start + udpLength - 1) (by simp only; omega) (by simp only; omega)
        omega
      · intro hle i hstart hend
        simp only at hstart hend
        have := hle (by omega)
        omega

/-- What has to be known of a datagram that the loop takes for UDP. -/
def DatagramInside (hasSink : Bool) (data : Bytes) (packetLength : Nat) : Prop :=
  udp data + 4 ≤ packetLength ∧
    (destinationPort data = 9000 → udp data + 6 ≤ packetLength ∧
      (hasSink = true → 8 < udpLength data → udp data + udpLength data ≤ packetLength))

theorem receiveUdp_inside_iff (hasSink : Bool) (packetLength : Nat) :
    Within (· < packetLength) (Receiver.receiveUdp hasSink data
        ⟨udp data, totalLength data - headerLength data⟩) (SubmitsInside packetLength) ↔
      (headerLength data + 8 ≤ totalLength data →
        DatagramInside hasSink data packetLength) := by
  rw [within_receiveUdp, submitsInside_payload]
  have hsize : ¬totalLength data - headerLength data < 8 ↔
      headerLength data + 8 ≤ totalLength data := by omega
  have hport : udp data + 2 < packetLength ∧ udp data + 3 < packetLength ↔
      udp data + 4 ≤ packetLength := by omega
  have hlength : udp data + 4 < packetLength ∧ udp data + 5 < packetLength ↔
      udp data + 6 ≤ packetLength := by omega
  simp only [submitsInside_none, implies_true, true_and, hsize, hport, hlength,
    DatagramInside]

/-- Everything that is examined before the UDP header was received. -/
theorem receive_inside_iff (hasSink : Bool) (data : Bytes) (packetLength : Nat) :
    StaysInside hasSink data packetLength ↔
      (ReachesUdp data packetLength → DatagramInside hasSink data packetLength) := by
  unfold StaysInside Receiver.receive ReachesUdp
  by_cases heth : packetLength < 14
  · simp [EthernetParser.parse, EthernetParser.headerSize, heth, Nat.not_le.mpr heth,
      submitsInside_none]
  have hparse : EthernetParser.parse ⟨0, packetLength⟩ = some 0 := if_neg heth
  have hbytes : 12 < packetLength ∧ 13 < packetLength := by omega
  simp only [hparse, within_bind, within_etherType, within_ite, within_pure,
    submitsInside_none, implies_true, true_and, hbytes, Nat.not_lt.mp heth, ne_eq, not_not,
    and_imp]
  refine forall_congr' fun _ => ?_
  change Within (· < packetLength)
    (Receiver.receiveIPv4 hasSink data ⟨14, packetLength - 14⟩) _ ↔ _
  by_cases hipv4 : packetLength - 14 < 20
  · simp [Receiver.receiveIPv4, within_ipv4_parse_short, hipv4, Nat.not_le.mpr hipv4,
      submitsInside_none]
  have hheader : 14 < packetLength ∧ 16 < packetLength ∧ 17 < packetLength ∧
      23 < packetLength := by omega
  simp only [within_receiveIPv4 hasSink (Nat.not_lt.mp hipv4), receiveUdp_inside_iff,
    submitsInside_none, hheader, Nat.not_lt.mp hipv4, implies_true, true_and, true_implies,
    and_self]

/-- A frame of 42 bytes to port 9000: the IPv4 header declares the 28 bytes that are
there, the UDP header declares 65535. -/
def overlongFrame : List UInt8 :=
  List.replicate 12 0 ++ [0x08, 0x00] ++
    [0x45, 0, 0, 28, 0, 0, 0, 0, 64, 17, 0, 0, 192, 168, 1, 10, 192, 168, 1, 20] ++
    [0, 0, 0x23, 0x28, 0xFF, 0xFF, 0, 0]

/-- The whole frame is submitted with 65527 bytes that were never received, and cut
behind its IPv4 header it is examined where nothing was received. -/
theorem overlong_frame_leaves_packet :
    overlongFrame.length = 42 ∧
      (Receiver.receive true (Bytes.ofList overlongFrame) 42).run.1 = some ⟨42, 65527⟩ ∧
      ¬StaysInside true (Bytes.ofList overlongFrame) 42 ∧
      36 ∈ (Receiver.receive true (Bytes.ofList (overlongFrame.take 34)) 34).run.2 ∧
      ¬StaysInside true (Bytes.ofList (overlongFrame.take 34)) 34 := by
  have hspan : (Receiver.receive true (Bytes.ofList overlongFrame) 42).run.1 =
      some ⟨42, 65527⟩ := by decide
  have hread : 36 ∈ (Receiver.receive true (Bytes.ofList (overlongFrame.take 34)) 34).run.2 := by
    decide
  refine ⟨rfl, hspan, fun h => ?_, hread, fun h => ?_⟩
  · have := h.2 ⟨42, 65527⟩ hspan 42 (by decide) (by decide)
    omega
  · have := h.1 36 hread
    omega

end OpenHft
