import Mathlib.Init

/-!
# Bytes on the wire

A `const std::uint8_t*` is the bytes from that address on; how many of them belong
to the buffer is a separate number, as in the source. Multi-byte fields are big
endian: `readUint16`, `readUint32` and `readUint64` of the OUCH decoder, and what
`fromBigEndian` makes of a packed field on a little-endian host.
-/

namespace OpenHft

/-- The bytes at and after an address. -/
abbrev Bytes := Nat → UInt8

/-- `data + offset`. -/
def Bytes.drop (data : Bytes) (offset : Nat) : Bytes := fun i => data (offset + i)

/-- The bytes of a buffer that holds `l`, zeros behind it. -/
def Bytes.ofList (l : List UInt8) : Bytes := fun i => l.getD i 0

/-- Two bytes, most significant first. -/
def readUint16 (source : Bytes) : UInt16 :=
  (source 0).toUInt16 <<< 8 ||| (source 1).toUInt16

/-- Four bytes, most significant first. -/
def readUint32 (source : Bytes) : UInt32 :=
  (source 0).toUInt32 <<< 24 ||| (source 1).toUInt32 <<< 16 |||
    (source 2).toUInt32 <<< 8 ||| (source 3).toUInt32

/-- Eight bytes, most significant first, by the loop of the source. -/
def readUint64 (source : Bytes) : UInt64 :=
  (List.range 8).foldl (fun value index => value <<< 8 ||| (source index).toUInt64) 0

/-- Two bytes, most significant first. -/
def writeUint16 (value : UInt16) : Vector UInt8 2 :=
  #v[(value >>> 8).toUInt8, value.toUInt8]

/-- Four bytes, most significant first. -/
def writeUint32 (value : UInt32) : Vector UInt8 4 :=
  #v[(value >>> 24).toUInt8, (value >>> 16).toUInt8, (value >>> 8).toUInt8, value.toUInt8]

/-- Eight bytes, most significant first, by the loop of the source. -/
def writeUint64 (value : UInt64) : Vector UInt8 8 :=
  Vector.ofFn fun index => (value >>> UInt64.ofNat ((7 - index.val) * 8)).toUInt8

/-- `std::copy_n` of `n` bytes. -/
def copyN (source : Bytes) (n : Nat) : Vector UInt8 n := Vector.ofFn fun i => source i

end OpenHft
