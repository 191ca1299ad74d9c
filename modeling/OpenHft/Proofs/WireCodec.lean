import OpenHft.Model.Wire

/-!
# What is written is what is read

The readers and the writers of the wire format were written separately, and the reader of
64 bits is a loop where that of 32 bits is not. Each reader gives back the value whose
bytes stand where it reads, and writing what was read gives back the bytes.
-/

namespace OpenHft

/-- The bytes at the address are these. -/
def Bytes.StartsWith {n : Nat} (source : Bytes) (bytes : Vector UInt8 n) : Prop :=
  ∀ (i : Nat) (h : i < n), source i = bytes[i]

namespace Bytes

variable {source : Bytes} {n m : Nat} {u : Vector UInt8 n} {v : Vector UInt8 m}

theorem startsWith_ofList (bytes : Vector UInt8 n) :
    (Bytes.ofList bytes.toList).StartsWith bytes := by
  intro i hi
  simp [Bytes.ofList, hi]

theorem startsWith_append (bytes : Vector UInt8 n) (extra : List UInt8) :
    (Bytes.ofList (bytes.toList ++ extra)).StartsWith bytes := by
  intro i hi
  have hlength : i < bytes.toList.length := by simpa using hi
  rw [Bytes.ofList, List.getD_eq_getElem?_getD, List.getElem?_append_left hlength,
    ← List.getD_eq_getElem?_getD]
  exact startsWith_ofList bytes i hi

theorem StartsWith.left (h : source.StartsWith (u ++ v)) : source.StartsWith u := by
  intro i hi
  rw [h i (by omega), Vector.getElem_append_left hi]

theorem StartsWith.right (h : source.StartsWith (u ++ v)) : (source.drop n).StartsWith v := by
  intro i hi
  have hsub : n + i - n = i := by omega
  rw [Bytes.drop, h (n + i) (by omega), Vector.getElem_append_right (by omega) (by omega)]
  simp only [hsub]

theorem StartsWith.copyN (h : source.StartsWith v) : copyN source m = v := by
  apply Vector.ext
  intro i hi
  rw [OpenHft.copyN, Vector.getElem_ofFn]
  exact h i hi

theorem startsWith_copyN (source : Bytes) (n : Nat) :
    source.StartsWith (OpenHft.copyN source n) := by
  intro i hi
  rw [OpenHft.copyN, Vector.getElem_ofFn]

theorem StartsWith.append (hu : source.StartsWith u) (hv : (source.drop n).StartsWith v) :
    source.StartsWith (u ++ v) := by
  intro i hi
  by_cases hin : i < n
  · rw [Vector.getElem_append_left hin]
    exact hu i hin
  · have hle : n ≤ i := Nat.le_of_not_lt hin
    have hbyte := hv (i - n) (by omega)
    rw [Bytes.drop, Nat.add_sub_cancel' hle] at hbyte
    rw [Vector.getElem_append_right (by omega) hle]
    exact hbyte

/-- So many bytes are those of one vector only. -/
theorem StartsWith.unique {u' : Vector UInt8 n} (h : source.StartsWith u)
    (h' : source.StartsWith u') : u = u' := by
  apply Vector.ext
  intro i hi
  rw [← h i hi, h' i hi]

/-- The first `n` bytes are the same. -/
def AgreeFor (n : Nat) (source source' : Bytes) : Prop := ∀ i, i < n → source i = source' i

variable {source' : Bytes}

theorem AgreeFor.mono (h : AgreeFor n source source') (hle : m ≤ n) :
    AgreeFor m source source' :=
  fun i hi => h i (Nat.lt_of_lt_of_le hi hle)

theorem AgreeFor.drop (h : AgreeFor n source source') (offset : Nat) {k : Nat}
    (hle : offset + k ≤ n) : AgreeFor k (source.drop offset) (source'.drop offset) :=
  fun i hi => h (offset + i) (by omega)

theorem StartsWith.of_agree (h : source'.StartsWith u) (hagree : AgreeFor n source source') :
    source.StartsWith u :=
  fun i hi => (hagree i hi).trans (h i hi)

theorem drop_ofList_append (l l' : List UInt8) :
    (Bytes.ofList (l ++ l')).drop l.length = .ofList l' := by
  funext i
  rw [Bytes.drop, Bytes.ofList, Bytes.ofList, List.getD_eq_getElem?_getD,
    List.getElem?_append_right (Nat.le_add_right _ i), Nat.add_sub_cancel_left,
    ← List.getD_eq_getElem?_getD]

theorem agreeFor_ofList_append (l l' : List UInt8) :
    AgreeFor l.length (.ofList (l ++ l')) (.ofList l) := by
  intro i hi
  simp [Bytes.ofList, List.getElem?_append_left hi]

end Bytes

/-- A buffer copied as a whole. -/
theorem toList_copyN_ofList (l : List UInt8) : (copyN (.ofList l) l.length).toList = l := by
  apply List.ext_getElem
  · rw [Vector.length_toList]
  · intro i hi hi'
    simp [copyN, Bytes.ofList]

/-! ## Reading what was written -/

theorem readUint16_of_startsWith {source : Bytes} {value : UInt16}
    (h : source.StartsWith (writeUint16 value)) : readUint16 source = value := by
  have h₀ : source 0 = (value >>> 8).toUInt8 := h 0 (by decide)
  have h₁ : source 1 = value.toUInt8 := h 1 (by decide)
  have h8 : (UInt16.toBitVec 8 % 16).toNat = 8 := by decide
  rw [readUint16, h₀, h₁]
  apply UInt16.toBitVec_inj.mp
  simp only [UInt16.toBitVec_or, UInt16.toBitVec_shiftLeft, UInt8.toBitVec_toUInt16,
    UInt16.toBitVec_toUInt8, UInt16.toBitVec_shiftRight, BitVec.shiftLeft_eq',
    BitVec.ushiftRight_eq', h8]
  apply BitVec.eq_of_getLsbD_eq
  intro i hi
  simp only [BitVec.getLsbD_or, BitVec.getLsbD_shiftLeft, BitVec.getLsbD_setWidth,
    BitVec.getLsbD_ushiftRight]
  grind

theorem readUint32_of_startsWith {source : Bytes} {value : UInt32}
    (h : source.StartsWith (writeUint32 value)) : readUint32 source = value := by
  have h₀ : source 0 = (value >>> 24).toUInt8 := h 0 (by decide)
  have h₁ : source 1 = (value >>> 16).toUInt8 := h 1 (by decide)
  have h₂ : source 2 = (value >>> 8).toUInt8 := h 2 (by decide)
  have h₃ : source 3 = value.toUInt8 := h 3 (by decide)
  have h8 : (UInt32.toBitVec 8 % 32).toNat = 8 := by decide
  have h16 : (UInt32.toBitVec 16 % 32).toNat = 16 := by decide
  have h24 : (UInt32.toBitVec 24 % 32).toNat = 24 := by decide
  rw [readUint32, h₀, h₁, h₂, h₃]
  apply UInt32.toBitVec_inj.mp
  simp only [UInt32.toBitVec_or, UInt32.toBitVec_shiftLeft, UInt8.toBitVec_toUInt32,
    UInt32.toBitVec_toUInt8, UInt32.toBitVec_shiftRight, BitVec.shiftLeft_eq',
    BitVec.ushiftRight_eq', h8, h16, h24]
  apply BitVec.eq_of_getLsbD_eq
  intro i hi
  simp only [BitVec.getLsbD_or, BitVec.getLsbD_shiftLeft, BitVec.getLsbD_setWidth,
    BitVec.getLsbD_ushiftRight]
  grind

/-- The shift of a 64-bit word. -/
theorem shift_toNat {k : Nat} (hk : k < 64) : ((UInt64.ofNat k).toBitVec % 64).toNat = k := by
  rw [BitVec.toNat_umod, UInt64.toNat_toBitVec, UInt64.toNat_ofNat']
  show k % 2 ^ 64 % 64 = k
  omega

/-- The bits of a number with a byte put in behind it. -/
theorem getLsbD_behind (value : BitVec 64) (byte : BitVec 8) {i : Nat} (hi : i < 64) :
    (value <<< 8 ||| byte.setWidth 64).getLsbD i =
      if i < 8 then byte.getLsbD i else value.getLsbD (i - 8) := by
  rw [BitVec.getLsbD_or, BitVec.getLsbD_shiftLeft, BitVec.getLsbD_setWidth]
  split
  · next h => simp [h, hi]
  · next h =>
      have hbyte : byte.getLsbD i = false := BitVec.getLsbD_of_ge byte i (Nat.not_lt.mp h)
      simp [h, hi, hbyte]

/-- One round of the loop: the next byte goes in behind the bits read so far. -/
theorem join_byte (value : BitVec 64) (k : Nat) :
    (value >>> (k + 8)) <<< 8 ||| ((value >>> k).setWidth 8).setWidth 64 = value >>> k := by
  apply BitVec.eq_of_getLsbD_eq
  intro i hi
  rw [getLsbD_behind _ _ hi, BitVec.getLsbD_setWidth, BitVec.getLsbD_ushiftRight,
    BitVec.getLsbD_ushiftRight]
  split
  · next h => simp [h]
  · next h =>
      have hindex : k + 8 + (i - 8) = k + i := by omega
      rw [hindex]

theorem readUint64_loop {source : Bytes} {value : UInt64}
    (h : source.StartsWith (writeUint64 value)) {count : Nat} (hcount : count ≤ 8) :
    ((List.range count).foldl
      (fun (read : UInt64) index => read <<< 8 ||| (source index).toUInt64) 0).toBitVec =
        value.toBitVec >>> ((8 - count) * 8) := by
  induction count with
  | zero =>
      show (0 : BitVec 64) = value.toBitVec >>> 64
      exact (BitVec.ushiftRight_eq_zero (Nat.le_refl 64)).symm
  | succ count ih =>
      have hbyte : source count = (value >>> UInt64.ofNat ((7 - count) * 8)).toUInt8 := by
        rw [h count (by omega), writeUint64, Vector.getElem_ofFn]
      have hshift : (UInt64.toBitVec 8 % 64).toNat = 8 := by decide
      have hk : (8 - count) * 8 = (7 - count) * 8 + 8 := by omega
      have hk' : 8 - (count + 1) = 7 - count := by omega
      have hmod := shift_toNat (k := (7 - count) * 8) (by omega)
      rw [List.range_succ, List.foldl_append, List.foldl_cons, List.foldl_nil,
        UInt64.toBitVec_or, UInt64.toBitVec_shiftLeft, ih (by omega), hbyte]
      simp only [UInt8.toBitVec_toUInt64, UInt64.toBitVec_toUInt8,
        UInt64.toBitVec_shiftRight, BitVec.shiftLeft_eq', BitVec.ushiftRight_eq', hshift,
        hmod, hk, hk']
      exact join_byte _ _

theorem readUint64_of_startsWith {source : Bytes} {value : UInt64}
    (h : source.StartsWith (writeUint64 value)) : readUint64 source = value := by
  apply UInt64.toBitVec_inj.mp
  rw [readUint64, readUint64_loop h (Nat.le_refl 8)]
  rfl

/-! ## Writing what was read -/

/-- The bytes of a joined 16-bit number, from the most significant on. -/
theorem bytes_join16 (a b : BitVec 8) :
    ((a.setWidth 16 <<< 8 ||| b.setWidth 16) >>> 8).setWidth 8 = a ∧
      (a.setWidth 16 <<< 8 ||| b.setWidth 16).setWidth 8 = b := by
  constructor <;>
  · apply BitVec.eq_of_getLsbD_eq
    intro i hi
    simp only [BitVec.getLsbD_or, BitVec.getLsbD_shiftLeft, BitVec.getLsbD_setWidth,
      BitVec.getLsbD_ushiftRight]
    grind

theorem bytes_join32 (a b c d : BitVec 8) {joined : BitVec 32}
    (h : joined = a.setWidth 32 <<< 24 ||| b.setWidth 32 <<< 16 ||| c.setWidth 32 <<< 8 |||
      d.setWidth 32) :
    (joined >>> 24).setWidth 8 = a ∧ (joined >>> 16).setWidth 8 = b ∧
      (joined >>> 8).setWidth 8 = c ∧ joined.setWidth 8 = d := by
  subst h
  refine ⟨?_, ?_, ?_, ?_⟩ <;>
  · apply BitVec.eq_of_getLsbD_eq
    intro i hi
    simp only [BitVec.getLsbD_or, BitVec.getLsbD_shiftLeft, BitVec.getLsbD_setWidth,
      BitVec.getLsbD_ushiftRight]
    grind

theorem startsWith_readUint16 (source : Bytes) :
    source.StartsWith (writeUint16 (readUint16 source)) := by
  have h8 : (UInt16.toBitVec 8 % 16).toNat = 8 := by decide
  obtain ⟨h₀, h₁⟩ := bytes_join16 (source 0).toBitVec (source 1).toBitVec
  intro i hi
  apply UInt8.toBitVec_inj.mp
  match i, hi with
  | 0, _ =>
      show _ = (readUint16 source >>> 8).toUInt8.toBitVec
      rw [UInt16.toBitVec_toUInt8, UInt16.toBitVec_shiftRight, BitVec.ushiftRight_eq', h8]
      exact h₀.symm
  | 1, _ =>
      show _ = (readUint16 source).toUInt8.toBitVec
      rw [UInt16.toBitVec_toUInt8]
      exact h₁.symm

theorem startsWith_readUint32 (source : Bytes) :
    source.StartsWith (writeUint32 (readUint32 source)) := by
  have h8 : (UInt32.toBitVec 8 % 32).toNat = 8 := by decide
  have h16 : (UInt32.toBitVec 16 % 32).toNat = 16 := by decide
  have h24 : (UInt32.toBitVec 24 % 32).toNat = 24 := by decide
  have hjoined : (readUint32 source).toBitVec = (source 0).toBitVec.setWidth 32 <<< 24 |||
    (source 1).toBitVec.setWidth 32 <<< 16 ||| (source 2).toBitVec.setWidth 32 <<< 8 |||
      (source 3).toBitVec.setWidth 32 := rfl
  obtain ⟨h₀, h₁, h₂, h₃⟩ := bytes_join32 _ _ _ _ hjoined
  intro i hi
  apply UInt8.toBitVec_inj.mp
  match i, hi with
  | 0, _ =>
      show _ = (readUint32 source >>> 24).toUInt8.toBitVec
      rw [UInt32.toBitVec_toUInt8, UInt32.toBitVec_shiftRight, BitVec.ushiftRight_eq', h24, h₀]
  | 1, _ =>
      show _ = (readUint32 source >>> 16).toUInt8.toBitVec
      rw [UInt32.toBitVec_toUInt8, UInt32.toBitVec_shiftRight, BitVec.ushiftRight_eq', h16, h₁]
  | 2, _ =>
      show _ = (readUint32 source >>> 8).toUInt8.toBitVec
      rw [UInt32.toBitVec_toUInt8, UInt32.toBitVec_shiftRight, BitVec.ushiftRight_eq', h8, h₂]
  | 3, _ =>
      show _ = (readUint32 source).toUInt8.toBitVec
      rw [UInt32.toBitVec_toUInt8, h₃]

/-- What a round of the loop makes of the bytes read before. -/
theorem byte_behind (value : BitVec 64) (byte : BitVec 8) {k : Nat} (hk : k + 16 ≤ 64) :
    ((value <<< 8 ||| byte.setWidth 64) >>> (k + 8)).setWidth 8 = (value >>> k).setWidth 8 := by
  apply BitVec.eq_of_getLsbD_eq
  intro i hi
  have hindex : k + 8 + i - 8 = k + i := by omega
  rw [BitVec.getLsbD_setWidth, BitVec.getLsbD_ushiftRight, getLsbD_behind _ _ (by omega),
    if_neg (by omega), hindex, BitVec.getLsbD_setWidth, BitVec.getLsbD_ushiftRight]

theorem byte_last (value : BitVec 64) (byte : BitVec 8) :
    ((value <<< 8 ||| byte.setWidth 64) >>> 0).setWidth 8 = byte := by
  apply BitVec.eq_of_getLsbD_eq
  intro i hi
  rw [BitVec.getLsbD_setWidth, BitVec.getLsbD_ushiftRight, getLsbD_behind _ _ (by omega),
    if_pos (by omega), Nat.zero_add, decide_eq_true hi, Bool.true_and]

theorem readUint64_loop_bytes (source : Bytes) {count : Nat} (hcount : count ≤ 8) {index : Nat}
    (hindex : index < count) :
    (((List.range count).foldl
      (fun (read : UInt64) index => read <<< 8 ||| (source index).toUInt64) 0).toBitVec >>>
        ((count - 1 - index) * 8)).setWidth 8 = (source index).toBitVec := by
  have hshift : (UInt64.toBitVec 8 % 64).toNat = 8 := by decide
  induction count with
  | zero => exact absurd hindex (Nat.not_lt_zero index)
  | succ count ih =>
      rw [List.range_succ, List.foldl_append, List.foldl_cons, List.foldl_nil,
        UInt64.toBitVec_or, UInt64.toBitVec_shiftLeft, UInt8.toBitVec_toUInt64,
        BitVec.shiftLeft_eq', hshift]
      rcases Nat.lt_succ_iff_lt_or_eq.mp hindex with hlt | rfl
      · have hk : (count + 1 - 1 - index) * 8 = (count - 1 - index) * 8 + 8 := by omega
        rw [hk, byte_behind _ _ (by omega)]
        exact ih (by omega) hlt
      · have hk : (index + 1 - 1 - index) * 8 = 0 := by omega
        rw [hk, byte_last]

theorem startsWith_readUint64 (source : Bytes) :
    source.StartsWith (writeUint64 (readUint64 source)) := by
  intro index hindex
  have hmod := shift_toNat (k := (7 - index) * 8) (by omega)
  apply UInt8.toBitVec_inj.mp
  rw [writeUint64, Vector.getElem_ofFn, UInt64.toBitVec_toUInt8, UInt64.toBitVec_shiftRight,
    BitVec.ushiftRight_eq', hmod]
  exact (readUint64_loop_bytes source (Nat.le_refl 8) hindex).symm

/-! ## Reading the same bytes -/

section Agree

open Bytes

variable {source source' : Bytes}

theorem readUint16_congr (h : AgreeFor 2 source source') :
    readUint16 source = readUint16 source' :=
  readUint16_of_startsWith ((startsWith_readUint16 source').of_agree h)

theorem readUint32_congr (h : AgreeFor 4 source source') :
    readUint32 source = readUint32 source' :=
  readUint32_of_startsWith ((startsWith_readUint32 source').of_agree h)

theorem readUint64_congr (h : AgreeFor 8 source source') :
    readUint64 source = readUint64 source' :=
  readUint64_of_startsWith ((startsWith_readUint64 source').of_agree h)

theorem copyN_congr {n : Nat} (h : AgreeFor n source source') :
    copyN source n = copyN source' n :=
  ((startsWith_copyN source' n).of_agree h).copyN

end Agree

end OpenHft
