import OpenHft.Model.Itch
import OpenHft.Spec.ItchMessage

/-!
# The dispatcher reads the layout

For every message the dispatcher submits the one event that the layout of its type
describes, and nothing if the type is unknown or the message is too short. That it looks
at no byte behind the fields then needs no further look at the code: the event is
determined by the layout, and the layout ends where the kind's struct does.
-/

namespace OpenHft

open ItchReplayDispatcher

/-! ## The readers and the numbers on the wire

Writing gives back the bytes that were read, so the number that the bytes stand for is to be
found of written bytes only. -/

theorem bigEndian_writeUint32 (value : UInt32) :
    bigEndian (writeUint32 value).toList = value.toNat := by
  have hlt := value.toNat_lt
  have h8 : UInt32.toNat 8 % 32 = 8 := rfl
  have h16 : UInt32.toNat 16 % 32 = 16 := rfl
  have h24 : UInt32.toNat 24 % 32 = 24 := rfl
  simp only [bigEndian, writeUint32, Vector.toList_mk, List.foldl_cons, List.foldl_nil,
    UInt32.toNat_toUInt8, UInt32.toNat_shiftRight, Nat.shiftRight_eq_div_pow, h8, h16, h24]
  omega

theorem shiftedByte_toNat (value : UInt64) {k : Nat} (hk : k < 64) :
    (value >>> UInt64.ofNat k).toUInt8.toNat = value.toNat / 2 ^ k % 256 := by
  have hmod : (UInt64.ofNat k).toNat % 64 = k := by
    rw [UInt64.toNat_ofNat']
    omega
  rw [UInt64.toNat_toUInt8, UInt64.toNat_shiftRight, hmod, Nat.shiftRight_eq_div_pow]

/-- The first bytes of a 64-bit number stand for what is left of it above the others. -/
theorem bigEndian_front (value : UInt64) {count : Nat} (hcount : count ≤ 8) :
    bigEndian ((List.range count).map fun index =>
      (value >>> UInt64.ofNat ((7 - index) * 8)).toUInt8) =
        value.toNat / 2 ^ ((8 - count) * 8) := by
  induction count with
  | zero => exact (Nat.div_eq_of_lt value.toNat_lt).symm
  | succ count ih =>
      have hk : (8 - count) * 8 = (7 - count) * 8 + 8 := by omega
      have hk' : 8 - (count + 1) = 7 - count := by omega
      rw [List.range_succ, List.map_append, List.map_singleton, bigEndian_concat,
        ih (by omega), shiftedByte_toNat value (by omega), hk, hk', Nat.pow_add,
        ← Nat.div_div_eq_div_mul]
      exact Nat.div_add_mod _ 256

theorem bigEndian_writeUint64 (value : UInt64) :
    bigEndian (writeUint64 value).toList = value.toNat :=
  (bigEndian_front value (Nat.le_refl 8)).trans (Nat.div_one _)

theorem readUint32_value (source : Bytes) :
    (readUint32 source).toNat = bigEndian (copyN source 4).toList := by
  rw [(startsWith_readUint32 source).copyN, bigEndian_writeUint32]

theorem readUint64_value (source : Bytes) :
    (readUint64 source).toNat = bigEndian (copyN source 8).toList := by
  rw [(startsWith_readUint64 source).copyN, bigEndian_writeUint64]

/-- A 32-bit price is never negative as a `Price`. -/
theorem toPrice_toInt (price : UInt32) : (toPrice price).toInt = price.toNat := by
  have hlt := price.toNat_lt
  have hwide : (toPrice price).toBitVec = price.toBitVec.setWidth 64 := rfl
  rw [← Int64.toInt_toBitVec, hwide, BitVec.toInt_eq_toNat_of_lt]
  · rw [BitVec.toNat_setWidth]
    show ((price.toNat % 2 ^ 64 : Nat) : Int) = _
    omega
  · rw [BitVec.toNat_setWidth]
    show 2 * (price.toNat % 2 ^ 64) < 2 ^ 64
    omega

theorem toPrice_value (source : Bytes) :
    (toPrice (readUint32 source)).toInt = bigEndian (copyN source 4).toList := by
  rw [toPrice_toInt, readUint32_value]

theorem isBuy_iff (message : Bytes) : (AddOrderMapper.fromWire message).isBuy = true ↔
    (⟨19, 1⟩ : WireField).bytes message = ['B'.toUInt8] := by
  have hbytes : (⟨19, 1⟩ : WireField).bytes message = [message 19] := rfl
  rw [hbytes, List.singleton_inj]
  exact beq_iff_eq

/-! ## One message, one event -/

variable {message : Bytes} {length : Nat} {layout : ItchLayout}

theorem event_describes (hlayout : itchLayout (message 0) = some layout)
    (hlength : layout.size ≤ length) :
    ∃ event, ItchReplayDispatcher.event message length = some event ∧
      layout.Describes message event := by
  have hpos : length ≠ 0 := by
    have := (itchLayout_fits hlayout).pos
    omega
  rw [itchLayout] at hlayout
  rw [ItchReplayDispatcher.event, if_neg hpos]
  -- the branches of the table are those of the `switch`
  split_ifs at hlayout ⊢
  all_goals
    cases hlayout
    refine ⟨_, congrArg _ (if_neg (Nat.not_lt.mpr hlength)), ?_⟩
  · exact
      { type := rfl, orderId := readUint64_value _, newOrderId := rfl, accountId := rfl,
        side := by simpa using isBuy_iff message
        symbol := rfl, price := toPrice_value _, quantity := readUint32_value _ }
  · exact
      { type := rfl, orderId := readUint64_value _, newOrderId := rfl, accountId := rfl,
        side := by simp
        symbol := rfl, price := rfl, quantity := readUint32_value _ }
  · exact
      { type := rfl, orderId := readUint64_value _, newOrderId := rfl, accountId := rfl,
        side := by simp
        symbol := rfl, price := rfl, quantity := rfl }
  · exact
      { type := rfl, orderId := readUint64_value _, newOrderId := rfl, accountId := rfl,
        side := by simp
        symbol := rfl, price := rfl, quantity := readUint32_value _ }
  · exact
      { type := rfl, orderId := readUint64_value _, newOrderId := readUint64_value _
        accountId := rfl
        side := by simp
        symbol := rfl, price := toPrice_value _, quantity := readUint32_value _ }

theorem event_none
    (hnone : ∀ layout, itchLayout (message 0) = some layout → length < layout.size) :
    ItchReplayDispatcher.event message length = none := by
  rw [ItchReplayDispatcher.event]
  split
  · rfl
  · simp only [itchLayout] at hnone
    split_ifs at hnone ⊢
    all_goals
      first
        | rfl
        | exact congrArg (Option.map _) (if_pos (hnone _ rfl))

/-- Only as many bytes as the kind has are looked at. -/
theorem event_of_agree {message' : Bytes} {length' : Nat} {event : MarketDataEvent}
    (hlayout : itchLayout (message 0) = some layout) (hlength : layout.size ≤ length')
    (hagree : Bytes.AgreeFor layout.size message message')
    (hdescribes : layout.Describes message event) :
    ItchReplayDispatcher.event message' length' = some event := by
  have hfits := itchLayout_fits hlayout
  rw [hagree 0 hfits.pos] at hlayout
  obtain ⟨event', hevent, hdescribes'⟩ := event_describes hlayout hlength
  rw [hevent, hdescribes'.unique (hdescribes.of_agree hfits hagree)]

/-- A message of one of the five kinds with all its fields is submitted as the event it
describes, whatever follows these; no other message is submitted. -/
theorem dispatch_grammar (message : Bytes) (length : Nat) :
    (∀ layout, itchLayout (message 0) = some layout → layout.size ≤ length →
      ∃ event, layout.Describes message event ∧
        ∀ (message' : Bytes) (length' : Nat), Bytes.AgreeFor layout.size message message' →
          layout.size ≤ length' → ∀ (σ : Type) (submit : MarketDataEvent → σ → Bool × σ)
            (sink : σ), dispatch submit message' length' sink = submit event sink) ∧
    ((∀ layout, itchLayout (message 0) = some layout → length < layout.size) →
      ∀ (σ : Type) (submit : MarketDataEvent → σ → Bool × σ) (sink : σ),
        dispatch submit message length sink = (false, sink)) := by
  constructor
  · intro layout hlayout hlength
    obtain ⟨event, -, hdescribes⟩ := event_describes hlayout hlength
    refine ⟨event, hdescribes, fun message' length' hagree hlength' σ submit sink => ?_⟩
    rw [dispatch, event_of_agree hlayout hlength' hagree hdescribes]
  · intro hnone σ submit sink
    rw [dispatch, event_none hnone]

end OpenHft
