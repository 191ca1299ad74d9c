import OpenHft.Model.Executions
import OpenHft.Proofs.WireCodec

/-!
# OUCH messages, there and back

An encoder lists the fields and the decoder reads them at offsets, so a round trip is the
fact that the offsets add up: `left` takes the last field off, `right` is that field at its
offset. Each decoder gives back what was encoded, up to the appendage length that the
encoder of Enter Orders does not write. The other way round `append` puts the fields that
were read together again.
-/

namespace OpenHft

variable {source : Bytes} {length : Nat}

/-- The byte of the side is one of two. -/
theorem side_of_byte (side : Side) :
    (if (if side = .buy then 'B'.toUInt8 else 'S'.toUInt8) = 'B'.toUInt8 then Side.buy
      else .sell) = side := by
  cases side <;> rfl

theorem decodeEnterOrder_encode {order : EnterOrder}
    (h : source.StartsWith (OuchEncoder.encode order)) (hlength : 47 ≤ length) :
    OuchDecoder.decodeEnterOrder source length = some { order with appendageLength := 0 } := by
  have hflags := h.left.left
  have hprice := hflags.left
  have hsymbol := hprice.left
  have hquantity := hsymbol.left
  have hside := hquantity.left
  have huserRefNum := hside.left
  have htype : source 0 = 'O'.toUInt8 := huserRefNum.left 0 (by decide)
  have hside5 : source 5 = if order.side = .buy then 'B'.toUInt8 else 'S'.toUInt8 :=
    hside.right 0 (by decide)
  have htif : source 26 = order.timeInForce := hflags.right 0 (by decide)
  have hdisplay : source 27 = order.display := hflags.right 1 (by decide)
  have hcapacity : source 28 = order.capacity := hflags.right 2 (by decide)
  have hiso : source 29 = order.isoEligibility := hflags.right 3 (by decide)
  have hcross : source 30 = order.crossType := hflags.right 4 (by decide)
  rw [OuchDecoder.decodeEnterOrder, if_neg (Nat.not_lt.mpr hlength), if_neg (not_not.mpr htype),
    readUint32_of_startsWith huserRefNum.right, hside5, side_of_byte,
    readUint32_of_startsWith hquantity.right, hsymbol.right.copyN,
    readUint64_of_startsWith hprice.right, htif, hdisplay, hcapacity, hiso, hcross,
    h.left.right.copyN, readUint16_of_startsWith h.right]

theorem accepted_type {accepted : Accepted}
    (h : source.StartsWith (AcceptedEncoder.encode accepted)) : source 0 = 'A'.toUInt8 :=
  h.left.left.left.left.left.left.left.left.left.left.left 0 (by decide)

theorem decodeAccepted_encode {accepted : Accepted}
    (h : source.StartsWith (AcceptedEncoder.encode accepted)) (hlength : 64 ≤ length) :
    OuchDecoder.decodeAccepted source length =
      if length < 64 + accepted.appendageLength.toNat then none else some accepted := by
  have hstate := h.left.left
  have hreference := hstate.left
  have hflags := hreference.left
  have hprice := hflags.left
  have hsymbol := hprice.left
  have hquantity := hsymbol.left
  have hside := hquantity.left
  have huserRefNum := hside.left
  have htimestamp := huserRefNum.left
  have hside13 : source 13 = if accepted.side = .buy then 'B'.toUInt8 else 'S'.toUInt8 :=
    hside.right 0 (by decide)
  have htif : source 34 = accepted.timeInForce := hflags.right 0 (by decide)
  have hdisplay : source 35 = accepted.display := hflags.right 1 (by decide)
  have hcapacity : source 44 = accepted.capacity := hstate.right 0 (by decide)
  have hiso : source 45 = accepted.isoEligibility := hstate.right 1 (by decide)
  have hcross : source 46 = accepted.crossType := hstate.right 2 (by decide)
  have horderState : source 47 = accepted.orderState := hstate.right 3 (by decide)
  rw [OuchDecoder.decodeAccepted, if_neg (Nat.not_lt.mpr hlength),
    if_neg (not_not.mpr (accepted_type h)),
    readUint64_of_startsWith htimestamp.right, readUint32_of_startsWith huserRefNum.right,
    hside13, side_of_byte, readUint32_of_startsWith hquantity.right, hsymbol.right.copyN,
    readUint64_of_startsWith hprice.right, htif, hdisplay,
    readUint64_of_startsWith hreference.right, hcapacity, hiso, hcross, horderState,
    h.left.right.copyN, readUint16_of_startsWith h.right]

/-- An Accepted is recognized when its appendage is there as well. -/
theorem dispatch_accepted {accepted : Accepted}
    (h : source.StartsWith (AcceptedEncoder.encode accepted)) (hlength : 64 ≤ length) :
    OuchResponseDispatcher.dispatch source length =
      if length < 64 + accepted.appendageLength.toNat then none
      else some (.accepted accepted) := by
  have hpos : length ≠ 0 := by omega
  rw [OuchResponseDispatcher.dispatch, if_neg hpos, if_pos (accepted_type h),
    decodeAccepted_encode h hlength, apply_ite (Option.map _), Option.map_none, Option.map_some]

theorem executed_type {executed : Executed}
    (h : source.StartsWith (ExecutedEncoder.encode executed)) : source 0 = 'E'.toUInt8 :=
  h.left.left.left.left.left.left.left 0 (by decide)

theorem decodeExecuted_encode {executed : Executed}
    (h : source.StartsWith (ExecutedEncoder.encode executed)) (hlength : 36 ≤ length) :
    OuchDecoder.decodeExecuted source length =
      if length < 36 + executed.appendageLength.toNat then none else some executed := by
  have hmatch := h.left
  have hflag := hmatch.left
  have hprice := hflag.left
  have hquantity := hprice.left
  have huserRefNum := hquantity.left
  have hflag25 : source 25 = executed.liquidityFlag := hflag.right 0 (by decide)
  rw [OuchDecoder.decodeExecuted, if_neg (Nat.not_lt.mpr hlength),
    if_neg (not_not.mpr (executed_type h)),
    readUint64_of_startsWith huserRefNum.left.right, readUint32_of_startsWith huserRefNum.right,
    readUint32_of_startsWith hquantity.right, readUint64_of_startsWith hprice.right, hflag25,
    readUint64_of_startsWith hmatch.right, readUint16_of_startsWith h.right]

theorem dispatch_executed {executed : Executed}
    (h : source.StartsWith (ExecutedEncoder.encode executed)) (hlength : 36 ≤ length) :
    OuchResponseDispatcher.dispatch source length =
      if length < 36 + executed.appendageLength.toNat then none
      else some (.executed executed) := by
  have htype := executed_type h
  have hpos : length ≠ 0 := by omega
  have hA : source 0 ≠ 'A'.toUInt8 := by
    rw [htype]
    decide
  have hJ : source 0 ≠ 'J'.toUInt8 := by
    rw [htype]
    decide
  rw [OuchResponseDispatcher.dispatch, if_neg hpos, if_neg hA, if_neg hJ, if_pos htype,
    decodeExecuted_encode h hlength, apply_ite (Option.map _), Option.map_none, Option.map_some]

/-- The answer of the exchange has no appendage. -/
theorem dispatch_accept (enterOrder : EnterOrder) (orderId : OrderId) :
    OuchResponseDispatcher.dispatch (.ofList
        (AcceptedEncoder.encode (ExchangeOuchHandler.accept enterOrder orderId)).toList) 64 =
      some (.accepted (ExchangeOuchHandler.accept enterOrder orderId)) :=
  (dispatch_accepted (Bytes.startsWith_ofList _) (Nat.le_refl 64)).trans
    (if_neg (Nat.lt_irrefl 64))

/-- Nor has what the listener reports about a trade. -/
theorem dispatch_execution (trade : Trade) (userRefNum : UserRefNum) :
    OuchResponseDispatcher.dispatch (.ofList (ExecutedEncoder.encode
        (ExchangeExecutionListener.executed trade userRefNum)).toList) 36 =
      some (.executed (ExchangeExecutionListener.executed trade userRefNum)) :=
  (dispatch_executed (Bytes.startsWith_ofList _) (Nat.le_refl 36)).trans
    (if_neg (Nat.lt_irrefl 36))

/-! ## Round trips -/

/-- Without an appendage the fixed part is the whole message. -/
theorem fixed_suffices (size : Nat) (appendageLength : UInt16) :
    size < size + appendageLength.toNat ↔ appendageLength ≠ 0 := by
  rw [Nat.lt_add_right_iff_pos, Nat.pos_iff_ne_zero, Ne, Ne, ← UInt16.toNat_inj]
  rfl

/-- Responses survive the way to the client when all bytes of them are there, and the
bytes behind them do not matter. -/
theorem OuchResponseDispatcher.dispatch_round_trip :
    (∀ (accepted : Accepted) (data : Bytes),
      data.StartsWith (AcceptedEncoder.encode accepted) →
        OuchResponseDispatcher.dispatch data 64 =
          (if accepted.appendageLength = 0 then some (.accepted accepted) else none) ∧
        ∀ extra, accepted.appendageLength.toNat ≤ extra →
          OuchResponseDispatcher.dispatch data (64 + extra) = some (.accepted accepted)) ∧
    (∀ (executed : Executed) (data : Bytes),
      data.StartsWith (ExecutedEncoder.encode executed) →
        OuchResponseDispatcher.dispatch data 36 =
          (if executed.appendageLength = 0 then some (.executed executed) else none) ∧
        ∀ extra, executed.appendageLength.toNat ≤ extra →
          OuchResponseDispatcher.dispatch data (36 + extra) = some (.executed executed)) := by
  refine ⟨fun accepted data h => ⟨?_, fun extra hextra => ?_⟩,
    fun executed data h => ⟨?_, fun extra hextra => ?_⟩⟩
  · rw [dispatch_accepted h (Nat.le_refl 64)]
    simp only [fixed_suffices, ite_not]
  · rw [dispatch_accepted h (Nat.le_add_right 64 extra), if_neg (by omega)]
  · rw [dispatch_executed h (Nat.le_refl 36)]
    simp only [fixed_suffices, ite_not]
  · rw [dispatch_executed h (Nat.le_add_right 36 extra), if_neg (by omega)]

/-- The byte that the side was read from. -/
theorem byte_of_side {byte : UInt8} (h : byte = 'B'.toUInt8 ∨ byte = 'S'.toUInt8) :
    (if (if byte = 'B'.toUInt8 then Side.buy else .sell) = .buy then 'B'.toUInt8
      else 'S'.toUInt8) = byte := by
  rcases h with rfl | rfl <;> rfl

/-- The bytes that an Enter Order was decoded from are its encoding, when they have one of
the two sides and no appendage. -/
theorem startsWith_encode {order : EnterOrder}
    (h : OuchDecoder.decodeEnterOrder source length = some order)
    (hside : source 5 = 'B'.toUInt8 ∨ source 5 = 'S'.toUInt8)
    (hnone : source 45 = 0 ∧ source 46 = 0) :
    source.StartsWith (OuchEncoder.encode order) := by
  unfold OuchDecoder.decodeEnterOrder at h
  split at h
  · cases h
  split at h
  · cases h
  next htype =>
    cases h
    have hO : source.StartsWith #v['O'.toUInt8] := by
      intro i hi
      obtain rfl : i = 0 := by omega
      exact not_not.mp htype
    have hS : (source.drop 5).StartsWith
        #v[if (if source 5 = 'B'.toUInt8 then Side.buy else .sell) = .buy then 'B'.toUInt8
          else 'S'.toUInt8] := by
      intro i hi
      obtain rfl : i = 0 := by omega
      exact (byte_of_side hside).symm
    have hflags : (source.drop 26).StartsWith
        #v[source 26, source 27, source 28, source 29, source 30] := by
      intro i hi
      match i, hi with
      | 0, _ | 1, _ | 2, _ | 3, _ | 4, _ => rfl
    have hlength : (source.drop 45).StartsWith (writeUint16 0) := by
      intro i hi
      match i, hi with
      | 0, _ => exact hnone.1
      | 1, _ => exact hnone.2
    exact ((((((((hO.append (startsWith_readUint32 _)).append hS).append
      (startsWith_readUint32 _)).append (Bytes.startsWith_copyN _ 8)).append
      (startsWith_readUint64 _)).append hflags).append (Bytes.startsWith_copyN _ 14)).append
      hlength)

/-- Encoding an Enter Order loses its appendage length and nothing else, and a message
without an appendage is the encoding of what it is decoded to. -/
theorem OuchEncoder.encode_round_trip :
    (∀ (order : EnterOrder) (data : Bytes), data.StartsWith (OuchEncoder.encode order) →
      OuchDecoder.decodeEnterOrder data 47 = some { order with appendageLength := 0 }) ∧
    (∀ data : Bytes, data 0 = 'O'.toUInt8 → data 5 = 'B'.toUInt8 ∨ data 5 = 'S'.toUInt8 →
      data 45 = 0 ∧ data 46 = 0 → ∃ order,
        OuchDecoder.decodeEnterOrder data 47 = some order ∧
        OuchEncoder.encode order = copyN data 47) ∧
    (∀ order order' : EnterOrder, OuchEncoder.encode order = OuchEncoder.encode order' →
      { order with appendageLength := 0 } = { order' with appendageLength := 0 }) := by
  refine ⟨fun order data h => decodeEnterOrder_encode h (Nat.le_refl 47),
    fun data htype hside hnone => ?_, fun order order' h => ?_⟩
  · obtain ⟨order, horder⟩ : ∃ order, OuchDecoder.decodeEnterOrder data 47 = some order := by
      rw [OuchDecoder.decodeEnterOrder, if_neg (Nat.lt_irrefl 47), if_neg (not_not.mpr htype)]
      exact ⟨_, rfl⟩
    exact ⟨order, horder,
      (startsWith_encode horder hside hnone).unique (Bytes.startsWith_copyN data 47)⟩
  · have hdecoded := decodeEnterOrder_encode (Bytes.startsWith_ofList (OuchEncoder.encode order))
      (Nat.le_refl 47)
    have hdecoded' := decodeEnterOrder_encode
      (Bytes.startsWith_ofList (OuchEncoder.encode order')) (Nat.le_refl 47)
    rw [h, hdecoded'] at hdecoded
    exact (Option.some.inj hdecoded).symm

end OpenHft
