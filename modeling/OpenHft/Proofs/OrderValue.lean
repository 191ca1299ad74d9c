import OpenHft.Proofs.GatewayLimit

/-!
# The limit on the value of an order

`check` multiplies price and quantity as unsigned 64-bit numbers. The quantity is bounded
before that and the price is not, so the product of an order that has come this far may be
more than 2⁶⁴, and what is compared with the limit is then its remainder. Such an order
passes if its remainder is small. No state of the risk manager makes up for that: for every
quantity there is a position from which it leads to 0.
-/

namespace OpenHft

namespace OrderIntent

/-- Price times quantity, as integers. -/
def value (intent : OrderIntent) : Int := intent.price.toInt * intent.quantity.toNat

/-- The limits on an order by itself, its value an exact product. -/
structure WithinLimits (intent : OrderIntent) : Prop where
  price : 0 < intent.price
  quantity : 0 < intent.quantity
  size : intent.quantity ≤ RiskManager.maxOrderQuantity
  value : intent.value ≤ 10000000

/-- The order is too large by far, and the remainder of its value is not. -/
structure WrapsBelowLimit (intent : OrderIntent) : Prop where
  price : 0 < intent.price
  quantity : 0 < intent.quantity
  size : intent.quantity ≤ RiskManager.maxOrderQuantity
  wraps : 2 ^ 64 ≤ intent.value
  small : intent.value % 2 ^ 64 ≤ 10000000

end OrderIntent

namespace RiskManager

variable {r : RiskManager} {intent : OrderIntent}

/-- The product of the check is the value modulo 2⁶⁴. -/
theorem orderValue_toNat (h : 0 < intent.price) :
    ((intent.price.toUInt64 * intent.quantity.toUInt64).toNat : Int) =
      intent.value % 2 ^ 64 := by
  have hprice : (intent.price.toUInt64.toNat : Int) = intent.price.toInt := by
    rw [Int64.toNat_toUInt64_of_le (Int64.le_of_lt h),
      Int64.toInt_eq_toNatClampNeg (Int64.le_of_lt h)]
  rw [UInt64.toNat_mul, OrderIntent.value, ← hprice]
  simp

/-- A risk manager in which every account's position makes this order lead to 0. -/
def opposed (intent : OrderIntent) : RiskManager :=
  let quantity := Int64.ofNat intent.quantity.toNat
  ⟨fun _ => some (match intent.side with | .buy => -quantity | .sell => quantity)⟩

theorem movePosition_opposed (h : intent.quantity ≤ maxOrderQuantity) :
    movePosition ((opposed intent).position intent.accountId) intent = .ok 0 := by
  have hquantity := quantity_toInt64 h
  have hbound : intent.quantity.toNat ≤ 100000 := UInt32.le_iff_toNat_le.mp h
  have hneg : (-Int64.ofNat intent.quantity.toNat).toInt = -intent.quantity.toNat := by
    rw [Int64.toInt_neg, hquantity, bmod_of_small (by omega)]
  cases hside : intent.side with
  | buy =>
      simp only [movePosition, opposed, position, hside, addInt64, Option.getD_some, hneg,
        hquantity]
      rw [if_pos (by omega), Int64.add_left_neg]
  | sell =>
      simp only [movePosition, opposed, position, hside, subInt64, Option.getD_some, hquantity]
      rw [if_pos (by omega), Int64.sub_self]

end RiskManager

open RiskManager

/-- Only orders within the limits are accepted, whatever the positions, if and only if this is
not an order whose value wraps round to a small one. -/
theorem value_limit_exact_iff (intent : OrderIntent) :
    (∀ r : RiskManager, r.check intent = .ok .accepted → intent.WithinLimits) ↔
      ¬ intent.WrapsBelowLimit := by
  constructor
  · intro hall hwraps
    have hvalue := orderValue_toNat hwraps.price
    have hsmall : intent.price.toUInt64 * intent.quantity.toUInt64 ≤ maxOrderValue := by
      have := hwraps.small
      refine UInt64.le_iff_toNat_le.mpr ?_
      show _ ≤ 10000000
      omega
    have haccepted : (opposed intent).check intent = .ok .accepted := by
      rw [check_of_fits ⟨hwraps.price, hwraps.quantity, hwraps.size, hsmall⟩,
        movePosition_opposed hwraps.size]
      rfl
    have hexact := (hall _ haccepted).value
    have hlarge := hwraps.wraps
    omega
  · intro hfits r haccepted
    obtain ⟨hprice, hquantity, hsize, hvalue⟩ := fits_of_accepted haccepted
    have hremainder := orderValue_toNat hprice
    have hsmall : (intent.price.toUInt64 * intent.quantity.toUInt64).toNat ≤ 10000000 :=
      UInt64.le_iff_toNat_le.mp hvalue
    refine ⟨hprice, hquantity, hsize, ?_⟩
    by_contra hlarge
    refine hfits ⟨hprice, hquantity, hsize, ?_, by omega⟩
    by_contra hshort
    have hpos : 0 ≤ intent.value := by omega
    rw [Int.emod_eq_of_lt hpos (by omega)] at hremainder
    omega

/-- Sixteen at 2⁶⁰ are worth 2⁶⁴. -/
theorem wrapped_value_accepted :
    RiskManager.init.check { price := 2 ^ 60, quantity := 16 } = .ok .accepted ∧
      ¬ ({ price := 2 ^ 60, quantity := 16 } : OrderIntent).WithinLimits := by
  refine ⟨by decide +kernel, fun h => ?_⟩
  have hvalue := h.value
  exact absurd hvalue (by decide +kernel)

end OpenHft
