import Mathlib.Algebra.Ring.Int.Defs
import Mathlib.Algebra.Ring.Nat
import Mathlib.Logic.Function.Basic

/-!
# The shared types: orders, levels, trades

The domain types of `orderbook/software` and the memory the book's pointers
point into. Machine integers keep their width: an id or an account is a
`UInt64`, a quantity a `UInt32`, a price a signed `Int64`.

Two kinds of pointer occur. An `Order*` is an address of the order memory
(`OrderPtr`), null being `none`; a `PriceLevel*` always points into one of the
two level arrays of the book, so it is the array and the index (`LevelPtr`).
The order memory itself is a function from addresses, because orders are owned
by a pool or by a caller and never by the book.
-/

namespace OpenHft

/-- `Side` -/
inductive Side where
  | buy
  | sell
  deriving DecidableEq, Repr, Inhabited

/-- The side an order on this side trades against. -/
def Side.opposite : Side → Side
  | .buy => .sell
  | .sell => .buy

theorem Side.opposite_ne (side : Side) : side.opposite ≠ side := by
  cases side <;> exact fun h => by cases h

theorem Side.eq_opposite {side side' : Side} (h : side' ≠ side) :
    side' = side.opposite := by
  cases side <;> cases side' <;> first | rfl | exact absurd rfl h

/-- `OrderId`, a `std::uint64_t`. Orders are numbered by the engine or by the feed. -/
abbrev OrderId := UInt64

/-- `Price`, a `std::int64_t` -/
abbrev Price := Int64

/-- `Quantity`, a `std::uint32_t` -/
abbrev Quantity := UInt32

/-- `AccountId`, a `std::uint64_t` -/
abbrev AccountId := UInt64

theorem Quantity.eq_zero_or_pos (q : Quantity) : q = 0 ∨ q > 0 := by
  rcases Nat.eq_zero_or_pos q.toNat with h | h
  · exact Or.inl (UInt32.toNat_inj.mp h)
  · exact Or.inr (UInt32.lt_iff_toNat_lt.mpr h)

theorem Quantity.sub_eq_zero_iff {a b : Quantity} : a - b = 0 ↔ a = b := by
  rw [← UInt32.toNat_inj, ← UInt32.toNat_inj, UInt32.toNat_sub, UInt32.toNat_zero]
  have := a.toNat_lt
  have := b.toNat_lt
  omega

/-- What two quantities trade is one of them, and not more than the other. -/
theorem Quantity.min_cases (a b : Quantity) :
    min a b = a ∧ a ≤ b ∨ min a b = b ∧ b < a := by
  show (if a ≤ b then a else b) = a ∧ a ≤ b ∨ (if a ≤ b then a else b) = b ∧ b < a
  split
  · next hle => exact Or.inl ⟨rfl, hle⟩
  · next hle => exact Or.inr ⟨rfl, UInt32.not_le.mp hle⟩

/-- What two quantities trade is no more than either. -/
theorem Quantity.min_le (a b : Quantity) : min a b ≤ a ∧ min a b ≤ b := by
  rcases Quantity.min_cases a b with ⟨h, hle⟩ | ⟨h, hlt⟩
  · rw [h]
    exact ⟨UInt32.le_refl a, hle⟩
  · rw [h]
    exact ⟨UInt32.le_of_lt hlt, UInt32.le_refl b⟩

theorem Quantity.min_zero (a : Quantity) : min a 0 = 0 :=
  UInt32.le_antisymm (Quantity.min_le a 0).2 UInt32.zero_le

/-- A quantity, counted for a buyer and against a seller. -/
def signedQuantity (side : Side) (quantity : Quantity) : Int :=
  match side with
  | .buy => quantity.toNat
  | .sell => -quantity.toNat

/-- `std::array<char, 8>`. -/
abbrev Symbol := Vector UInt8 8

/-- `ArrayOrderBook::MaxPriceLevels`. -/
def maxPriceLevels : Nat := 100000

/-- `ArrayOrderBook::BitsPerBitmapWord`. -/
def bitsPerBitmapWord : Nat := 64

/-- `ArrayOrderBook::BitmapWordCount`. -/
def bitmapWordCount : Nat :=
  (maxPriceLevels + bitsPerBitmapWord - 1) / bitsPerBitmapWord

/-- `DefaultOrderCapacity`, the same number in the book's index, the engine's
pool and the market-data consumer's pool. -/
def defaultOrderCapacity : Nat := 4096

/-- An address of the order memory. -/
abbrev OrderPtr := Nat

/-- A `PriceLevel*`: `bid_levels_` or `ask_levels_`, and the index there. -/
structure LevelPtr where
  side : Side
  index : Fin maxPriceLevels
  deriving DecidableEq

/-- An order with its links: the level it rests on, and its neighbours there. -/
structure Order where
  id : OrderId
  accountId : AccountId
  side : Side
  price : Price
  quantity : Quantity
  level : Option LevelPtr := none
  prev : Option OrderPtr := none
  next : Option OrderPtr := none

instance : Inhabited Order := ⟨⟨0, 0, .buy, 0, 0, none, none, none⟩⟩

/-- The memory that `Order*` pointers point into. -/
abbrev Heap := OrderPtr → Order

/-- A write to fields of the order at one address. -/
def Heap.modify (h : Heap) (p : OrderPtr) (f : Order → Order) : Heap :=
  Function.update h p (f (h p))

@[simp] theorem Heap.modify_self (h : Heap) (p : OrderPtr) (f : Order → Order) :
    h.modify p f p = f (h p) := Function.update_self _ _ _

theorem Heap.modify_of_ne (h : Heap) {p q : OrderPtr} (f : Order → Order)
    (hne : q ≠ p) : h.modify p f q = h q := Function.update_of_ne hne _ _

theorem Heap.modify_apply (h : Heap) (p q : OrderPtr) (f : Order → Order) :
    h.modify p f q = if q = p then f (h q) else h q := by
  by_cases hq : q = p
  · rw [if_pos hq, hq, Heap.modify_self]
  · rw [if_neg hq, Heap.modify_of_ne _ _ hq]

/-- The orders at a price, oldest first, as a doubly linked list. -/
structure PriceLevel where
  price : Price := 0
  head : Option OrderPtr := none
  tail : Option OrderPtr := none
  totalQuantity : Quantity := 0

/-- What the engine publishes. -/
structure Trade where
  sequence : UInt64
  buyOrderId : OrderId
  sellOrderId : OrderId
  buyAccountId : AccountId
  sellAccountId : AccountId
  price : Price
  quantity : Quantity
  deriving DecidableEq, Repr

/-- What a resting order is to the outside: the order without its links. -/
structure OrderData where
  id : OrderId
  accountId : AccountId
  side : Side
  price : Price
  quantity : Quantity
  deriving DecidableEq, Repr

/-- What is left without the links. -/
def Order.data (o : Order) : OrderData :=
  ⟨o.id, o.accountId, o.side, o.price, o.quantity⟩

@[simp] theorem Order.data_id (o : Order) : o.data.id = o.id := rfl
@[simp] theorem Order.data_accountId (o : Order) :
    o.data.accountId = o.accountId := rfl
@[simp] theorem Order.data_side (o : Order) : o.data.side = o.side := rfl
@[simp] theorem Order.data_price (o : Order) : o.data.price = o.price := rfl
@[simp] theorem Order.data_quantity (o : Order) :
    o.data.quantity = o.quantity := rfl

end OpenHft
