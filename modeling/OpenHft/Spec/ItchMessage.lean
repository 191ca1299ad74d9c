import OpenHft.Model.MarketData
import OpenHft.Proofs.WireCodec

/-!
# The layout of ITCH messages

What the packed structs of the five kinds say, as a table: which kind a type byte stands
for, how long a message of the kind is, and where in it the fields are that an event has.
An event belongs to a message if it has the fields that the kind carries, and the default
in every other.
-/

namespace OpenHft

/-- The number that bytes stand for, the most significant one first. -/
def bigEndian (bytes : List UInt8) : Nat :=
  bytes.foldl (fun value byte => 256 * value + byte.toNat) 0

theorem bigEndian_concat (bytes : List UInt8) (byte : UInt8) :
    bigEndian (bytes ++ [byte]) = 256 * bigEndian bytes + byte.toNat := by
  rw [bigEndian, List.foldl_append]
  rfl

/-- Where a field is. -/
structure WireField where
  offset : Nat
  size : Nat

namespace WireField

/-- The bytes of a field in a message. -/
def bytes (field : WireField) (message : Bytes) : List UInt8 :=
  (copyN (message.drop field.offset) field.size).toList

/-- They are a number, most significant byte first. -/
def value (field : WireField) (message : Bytes) : Nat := bigEndian (field.bytes message)

/-- The field is within the first `n` bytes. -/
def Within (n : Nat) (field : WireField) : Prop := field.offset + field.size ≤ n

theorem bytes_congr {field : WireField} {n : Nat} {message message' : Bytes}
    (h : field.Within n) (hagree : Bytes.AgreeFor n message message') :
    field.bytes message = field.bytes message' :=
  congrArg Vector.toList (copyN_congr (hagree.drop field.offset h))

end WireField

/-- The fields of a kind of message. -/
structure ItchLayout where
  type : MarketDataEventType
  size : Nat
  orderId : WireField
  newOrderId : Option WireField := none
  side : Option WireField := none
  symbol : Option WireField := none
  price : Option WireField := none
  quantity : Option WireField := none

/-- The kinds of message that make an event, by their first byte. -/
def itchLayout (type : UInt8) : Option ItchLayout :=
  if type = 'A'.toUInt8 then some
    { type := .addOrder, size := 36, orderId := ⟨11, 8⟩, side := some ⟨19, 1⟩,
      quantity := some ⟨20, 4⟩, symbol := some ⟨24, 8⟩, price := some ⟨32, 4⟩ }
  else if type = 'X'.toUInt8 then some
    { type := .cancelOrder, size := 23, orderId := ⟨11, 8⟩, quantity := some ⟨19, 4⟩ }
  else if type = 'D'.toUInt8 then some
    { type := .deleteOrder, size := 19, orderId := ⟨11, 8⟩ }
  else if type = 'E'.toUInt8 then some
    { type := .executeOrder, size := 31, orderId := ⟨11, 8⟩, quantity := some ⟨19, 4⟩ }
  else if type = 'U'.toUInt8 then some
    { type := .replaceOrder, size := 35, orderId := ⟨11, 8⟩, newOrderId := some ⟨19, 8⟩,
      quantity := some ⟨27, 4⟩, price := some ⟨31, 4⟩ }
  else none

namespace ItchLayout

/-- The event has the fields of the message, and nothing else. -/
structure Describes (layout : ItchLayout) (message : Bytes) (event : MarketDataEvent) :
    Prop where
  type : event.type = layout.type
  orderId : event.orderId.toNat = layout.orderId.value message
  newOrderId : event.newOrderId.toNat = layout.newOrderId.elim 0 (·.value message)
  accountId : event.accountId = 0
  side : event.side = .buy ↔ ∀ field ∈ layout.side, field.bytes message = ['B'.toUInt8]
  symbol : event.symbol.toList = layout.symbol.elim (List.replicate 8 0) (·.bytes message)
  price : event.price.toInt = layout.price.elim 0 (·.value message)
  quantity : event.quantity.toNat = layout.quantity.elim 0 (·.value message)

/-- No field goes beyond the size of the message. -/
structure Fits (layout : ItchLayout) : Prop where
  pos : 0 < layout.size
  orderId : layout.orderId.Within layout.size
  newOrderId : ∀ field ∈ layout.newOrderId, field.Within layout.size
  side : ∀ field ∈ layout.side, field.Within layout.size
  symbol : ∀ field ∈ layout.symbol, field.Within layout.size
  price : ∀ field ∈ layout.price, field.Within layout.size
  quantity : ∀ field ∈ layout.quantity, field.Within layout.size

variable {layout : ItchLayout} {message message' : Bytes} {event event' : MarketDataEvent}

/-- A message has one event. -/
theorem Describes.unique (h : layout.Describes message event)
    (h' : layout.Describes message event') : event = event' := by
  have hside : event.side = event'.side := by
    have hiff := h.side.trans h'.side.symm
    revert hiff
    cases event.side <;> cases event'.side <;> simp
  have hid := UInt64.toNat_inj.mp (h.orderId.trans h'.orderId.symm)
  have hnew := UInt64.toNat_inj.mp (h.newOrderId.trans h'.newOrderId.symm)
  have haccount := h.accountId.trans h'.accountId.symm
  have hsymbol := Vector.toList_inj.mp (h.symbol.trans h'.symbol.symm)
  have hprice := Int64.toInt_inj.mp (h.price.trans h'.price.symm)
  have hquantity := UInt32.toNat_inj.mp (h.quantity.trans h'.quantity.symm)
  cases event
  cases event'
  simp only [MarketDataEvent.mk.injEq]
  exact ⟨h.type.trans h'.type.symm, hid, hnew, haccount, hside, hsymbol, hprice, hquantity⟩

theorem elim_congr {α : Type} {field : Option WireField} {n : Nat} (default : α)
    (read : List UInt8 → α) (h : ∀ f ∈ field, f.Within n)
    (hagree : Bytes.AgreeFor n message message') :
    field.elim default (fun f => read (f.bytes message)) =
      field.elim default (fun f => read (f.bytes message')) := by
  cases field with
  | none => rfl
  | some f => exact congrArg read (WireField.bytes_congr (h f rfl) hagree)

/-- The bytes behind the fields have no part in it. -/
theorem Describes.of_agree (h : layout.Describes message event) (hfits : layout.Fits)
    (hagree : Bytes.AgreeFor layout.size message message') :
    layout.Describes message' event where
  type := h.type
  orderId := h.orderId.trans
    (congrArg bigEndian (WireField.bytes_congr hfits.orderId hagree))
  newOrderId := h.newOrderId.trans (elim_congr 0 bigEndian hfits.newOrderId hagree)
  accountId := h.accountId
  side := by
    rw [h.side]
    refine forall₂_congr fun field hfield => ?_
    rw [WireField.bytes_congr (hfits.side field hfield) hagree]
  symbol := h.symbol.trans (elim_congr _ id hfits.symbol hagree)
  price := h.price.trans
    (congrArg (Nat.cast : Nat → Int) (elim_congr 0 bigEndian hfits.price hagree))
  quantity := h.quantity.trans (elim_congr 0 bigEndian hfits.quantity hagree)

end ItchLayout

theorem itchLayout_fits {type : UInt8} {layout : ItchLayout}
    (h : itchLayout type = some layout) : layout.Fits := by
  rw [itchLayout] at h
  split_ifs at h
  all_goals
    cases h
    constructor <;> simp [WireField.Within]

end OpenHft
