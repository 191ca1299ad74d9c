import OpenHft.Proofs.BookOps

/-!
# `reduceOrder` and `replaceOrder`

The two composed operations, each with every way it can end. `reduceOrder`
refuses, removes the order or lowers its quantity in place; `replaceOrder`
refuses, or cancels the original and adds the same object again under the new
id, price and quantity. The outcomes are relations between the book before and
the book after, and whoever needs a property of an operation splits on them:
no later proof unfolds the operation itself.
-/

namespace OpenHft

open OpenHft.Lib

namespace ArrayOrderBook

variable {b b' : ArrayOrderBook} {Q : Queues} {p : OrderPtr} {lv : LevelPtr}
  {id : OrderId}

/-- An indexed order is linked, and so stands in a queue. -/
theorem find_linked (hb : BookInv b Q) (hf : b.orderIndex.find id = some p) :
    ∃ lv, p ∈ Q lv := by
  obtain ⟨lv, hlv⟩ := Option.ne_none_iff_exists'.mp (hb.indexed id p hf).2
  exact ⟨lv, hb.linked p lv hlv⟩

/-! ## `reduceOrder` -/

/-- The book after the last branch of `reduceOrder`. -/
def lowerQuantity (b : ArrayOrderBook) (p : OrderPtr) (quantity : Quantity) :
    ArrayOrderBook :=
  { b with
    orders := b.orders.modify p fun o =>
      { o with quantity := o.quantity - quantity } }

theorem lowerQuantity_sameLinks (b : ArrayOrderBook) (p : OrderPtr)
    (quantity : Quantity) : SameLinks b (b.lowerQuantity p quantity) where
  orders := by
    intro q
    simp only [lowerQuantity, Heap.modify_apply]
    split <;> rfl
  levels := fun _ => rfl
  bitmap := rfl
  best := rfl
  orderIndex := rfl

/-- The ways `reduceOrder id quantity` can end. -/
inductive ReduceOutcome (b : ArrayOrderBook) (Q : Queues) (id : OrderId)
    (quantity : Quantity) : OrderUpdateResult → ArrayOrderBook → Prop
  | unknown (hf : b.orderIndex.find id = none) : ReduceOutcome b Q id quantity {} b
  | refused (p : OrderPtr) (hf : b.orderIndex.find id = some p)
      (hq : quantity = 0 ∨ quantity > (b.orders p).quantity) :
      ReduceOutcome b Q id quantity {} b
  | removed (p : OrderPtr) (lv : LevelPtr) (b' : ArrayOrderBook)
      (hf : b.orderIndex.find id = some p) (hp : p ∈ Q lv) (hpos : quantity ≠ 0)
      (hq : quantity = (b.orders p).quantity) (heff : CancelEffect b b' id p lv) :
      ReduceOutcome b Q id quantity
        { success := true, removedOrder := some p } b'
  | reduced (p : OrderPtr) (lv : LevelPtr)
      (hf : b.orderIndex.find id = some p) (hp : p ∈ Q lv) (hpos : quantity ≠ 0)
      (hq : quantity < (b.orders p).quantity) :
      ReduceOutcome b Q id quantity { success := true }
        (b.lowerQuantity p quantity)

theorem reduceOrder_outcome (hb : BookInv b Q) (id : OrderId)
    (quantity : Quantity) :
    ∃ r b', b.reduceOrder id quantity = .ok (r, b') ∧
      ReduceOutcome b Q id quantity r b' := by
  cases hf : b.orderIndex.find id with
  | none => exact ⟨_, _, by rw [reduceOrder, hf], .unknown hf⟩
  | some p =>
      obtain ⟨lv, hp⟩ := find_linked hb hf
      by_cases hrefuse : quantity = 0 ∨ quantity > (b.orders p).quantity
      · exact ⟨_, _, by simp only [reduceOrder, hf, if_pos hrefuse],
          .refused p hf hrefuse⟩
      · obtain ⟨hpos, hle⟩ := not_or.mp hrefuse
        by_cases heq : quantity = (b.orders p).quantity
        · obtain ⟨b', hcancel, heff⟩ := cancelOrder_effect hb hf hp
          refine ⟨_, b', ?_, .removed p lv b' hf hp hpos heq heff⟩
          simp only [reduceOrder, hf, if_neg hrefuse, if_pos heq, hcancel, bind,
            Except.bind]
        · have hlt := UInt32.lt_of_le_of_ne (UInt32.not_lt.mp hle) heq
          refine ⟨_, _, ?_, .reduced p lv hf hp hpos hlt⟩
          simp only [reduceOrder, hf, if_neg hrefuse, if_neg heq, lowerQuantity]

/-! ## `replaceOrder` -/

/-- The order `replaceOrder` writes over the one it took out of the book. -/
def replacement (o : Order) (id : OrderId) (quantity : Quantity)
    (price : Price) : Order :=
  { id := id, accountId := o.accountId, side := o.side, price := price,
    quantity := quantity }

/-- The book between the `cancelOrder` and the `addOrder` of
`replaceOrder`. -/
def rewriteOrder (b : ArrayOrderBook) (p : OrderPtr) (o : Order) :
    ArrayOrderBook :=
  { b with orders := b.orders.modify p fun _ => o }

theorem rewriteOrder_self (b : ArrayOrderBook) (p : OrderPtr) (o : Order) :
    (b.rewriteOrder p o).orders p = o := Heap.modify_self b.orders p fun _ => o

theorem rewriteOrder_of_ne (b : ArrayOrderBook) {p q : OrderPtr} (o : Order)
    (h : q ≠ p) : (b.rewriteOrder p o).orders q = b.orders q :=
  Heap.modify_of_ne b.orders (fun _ => o) h

/-- The ways `replaceOrder` can end, for a price in range. -/
inductive ReplaceOutcome (b : ArrayOrderBook) (Q : Queues)
    (originalOrderId newOrderId : OrderId) (quantity : Quantity) (price : Price)
    (hv : ValidPrice price) : Bool → ArrayOrderBook → Prop
  | refused (h : newOrderId = 0 ∨ quantity = 0 ∨ newOrderId = originalOrderId ∨
        b.orderIndex.find newOrderId ≠ none ∨
        b.orderIndex.find originalOrderId = none) :
      ReplaceOutcome b Q originalOrderId newOrderId quantity price hv false b
  | replaced (p : OrderPtr) (lv : LevelPtr) (b₁ b' : ArrayOrderBook)
      (hid : newOrderId ≠ 0) (hquantity : quantity ≠ 0)
      (hne : newOrderId ≠ originalOrderId)
      (hnew : b.orderIndex.find newOrderId = none)
      (hf : b.orderIndex.find originalOrderId = some p) (hp : p ∈ Q lv)
      (hcancel : CancelEffect b b₁ originalOrderId p lv)
      (hadd : AddEffect
        (b₁.rewriteOrder p (replacement (b.orders p) newOrderId quantity price)) b' p
        (levelAt (b.orders p).side price hv)) :
      ReplaceOutcome b Q originalOrderId newOrderId quantity price hv true b'

theorem contains_iff :
    b.orderIndex.contains id = true ↔ b.orderIndex.find id ≠ none := by
  rw [FixedHashMap.contains, Option.isSome_iff_ne_none]

theorem contains_eq_false_iff :
    b.orderIndex.contains id = false ↔ b.orderIndex.find id = none := by
  rw [← Bool.not_eq_true, contains_iff, not_not]

/-- The checks that `replaceOrder` makes before it changes anything. -/
def Replaces (b : ArrayOrderBook) (originalOrderId newOrderId : OrderId)
    (quantity : Quantity) : Prop :=
  (newOrderId ≠ 0 ∧ quantity ≠ 0 ∧ newOrderId ≠ originalOrderId) ∧
    b.orderIndex.find newOrderId = none ∧ b.orderIndex.find originalOrderId ≠ none

theorem replaceOrder_refused {originalOrderId newOrderId : OrderId}
    {quantity : Quantity} (h : ¬Replaces b originalOrderId newOrderId quantity)
    (price : Price) :
    b.replaceOrder originalOrderId newOrderId quantity price = .ok (false, b) := by
  by_cases hargs : newOrderId = 0 ∨ quantity = 0 ∨ newOrderId = originalOrderId
  · simp only [replaceOrder, if_pos hargs]
  · cases hnew : b.orderIndex.contains newOrderId with
    | true => simp only [replaceOrder, if_neg hargs, hnew, if_pos]
    | false =>
        have hf : b.orderIndex.find originalOrderId = none := by
          by_contra hf
          simp only [not_or] at hargs
          exact h ⟨hargs, contains_eq_false_iff.mp hnew, hf⟩
        simp [replaceOrder, hnew, hf]

/-- Once the checks are passed, the original order leaves the book and the
replacement is added. -/
theorem replaceOrder_replaces (hb : BookInv b Q) {originalOrderId newOrderId : OrderId}
    {quantity : Quantity} (h : Replaces b originalOrderId newOrderId quantity)
    (price : Price) :
    ∃ p lv b₁, b.orderIndex.find originalOrderId = some p ∧ p ∈ Q lv ∧
      CancelEffect b b₁ originalOrderId p lv ∧
      b.replaceOrder originalOrderId newOrderId quantity price =
        ((b₁.rewriteOrder p (replacement (b.orders p) newOrderId quantity price)).addOrder
          p).map fun b' => (true, b') := by
  obtain ⟨⟨hid, hquantity, hne⟩, hnew, hf⟩ := h
  obtain ⟨p, hf⟩ := Option.ne_none_iff_exists'.mp hf
  obtain ⟨lv, hp⟩ := find_linked hb hf
  obtain ⟨b₁, hcancel, heff⟩ := cancelOrder_effect hb hf hp
  refine ⟨p, lv, b₁, hf, hp, heff, ?_⟩
  simp only [replaceOrder, hid, hquantity, hne, or_self, if_false,
    contains_eq_false_iff.mpr hnew, Bool.false_eq_true, hf, hcancel, bind, Except.bind]
  rfl

theorem replaceOrder_outcome (hb : BookInv b Q) (originalOrderId newOrderId : OrderId)
    (quantity : Quantity) {price : Price} (hv : ValidPrice price) :
    ∃ r b', b.replaceOrder originalOrderId newOrderId quantity price =
        .ok (r, b') ∧
      ReplaceOutcome b Q originalOrderId newOrderId quantity price hv r b' := by
  by_cases h : Replaces b originalOrderId newOrderId quantity
  · obtain ⟨p, lv, b₁, hf, hp, heff, heq⟩ := replaceOrder_replaces hb h price
    obtain ⟨⟨hid, hquantity, hne⟩, hnew, -⟩ := h
    obtain ⟨b', hadd, hadded⟩ := addOrder_effect
      (rewriteOrder_self b₁ p (replacement (b.orders p) newOrderId quantity price)) hv
    refine ⟨true, b', ?_, .replaced p lv b₁ b' hid hquantity hne hnew hf hp heff hadded⟩
    rw [heq, hadd]
    rfl
  · refine ⟨false, b, replaceOrder_refused h price, .refused ?_⟩
    simpa only [Replaces, not_and_or, not_not, or_assoc] using h

end ArrayOrderBook

end OpenHft
