import OpenHft.Proofs.BookUpdates

/-!
# Runs of the book

A caller of the book writes an order and adds it, or names an id to cancel,
reduce, execute or replace. `BookOp` is one such call and `runOps` a sequence
of them from a given book. What a caller promises is `admissible`: an order
given to `addOrder` is not linked already, and a price given to `addOrder` or
`replaceOrder` is between 1 and 99999. Ids need not be fresh and the index may
be full; neither promise is used.

`BookOp.Outcome` lists what one call can do to the book; `apply_outcome` says
that these are all, and that no admissible call faults. The invariant of a run
then follows by induction on the calls.
-/

namespace OpenHft

open OpenHft.Lib

/-- The calls that change a book. -/
inductive BookOp where
  /-- the caller fills in an order of its own and calls `addOrder` -/
  | add (order : OrderPtr) (o : OrderData)
  | cancel (id : OrderId)
  | reduce (id : OrderId) (quantity : Quantity)
  | execute (id : OrderId) (quantity : Quantity)
  | replace (originalOrderId newOrderId : OrderId) (newQuantity : Quantity)
      (newPrice : Price)

/-- The caller's writes to an order before `addOrder`. -/
def ArrayOrderBook.writeOrder (b : ArrayOrderBook) (order : OrderPtr)
    (d : OrderData) : ArrayOrderBook :=
  { b with
    orders := b.orders.modify order fun o =>
      { o with
        id := d.id, accountId := d.accountId, side := d.side, price := d.price,
        quantity := d.quantity } }

namespace BookOp

/-- A call, for what it does to the book. -/
def apply (b : ArrayOrderBook) : BookOp → Except Fault ArrayOrderBook
  | .add order d => (b.writeOrder order d).addOrder order
  | .cancel id => do return (← b.cancelOrder id).2
  | .reduce id quantity => do return (← b.reduceOrder id quantity).2
  | .execute id quantity => do return (← b.executeOrder id quantity).2
  | .replace originalOrderId newOrderId newQuantity newPrice => do
      return (← b.replaceOrder originalOrderId newOrderId newQuantity newPrice).2

/-- The caller's part: an order of its own that rests nowhere, at a price there is a level for. -/
def admissible (b : ArrayOrderBook) : BookOp → Bool
  | .add order d => (b.orders order).level.isNone && decide (ValidPrice d.price)
  | .replace _ _ _ newPrice => decide (ValidPrice newPrice)
  | _ => true

/-- The call lowers the quantity of a resting order and leaves it in the
book. -/
def partialReduction (b : ArrayOrderBook) : BookOp → Bool
  | .reduce id quantity | .execute id quantity =>
      match b.orderIndex.find id with
      | some p => decide (quantity ≠ 0) && decide (quantity < (b.orders p).quantity)
      | none => false
  | _ => false

end BookOp

/-- Calls one after the other; a fault ends them. -/
def runOps (b : ArrayOrderBook) : List BookOp → Except Fault ArrayOrderBook
  | [] => .ok b
  | op :: ops => do runOps (← op.apply b) ops

/-- Every call of the run is admissible in the book it meets. -/
def admissibleRun (b : ArrayOrderBook) : List BookOp → Bool
  | [] => true
  | op :: ops =>
      op.admissible b &&
        match op.apply b with
        | .ok b' => admissibleRun b' ops
        | .error _ => true

/-- What one admissible call can do to a book with queues `Q`. -/
inductive BookOp.Outcome (b : ArrayOrderBook) (Q : Queues) :
    BookOp → ArrayOrderBook → Queues → Prop
  | add (order : OrderPtr) (d : OrderData) (hv : ValidPrice d.price)
      (b' : ArrayOrderBook) (hun : (b.orders order).level = none)
      (hadd : ArrayOrderBook.AddEffect (b.writeOrder order d) b' order
        (levelAt d.side d.price hv)) :
      Outcome b Q (.add order d) b' (Q.push (levelAt d.side d.price hv) order)
  | noop (op : BookOp) (hop : op.partialReduction b = false) : Outcome b Q op b Q
  | removed (op : BookOp) (id : OrderId) (p : OrderPtr) (lv : LevelPtr)
      (b' : ArrayOrderBook) (hop : op.partialReduction b = false)
      (hf : b.orderIndex.find id = some p) (hp : p ∈ Q lv)
      (heff : ArrayOrderBook.CancelEffect b b' id p lv) :
      Outcome b Q op b' (Q.drop lv p)
  | reduced (op : BookOp) (id : OrderId) (quantity : Quantity) (p : OrderPtr)
      (lv : LevelPtr) (hop : op = .reduce id quantity ∨ op = .execute id quantity)
      (hf : b.orderIndex.find id = some p) (hp : p ∈ Q lv) (hpos : quantity ≠ 0)
      (hq : quantity < (b.orders p).quantity) :
      Outcome b Q op (b.lowerQuantity p quantity) Q
  | replaced (originalOrderId newOrderId : OrderId) (quantity : Quantity)
      (price : Price) (hv : ValidPrice price) (p : OrderPtr) (lv : LevelPtr)
      (b₁ b' : ArrayOrderBook)
      (hf : b.orderIndex.find originalOrderId = some p) (hp : p ∈ Q lv)
      (hcancel : ArrayOrderBook.CancelEffect b b₁ originalOrderId p lv)
      (hadd : ArrayOrderBook.AddEffect
        (b₁.rewriteOrder p
          (ArrayOrderBook.replacement (b.orders p) newOrderId quantity price)) b' p
        (levelAt (b.orders p).side price hv)) :
      Outcome b Q (.replace originalOrderId newOrderId quantity price) b'
        ((Q.drop lv p).push (levelAt (b.orders p).side price hv) p)

section Step

variable {b b' : ArrayOrderBook} {Q Q' : Queues} {op : BookOp}

theorem writeOrder_self (b : ArrayOrderBook) (p : OrderPtr) (d : OrderData) :
    ((b.writeOrder p d).orders p).data = d := by
  simp only [ArrayOrderBook.writeOrder, Heap.modify_self]
  rfl

theorem BookOp.outcome_of_reduce (hb : BookInv b Q) {id : OrderId}
    {quantity : Quantity} (hop : op = .reduce id quantity ∨ op = .execute id quantity) :
    ∃ r b' Q', b.reduceOrder id quantity = .ok (r, b') ∧ Outcome b Q op b' Q' := by
  have hpart : op.partialReduction b =
      match b.orderIndex.find id with
      | some p => decide (quantity ≠ 0) && decide (quantity < (b.orders p).quantity)
      | none => false := by
    rcases hop with rfl | rfl <;> rfl
  obtain ⟨r, b', hok, hout⟩ := ArrayOrderBook.reduceOrder_outcome hb id quantity
  refine ⟨r, b', ?_⟩
  cases hout with
  | unknown hf => exact ⟨Q, hok, .noop op (by rw [hpart, hf])⟩
  | refused p hf hq =>
      refine ⟨Q, hok, .noop op ?_⟩
      simp only [hpart, hf, Bool.and_eq_false_iff, decide_eq_false_iff_not]
      rcases hq with hq | hq
      · exact Or.inl (not_not.mpr hq)
      · exact Or.inr (UInt32.not_lt.mpr (UInt32.le_of_lt hq))
  | removed p lv b' hf hp _ hq heff =>
      refine ⟨Q.drop lv p, hok, .removed op id p lv b' ?_ hf hp heff⟩
      simp only [hpart, hf, Bool.and_eq_false_iff, decide_eq_false_iff_not]
      exact Or.inr (by rw [hq]; exact UInt32.lt_irrefl _)
  | reduced p lv hf hp hpos hq =>
      exact ⟨Q, hok, .reduced op id quantity p lv hop hf hp hpos hq⟩

/-- One admissible call never faults, and ends in one of the outcomes. -/
theorem BookOp.apply_outcome (hb : BookInv b Q) (hadm : op.admissible b = true) :
    ∃ b' Q', op.apply b = .ok b' ∧ Outcome b Q op b' Q' := by
  cases op with
  | add order d =>
      rw [admissible, Bool.and_eq_true, Option.isNone_iff_eq_none,
        decide_eq_true_eq] at hadm
      have hdata := writeOrder_self b order d
      have hside := congrArg OrderData.side hdata
      have hprice := congrArg OrderData.price hdata
      simp only [Order.data_side, Order.data_price] at hside hprice
      obtain ⟨b', hok, heff⟩ := ArrayOrderBook.addOrder_effect
        (b := b.writeOrder order d) (p := order) rfl (hprice.symm ▸ hadm.2)
      refine ⟨b', _, hok, .add order d hadm.2 b' hadm.1 ?_⟩
      simp only [hside, hprice] at heff
      exact heff
  | cancel id =>
      cases hf : b.orderIndex.find id with
      | none =>
          refine ⟨b, Q, ?_, .noop _ rfl⟩
          simp only [apply, ArrayOrderBook.cancelOrder_none hf, bind, Except.bind]
          rfl
      | some p =>
          obtain ⟨lv, hp⟩ := ArrayOrderBook.find_linked hb hf
          obtain ⟨b', hok, heff⟩ := ArrayOrderBook.cancelOrder_effect hb hf hp
          refine ⟨b', Q.drop lv p, ?_, .removed _ id p lv b' rfl hf hp heff⟩
          simp only [apply, hok, bind, Except.bind]
          rfl
  | reduce id quantity =>
      obtain ⟨r, b', Q', hok, hout⟩ := outcome_of_reduce hb (Or.inl rfl)
      refine ⟨b', Q', ?_, hout⟩
      simp only [apply, hok, bind, Except.bind]
      rfl
  | execute id quantity =>
      obtain ⟨r, b', Q', hok, hout⟩ := outcome_of_reduce hb (Or.inr rfl)
      refine ⟨b', Q', ?_, hout⟩
      simp only [apply, ArrayOrderBook.executeOrder, hok, bind, Except.bind]
      rfl
  | replace originalOrderId newOrderId quantity price =>
      rw [admissible, decide_eq_true_eq] at hadm
      obtain ⟨r, b', hok, hout⟩ := ArrayOrderBook.replaceOrder_outcome hb
        originalOrderId newOrderId quantity hadm
      have happly : apply b (.replace originalOrderId newOrderId quantity price) =
          .ok b' := by
        simp only [apply, hok, bind, Except.bind]
        rfl
      cases hout with
      | refused _ => exact ⟨b, Q, happly, .noop _ rfl⟩
      | replaced p lv b₁ b' _ _ _ _ hf hp hcancel hadd =>
          exact ⟨b', _, happly, .replaced originalOrderId newOrderId quantity price
            hadm p lv b₁ b' hf hp hcancel hadd⟩

/-- Every outcome leaves a book that satisfies the invariant. -/
theorem BookOp.Outcome.inv (h : Outcome b Q op b' Q') (hb : BookInv b Q) :
    BookInv b' Q' := by
  cases h with
  | add order d hv b' hun hadd =>
      have hdata := writeOrder_self b order d
      have hside := congrArg OrderData.side hdata
      have hprice := congrArg OrderData.price hdata
      simp only [Order.data_side, Order.data_price] at hside hprice
      have hlev : ((b.writeOrder order d).orders order).level = none := by
        simp only [ArrayOrderBook.writeOrder, Heap.modify_self]
        exact hun
      refine hadd.inv (hb.modify_unlinked hun hun) hlev (hprice.symm ▸ hv) ?_
      simp only [hside, hprice]
  | noop op _ => exact hb
  | removed op id p lv b' _ hf hp heff => exact heff.inv hb hf hp
  | reduced op id quantity p lv _ _ _ _ _ =>
      exact hb.same_links (b.lowerQuantity_sameLinks p quantity)
  | replaced originalOrderId newOrderId quantity price hv p lv b₁ b' hf hp hcancel
      hadd =>
      have hb₁ := hcancel.inv hb hf hp
      have hun : (b₁.orders p).level = none := by
        rw [hcancel.orderLevel hb hp, if_pos rfl]
      have hself := ArrayOrderBook.rewriteOrder_self b₁ p
        (ArrayOrderBook.replacement (b.orders p) newOrderId quantity price)
      refine hadd.inv (hb₁.modify_unlinked hun rfl) (by rw [hself]; rfl)
        (by rw [hself]; exact hv) ?_
      simp only [hself]
      rfl

/-- A run of one call and more: its first call, and the rest from the book that
call leaves. -/
theorem runOps_cons {ops : List BookOp} (hok : op.apply b = .ok b') :
    runOps b (op :: ops) = runOps b' ops := by
  simp only [runOps, hok, bind, Except.bind]

theorem admissibleRun_cons {ops : List BookOp}
    (hadm : admissibleRun b (op :: ops) = true) :
    op.admissible b = true ∧
      ∀ b', op.apply b = .ok b' → admissibleRun b' ops = true := by
  rw [admissibleRun, Bool.and_eq_true] at hadm
  refine ⟨hadm.1, fun b' hok => ?_⟩
  have h := hadm.2
  rwa [hok] at h

end Step

/-- A run of admissible calls never faults, and the invariant holds where it
ends. -/
theorem runOps_inv {ops : List BookOp} {b : ArrayOrderBook} {Q : Queues}
    (hb : BookInv b Q) (hadm : admissibleRun b ops = true) :
    ∃ b' Q', runOps b ops = .ok b' ∧ BookInv b' Q' := by
  induction ops generalizing b Q with
  | nil => exact ⟨b, Q, rfl, hb⟩
  | cons op ops ih =>
      obtain ⟨hop, hrest⟩ := admissibleRun_cons hadm
      obtain ⟨b₁, Q₁, hok, hout⟩ := BookOp.apply_outcome hb hop
      rw [runOps_cons hok]
      exact ih (hout.inv hb) (hrest b₁ hok)

end OpenHft
