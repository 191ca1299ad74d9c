import OpenHft.Model.MarketData
import OpenHft.Proofs.PooledBook

/-!
# The consumer keeps its book

What one event does, through the outcomes of the book's operations: an event
takes an object from the pool and adds it, or moves one out of the book and back
to the pool, or out of the book and in again. None of this needs ids to be
distinct, so the invariant holds of a feed that repeats them.
-/

namespace OpenHft

open OpenHft.Lib

namespace MarketDataBookConsumer

variable {c c' : MarketDataBookConsumer} {Q : Queues} {event : MarketDataEvent}
  {b : ArrayOrderBook} {p : OrderPtr} {rest : List OrderPtr}

/-- The order `consume` writes for an `AddOrder` event. -/
def newOrder (event : MarketDataEvent) : Order :=
  { id := event.orderId, accountId := event.accountId, side := event.side,
    price := event.price, quantity := event.quantity }

/-- Only these two kinds of event bring a price with them. -/
def bringsPrice (event : MarketDataEvent) : Bool :=
  decide (event.type = .addOrder ∨ event.type = .replaceOrder)

/-! ## The equations of `consume` -/

theorem consume_add_none (ht : event.type = .addOrder) (hfree : c.orderPool.freeList = []) :
    c.consume event = .ok c := by
  simp only [consume, ht, OrderPool.acquire_none hfree]

theorem consume_add_some (ht : event.type = .addOrder)
    (hfree : c.orderPool.freeList = p :: rest)
    (hok : (c.book.rewriteOrder p (newOrder event)).addOrder p = .ok b) :
    c.consume event = .ok ⟨b, c.orderPool.lend p rest⟩ := by
  rw [ArrayOrderBook.rewriteOrder, newOrder] at hok
  simp only [consume, ht, OrderPool.acquire_some hfree, hok, bind, Except.bind]

theorem consume_reduce (ht : event.type = .cancelOrder ∨ event.type = .executeOrder)
    {r : OrderUpdateResult}
    (hok : c.book.reduceOrder event.orderId event.quantity = .ok (r, b)) :
    c.consume event = .ok ⟨b, c.orderPool.releaseIfOwned r.removedOrder⟩ := by
  rcases ht with ht | ht
  · simp only [consume, ht, hok, bind, Except.bind, releaseIfOwned]
  · simp only [consume, ht, ArrayOrderBook.executeOrder, hok, bind, Except.bind,
      releaseIfOwned]

theorem consume_delete (ht : event.type = .deleteOrder) {removed : Option OrderPtr}
    (hok : c.book.cancelOrder event.orderId = .ok (removed, b)) :
    c.consume event = .ok ⟨b, c.orderPool.releaseIfOwned removed⟩ := by
  simp only [consume, ht, hok, bind, Except.bind, releaseIfOwned]

theorem consume_replace (ht : event.type = .replaceOrder) {r : Bool}
    (hok : c.book.replaceOrder event.orderId event.newOrderId event.quantity
      event.price = .ok (r, b)) :
    c.consume event = .ok { c with book := b } := by
  simp only [consume, ht, hok, bind, Except.bind]

end MarketDataBookConsumer

/-! ## The invariant -/

/-- The consumer's book is a book over the consumer's pool. -/
abbrev ConsumerInv (c : MarketDataBookConsumer) (Q : Queues) : Prop :=
  PooledBook c.book c.orderPool Q []

namespace ConsumerInv

open MarketDataBookConsumer

variable {c : MarketDataBookConsumer} {Q : Queues} {event : MarketDataEvent}

theorem add (h : ConsumerInv c Q) (ht : event.type = .addOrder)
    (hv : ValidPrice event.price) :
    ∃ c' Q', c.consume event = .ok c' ∧ ConsumerInv c' Q' := by
  cases hfree : c.orderPool.freeList with
  | nil => exact ⟨c, Q, consume_add_none ht hfree, h⟩
  | cons p rest =>
      have hlent := (h.lend hfree).rewrite (o := newOrder event) List.mem_cons_self rfl
      obtain ⟨b, hok, _, hinv⟩ := hlent.add (c.book.rewriteOrder_self p _) hv
      exact ⟨_, _, consume_add_some ht hfree hok, hinv⟩

theorem reduce (h : ConsumerInv c Q)
    (ht : event.type = .cancelOrder ∨ event.type = .executeOrder) :
    ∃ c' Q', c.consume event = .ok c' ∧ ConsumerInv c' Q' := by
  obtain ⟨r, b, hok, hout⟩ :=
    ArrayOrderBook.reduceOrder_outcome h.book event.orderId event.quantity
  have hconsume := consume_reduce ht hok
  cases hout with
  | unknown _ => exact ⟨_, Q, hconsume, h⟩
  | refused _ _ _ => exact ⟨_, Q, hconsume, h⟩
  | removed p lv _ hf hp _ _ heff => exact ⟨_, _, hconsume, h.retire heff hf hp⟩
  | reduced p _ _ _ _ _ =>
      exact ⟨_, Q, hconsume,
        h.same_links (ArrayOrderBook.lowerQuantity_sameLinks c.book p _) rfl⟩

theorem delete (h : ConsumerInv c Q) (ht : event.type = .deleteOrder) :
    ∃ c' Q', c.consume event = .ok c' ∧ ConsumerInv c' Q' := by
  cases hf : c.book.orderIndex.find event.orderId with
  | none => exact ⟨_, Q, consume_delete ht (ArrayOrderBook.cancelOrder_none hf), h⟩
  | some p =>
      obtain ⟨lv, hp⟩ := ArrayOrderBook.find_linked h.book hf
      obtain ⟨b, hok, heff⟩ := ArrayOrderBook.cancelOrder_effect h.book hf hp
      exact ⟨_, _, consume_delete ht hok, h.retire heff hf hp⟩

theorem replace (h : ConsumerInv c Q) (ht : event.type = .replaceOrder)
    (hv : ValidPrice event.price) :
    ∃ c' Q', c.consume event = .ok c' ∧ ConsumerInv c' Q' := by
  obtain ⟨r, b, hok, hout⟩ := ArrayOrderBook.replaceOrder_outcome h.book event.orderId
    event.newOrderId event.quantity hv
  have hconsume := consume_replace ht hok
  cases hout with
  | refused _ => exact ⟨_, Q, hconsume, h⟩
  | replaced p lv b₁ _ _ _ _ _ hf hp hcancel hadd =>
      have hlent := (h.cancel hcancel hf hp).rewrite
        (o := ArrayOrderBook.replacement (c.book.orders p) event.newOrderId
          event.quantity event.price) List.mem_cons_self rfl
      exact ⟨_, _, hconsume, hlent.add_effect hadd (b₁.rewriteOrder_self p _)⟩

/-- Any event whose price, if it brings one, is in range. -/
theorem consume (h : ConsumerInv c Q)
    (hv : bringsPrice event = true → ValidPrice event.price) :
    ∃ c' Q', c.consume event = .ok c' ∧ ConsumerInv c' Q' := by
  cases ht : event.type with
  | addOrder => exact h.add ht (hv (by simp [bringsPrice, ht]))
  | cancelOrder => exact h.reduce (Or.inl ht)
  | deleteOrder => exact h.delete ht
  | executeOrder => exact h.reduce (Or.inr ht)
  | replaceOrder => exact h.replace ht (hv (by simp [bringsPrice, ht]))

end ConsumerInv

end OpenHft
