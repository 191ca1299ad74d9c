import OpenHft.Lib.Runs
import OpenHft.Model.Ouch
import OpenHft.Proofs.EngineStep

/-!
# What `handleEnterOrder` does to the engine

A message that is not decoded, or that finds the pool exhausted, changes nothing and gets
no response. Any other is a `submitOrder` of the engine with the registration of the new
id in between, and the response carries that id.
-/

namespace OpenHft

open OpenHft.Lib

namespace ExchangeOuchHandler

variable {h : ExchangeOuchHandler} {accountId : AccountId} {data : Bytes} {length : Nat}
  {enterOrder : EnterOrder} {Q : Queues}

/-- Between calls no order of the pool is in flight. -/
def Inv (h : ExchangeOuchHandler) : Prop := ∃ Q, EngineInv h.matchingEngine Q []

/-- The handler after it has passed an order on to the engine. -/
def taken (h : ExchangeOuchHandler) (enterOrder : EnterOrder) (orderId : OrderId)
    (engine : MatchingEngine) : ExchangeOuchHandler where
  matchingEngine := engine
  sessionMap := h.sessionMap.registerOrder orderId enterOrder.userRefNum

theorem registerOrder_undecoded (hd : OuchDecoder.decodeEnterOrder data length = none) :
    h.registerOrder accountId data length = none := by
  simp only [registerOrder, hd]

theorem registerOrder_exhausted
    (hd : OuchDecoder.decodeEnterOrder data length = some enterOrder)
    (hfree : h.matchingEngine.orderPool.freeList = []) :
    h.registerOrder accountId data length = none := by
  simp only [registerOrder, hd, EngineInv.prepareOrder_none hfree]

/-- The order is in the map before it is processed. -/
theorem registerOrder_prepared {order : OrderPtr} {engine : MatchingEngine}
    (hd : OuchDecoder.decodeEnterOrder data length = some enterOrder)
    (hprepare : h.matchingEngine.prepareOrder accountId enterOrder.side
      enterOrder.price.toInt64 enterOrder.quantity = (some order, engine)) :
    h.registerOrder accountId data length =
      some (enterOrder, order, h.taken enterOrder (engine.book.orders order).id engine) := by
  simp only [registerOrder, hd, hprepare]
  rfl

theorem handleEnterOrder_undecoded (hd : OuchDecoder.decodeEnterOrder data length = none) :
    h.handleEnterOrder accountId data length = .ok (none, h) := by
  simp only [handleEnterOrder, registerOrder_undecoded hd]

theorem handleEnterOrder_exhausted
    (hd : OuchDecoder.decodeEnterOrder data length = some enterOrder)
    (hfree : h.matchingEngine.orderPool.freeList = []) :
    h.handleEnterOrder accountId data length = .ok (none, h) := by
  simp only [handleEnterOrder, registerOrder_exhausted hd hfree]

/-- The object for the order is prepared, registered under its id and processed. -/
theorem handleEnterOrder_prepared {order : OrderPtr} {engine : MatchingEngine}
    (hd : OuchDecoder.decodeEnterOrder data length = some enterOrder)
    (hprepare : h.matchingEngine.prepareOrder accountId enterOrder.side
      enterOrder.price.toInt64 enterOrder.quantity = (some order, engine)) :
    h.handleEnterOrder accountId data length =
      (engine.process (some order)).map fun processed =>
        (some (AcceptedEncoder.encode (accept enterOrder (engine.book.orders order).id)),
          h.taken enterOrder (engine.book.orders order).id processed) := by
  simp only [handleEnterOrder, registerOrder_prepared hd hprepare, taken]
  cases engine.process (some order) <;> rfl

/-- Nothing is registered once `process` has been called: trades see the map that the call
leaves. -/
theorem handleEnterOrder_sessionMap {h' : ExchangeOuchHandler}
    {response : Option AcceptedEncoder.Buffer}
    (hcall : h.handleEnterOrder accountId data length = .ok (response, h')) :
    h'.sessionMap = h.mapAtProcess accountId data length := by
  rw [handleEnterOrder] at hcall
  rw [mapAtProcess]
  cases hregister : h.registerOrder accountId data length with
  | none =>
      rw [hregister] at hcall
      cases hcall
      rfl
  | some out =>
      obtain ⟨enterOrder, order, registered⟩ := out
      rw [hregister] at hcall
      obtain ⟨engine, -, heq⟩ := bind_eq_ok.mp hcall
      cases heq
      rfl

theorem handleEnterOrder_submit
    (hd : OuchDecoder.decodeEnterOrder data length = some enterOrder)
    (hfree : h.matchingEngine.orderPool.freeList ≠ []) :
    h.handleEnterOrder accountId data length =
      (h.matchingEngine.submitOrder accountId enterOrder.side enterOrder.price.toInt64
        enterOrder.quantity).map fun out =>
          (some (AcceptedEncoder.encode (accept enterOrder out.1)),
            h.taken enterOrder out.1 out.2) := by
  obtain ⟨p, rest, hcons⟩ := List.exists_cons_of_ne_nil hfree
  have hprepare := EngineInv.prepareOrder_some hcons accountId enterOrder.side
    enterOrder.price.toInt64 enterOrder.quantity
  rw [handleEnterOrder_prepared hd hprepare, MatchingEngine.submitOrder, hprepare]
  dsimp only
  cases MatchingEngine.process _ (some p) <;> rfl

theorem handleEnterOrder_taken {id : OrderId} {engine : MatchingEngine}
    (hd : OuchDecoder.decodeEnterOrder data length = some enterOrder)
    (hfree : h.matchingEngine.orderPool.freeList ≠ [])
    (hsubmit : h.matchingEngine.submitOrder accountId enterOrder.side
      enterOrder.price.toInt64 enterOrder.quantity = .ok (id, engine)) :
    h.handleEnterOrder accountId data length =
      .ok (some (AcceptedEncoder.encode (accept enterOrder id)),
        h.taken enterOrder id engine) := by
  rw [handleEnterOrder_submit hd hfree, hsubmit]
  rfl

/-- An order with a price in range, when the pool has an object for it. -/
theorem handleEnterOrder_valid (he : EngineInv h.matchingEngine Q [])
    (hd : OuchDecoder.decodeEnterOrder data length = some enterOrder)
    (hfree : h.matchingEngine.orderPool.freeList ≠ [])
    (hv : ValidPrice enterOrder.price.toInt64) :
    ∃ engine Q', h.handleEnterOrder accountId data length =
        .ok (some (AcceptedEncoder.encode
          (accept enterOrder (h.matchingEngine.sequence + 1))),
            h.taken enterOrder (h.matchingEngine.sequence + 1) engine) ∧
      EngineInv engine Q' [] := by
  obtain ⟨p, rest, hcons⟩ := List.exists_cons_of_ne_nil hfree
  obtain ⟨engine, Q', hok, hinv⟩ := MatchingEngine.process_new he hcons accountId
    enterOrder.side hv enterOrder.quantity
  exact ⟨engine, Q',
    handleEnterOrder_taken hd hfree (MatchingEngine.submitOrder_some hcons hok), hinv⟩

end ExchangeOuchHandler

end OpenHft
