import OpenHft.Proofs.EngineInvariant
import OpenHft.Spec.PriceTime

/-!
# One round of the engine

What `canCross` answers, what the subtractions of `matchOne` change, and how a
round of `executeTrade` can end. `MatchOutcome` is the inversion lemma the rest
of the engine's proofs split on; from it the whole of `submitOrder` is shown to
keep the invariant and never to fault, for any order whose price is in range.
-/

namespace OpenHft

open OpenHft.Lib

namespace MatchingEngine

variable {e e' : MatchingEngine} {Q Q' : Queues} {lent : List OrderPtr}
  {p r : OrderPtr} {lv : LevelPtr}

theorem oppositeLevel_eq (side : Side) :
    e.oppositeLevel side = e.book.bestLevel side.opposite := by
  cases side <;> rfl

/-! ## `canCross` -/

/-- The best level's own price is the cached best price. -/
theorem bestLevel_price (hb : BookInv e.book Q) {side : Side}
    (hv : ValidPrice (e.book.best side))
    (hne : Q (levelAt side (e.book.best side) hv) ≠ []) :
    (e.book.levels (levelAt side (e.book.best side) hv)).price = e.book.best side :=
  priceToIndex_inj (hb.price _ hne)

theorem canCross_null (h0 : e.book.best (e.book.orders p).side.opposite = 0) :
    e.canCross p = .ok false := by
  cases hside : (e.book.orders p).side with
  | buy =>
      rw [hside, Side.opposite] at h0
      simp only [canCross, hside, ArrayOrderBook.bestAsk, bind, Except.bind,
        BookInv.bestLevel_null h0]
  | sell =>
      rw [hside, Side.opposite] at h0
      simp only [canCross, hside, ArrayOrderBook.bestBid, bind, Except.bind,
        BookInv.bestLevel_null h0]

theorem canCross_best (hb : BookInv e.book Q)
    (h0 : e.book.best (e.book.orders p).side.opposite ≠ 0) :
    e.canCross p = .ok
      (reaches (e.book.orders p).side (e.book.orders p).price
        (e.book.best (e.book.orders p).side.opposite)) := by
  cases hside : (e.book.orders p).side with
  | buy =>
      rw [hside, Side.opposite] at h0
      obtain ⟨hv, hsome, hne⟩ := hb.bestLevel_some h0
      simp only [canCross, hside, ArrayOrderBook.bestAsk, bind, Except.bind, hsome]
      rw [bestLevel_price hb hv hne]
      rfl
  | sell =>
      rw [hside, Side.opposite] at h0
      obtain ⟨hv, hsome, hne⟩ := hb.bestLevel_some h0
      simp only [canCross, hside, ArrayOrderBook.bestBid, bind, Except.bind, hsome]
      rw [bestLevel_price hb hv hne]
      rfl

/-! ## The subtractions -/

theorem fill_orders {b : ArrayOrderBook} {traded : Quantity} (hne : p ≠ r)
    (q : OrderPtr) :
    (fill b p r traded).orders q =
      { b.orders q with
        quantity := if q = p ∨ q = r then (b.orders q).quantity - traded
          else (b.orders q).quantity } := by
  simp only [fill, Heap.modify_apply]
  by_cases hqr : q = r
  · have hqp : q ≠ p := fun e => hne (e.symm.trans hqr)
    simp [hqr, hne.symm]
  · by_cases hqp : q = p
    · simp [hqp, hne]
    · simp [hqr, hqp]

theorem lowerTotal_eq (levels : LevelPtr → PriceLevel) (level : Option LevelPtr)
    (traded : Quantity) (lv : LevelPtr) :
    lowerTotal levels level traded lv =
      { levels lv with
        totalQuantity := (lowerTotal levels level traded lv).totalQuantity } := by
  cases level with
  | none => rfl
  | some level =>
      by_cases hlv : lv = level
      · subst hlv
        simp only [lowerTotal, Function.update_self]
      · simp only [lowerTotal, Function.update_of_ne hlv]

theorem fill_sameLinks (b : ArrayOrderBook) (p r : OrderPtr) (traded : Quantity) :
    SameLinks b (fill b p r traded) where
  orders := by
    intro q
    simp only [fill, Heap.modify_apply]
    split <;> split <;> rfl
  levels := by
    intro lv
    simp only [fill]
    exact lowerTotal_eq b.levels _ traded lv
  bitmap := rfl
  best := rfl
  orderIndex := rfl

/-! ## Cancelling what was filled -/

/-- The ways the last branch of `matchOne` can end. -/
inductive RetireOutcome (e : MatchingEngine) (Q : Queues) (resting : OrderPtr) :
    MatchingEngine → Queues → Prop
  /-- a quantity is left -/
  | kept (h : (e.book.orders resting).quantity ≠ 0) : RetireOutcome e Q resting e Q
  /-- nothing is left, and the index does not know the id -/
  | lost (h : (e.book.orders resting).quantity = 0)
      (hf : e.book.orderIndex.find (e.book.orders resting).id = none) :
      RetireOutcome e Q resting e Q
  /-- nothing is left, and the order the index has for the id is removed -/
  | removed (q : OrderPtr) (lv : LevelPtr) (b : ArrayOrderBook)
      (h : (e.book.orders resting).quantity = 0)
      (hf : e.book.orderIndex.find (e.book.orders resting).id = some q)
      (hq : q ∈ Q lv)
      (heff : ArrayOrderBook.CancelEffect e.book b (e.book.orders resting).id q lv) :
      RetireOutcome e Q resting ({ e with book := b }.releaseIfOwned (some q))
        (Q.drop lv q)

theorem retireFilled_outcome (hb : BookInv e.book Q) (resting : OrderPtr) :
    ∃ e' Q', e.retireFilled resting = .ok e' ∧ RetireOutcome e Q resting e' Q' := by
  by_cases h : (e.book.orders resting).quantity = 0
  · cases hf : e.book.orderIndex.find (e.book.orders resting).id with
    | none =>
        refine ⟨e, Q, ?_, .lost h hf⟩
        simp only [retireFilled, if_pos h, ArrayOrderBook.cancelOrder_none hf, bind,
          Except.bind]
        rfl
    | some q =>
        obtain ⟨lv, hq⟩ := ArrayOrderBook.find_linked hb hf
        obtain ⟨b, hok, heff⟩ := ArrayOrderBook.cancelOrder_effect hb hf hq
        refine ⟨_, _, ?_, .removed q lv b h hf hq heff⟩
        simp only [retireFilled, if_pos h, hok, bind, Except.bind]
  · exact ⟨e, Q, by rw [retireFilled, if_neg h], .kept h⟩

theorem RetireOutcome.inv (h : RetireOutcome e Q r e' Q') (he : EngineInv e Q lent) :
    EngineInv e' Q' lent := by
  cases h with
  | kept _ => exact he
  | lost _ _ => exact he
  | removed q lv b _ hf hq heff => exact he.retire heff hf hq

/-- Cancelling touches no order's data. -/
theorem RetireOutcome.data (h : RetireOutcome e Q r e' Q') (hb : BookInv e.book Q)
    (q : OrderPtr) : (e'.book.orders q).data = (e.book.orders q).data := by
  cases h with
  | kept _ => rfl
  | lost _ _ => rfl
  | removed s lv b _ hf hs heff => exact heff.data hb hs q

/-! ## `matchOne` -/

/-- The quantity a round trades. -/
def tradedQuantity (incoming resting : Order) : Quantity :=
  if incoming.quantity < resting.quantity then incoming.quantity
  else resting.quantity

/-- The engine after a round's trade is published and subtracted. -/
def afterTrade (e : MatchingEngine) (p r : OrderPtr) : MatchingEngine :=
  { e.publishTrade p r (tradedQuantity (e.book.orders p) (e.book.orders r)) with
    book := fill e.book p r (tradedQuantity (e.book.orders p) (e.book.orders r)) }

theorem tradedQuantity_le (incoming resting : Order) :
    tradedQuantity incoming resting ≤ incoming.quantity ∧
      tradedQuantity incoming resting ≤ resting.quantity := by
  rw [tradedQuantity]
  split
  · next h => exact ⟨UInt32.le_refl _, UInt32.le_of_lt h⟩
  · next h => exact ⟨UInt32.not_lt.mp h, UInt32.le_refl _⟩

/-- The ways a round can end. -/
inductive MatchOutcome (e : MatchingEngine) (Q : Queues) (p : OrderPtr) :
    Bool → MatchingEngine → Queues → Prop
  | idle (h0 : e.book.best (e.book.orders p).side.opposite = 0) :
      MatchOutcome e Q p false e Q
  | traded (hv : ValidPrice (e.book.best (e.book.orders p).side.opposite))
      (r : OrderPtr) (rest : List OrderPtr)
      (hQ : Q (levelAt (e.book.orders p).side.opposite
        (e.book.best (e.book.orders p).side.opposite) hv) = r :: rest)
      (e' : MatchingEngine) (Q' : Queues)
      (hret : RetireOutcome (e.afterTrade p r) Q r e' Q') :
      MatchOutcome e Q p
        (decide (tradedQuantity (e.book.orders p) (e.book.orders r) > 0)) e' Q'

theorem afterTrade_inv (he : EngineInv e Q lent) (p r : OrderPtr) :
    EngineInv (e.afterTrade p r) Q lent :=
  he.same_links (fill_sameLinks e.book p r _) rfl

theorem matchOne_outcome (he : EngineInv e Q lent) (p : OrderPtr) :
    ∃ again e' Q', e.matchOne p = .ok (again, e') ∧
      MatchOutcome e Q p again e' Q' := by
  by_cases h0 : e.book.best (e.book.orders p).side.opposite = 0
  · refine ⟨_, _, _, ?_, .idle h0⟩
    simp only [matchOne, oppositeLevel_eq, BookInv.bestLevel_null h0, bind,
      Except.bind]
  · obtain ⟨hv, hsome, hne⟩ := he.book.bestLevel_some h0
    obtain ⟨r, rest, hQ⟩ := List.exists_cons_of_ne_nil hne
    have hfront : (e.book.levels (levelAt (e.book.orders p).side.opposite
        (e.book.best (e.book.orders p).side.opposite) hv)).front = some r := by
      rw [(he.book.queue _).front_eq, hQ]
      rfl
    obtain ⟨e', Q', hok, hret⟩ := retireFilled_outcome (afterTrade_inv he p r).book r
    refine ⟨_, e', Q', ?_, .traded hv r rest hQ e' Q' hret⟩
    simp only [matchOne, oppositeLevel_eq, hsome, hfront, bind, Except.bind]
    rw [afterTrade, tradedQuantity] at hok
    simp only [publishTrade] at hok ⊢
    rw [hok]
    rfl

section Round

variable {again : Bool}

theorem MatchOutcome.inv (h : MatchOutcome e Q p again e' Q')
    (he : EngineInv e Q [p]) : EngineInv e' Q' [p] := by
  cases h with
  | idle _ => exact he
  | traded hv r rest hQ e' Q' hret => exact hret.inv (afterTrade_inv he p r)

/-- A round changes the quantity of the incoming order and nothing else of it,
and the quantity has gone down if there is to be another round. -/
theorem MatchOutcome.incoming (h : MatchOutcome e Q p again e' Q')
    (he : EngineInv e Q [p]) :
    ∃ quantity, (e'.book.orders p).data =
        { (e.book.orders p).data with quantity := quantity } ∧
      (again = true → quantity < (e.book.orders p).quantity) := by
  cases h with
  | idle _ => exact ⟨(e.book.orders p).quantity, rfl, fun h => Bool.noConfusion h⟩
  | traded hv r rest hQ e' Q' hret =>
      have hne : p ≠ r := he.ne_linked List.mem_cons_self (hQ ▸ List.mem_cons_self)
      refine ⟨(e.book.orders p).quantity -
        tradedQuantity (e.book.orders p) (e.book.orders r), ?_, fun hagain => ?_⟩
      · rw [hret.data (afterTrade_inv he p r).book p]
        show ((fill e.book p r _).orders p).data = _
        rw [fill_orders hne, if_pos (Or.inl rfl)]
        rfl
      · have hle := (tradedQuantity_le (e.book.orders p) (e.book.orders r)).1
        have hpos := of_decide_eq_true hagain
        rw [UInt32.lt_iff_toNat_lt, UInt32.toNat_sub_of_le _ _ hle]
        have hle' := UInt32.le_iff_toNat_le.mp hle
        have hpos' := UInt32.lt_iff_toNat_lt.mp hpos
        rw [UInt32.toNat_zero] at hpos'
        omega

end Round

/-! ## A whole call -/

theorem canCross_ok (hb : BookInv e.book Q) (p : OrderPtr) :
    ∃ c, e.canCross p = .ok c := by
  by_cases h0 : e.book.best (e.book.orders p).side.opposite = 0
  · exact ⟨_, canCross_null h0⟩
  · exact ⟨_, canCross_best hb h0⟩

theorem tradeLoop_stop (rounds : Nat) (h : (e.book.orders p).quantity = 0) :
    tradeLoop p rounds e = .ok e := by
  have hpos : ¬ (e.book.orders p).quantity > 0 := by
    rw [h]
    exact UInt32.lt_irrefl 0
  cases rounds <;> rw [tradeLoop, if_neg hpos]

/-- The loop ends within its rounds, and keeps the invariant and the incoming
order's limit. -/
theorem tradeLoop_inv (rounds : Nat) (he : EngineInv e Q [p])
    (hq : (e.book.orders p).quantity.toNat ≤ rounds) :
    ∃ e' Q', tradeLoop p rounds e = .ok e' ∧ EngineInv e' Q' [p] ∧
      (e'.book.orders p).side = (e.book.orders p).side ∧
      (e'.book.orders p).price = (e.book.orders p).price := by
  induction rounds generalizing e Q with
  | zero =>
      have h0 : (e.book.orders p).quantity = 0 :=
        UInt32.toNat_inj.mp (Nat.le_zero.mp hq)
      exact ⟨e, Q, tradeLoop_stop 0 h0, he, rfl, rfl⟩
  | succ rounds ih =>
      rcases Quantity.eq_zero_or_pos (e.book.orders p).quantity with h0 | hpos
      · exact ⟨e, Q, tradeLoop_stop _ h0, he, rfl, rfl⟩
      · obtain ⟨c, hc⟩ := canCross_ok he.book p
        cases c with
        | false =>
            refine ⟨e, Q, ?_, he, rfl, rfl⟩
            simp [tradeLoop, hc, bind, Except.bind]
        | true =>
            obtain ⟨again, e₁, Q₁, hok, hout⟩ := matchOne_outcome he p
            obtain ⟨quantity, hdata, hless⟩ := hout.incoming he
            have hside := congrArg OrderData.side hdata
            have hprice := congrArg OrderData.price hdata
            have hquantity := congrArg OrderData.quantity hdata
            simp only [Order.data_side, Order.data_price, Order.data_quantity]
              at hside hprice hquantity
            have hstep : tradeLoop p (rounds + 1) e =
                if again then tradeLoop p rounds e₁ else .ok e₁ := by
              simp only [tradeLoop, if_pos hpos, hc, hok, bind, Except.bind, if_pos]
            rw [hstep]
            cases again with
            | false => exact ⟨e₁, Q₁, rfl, hout.inv he, hside, hprice⟩
            | true =>
                have hlt := UInt32.lt_iff_toNat_lt.mp (hless rfl)
                obtain ⟨e₂, Q₂, hok₂, he₂, hside₂, hprice₂⟩ :=
                  ih (hout.inv he) (by rw [hquantity]; omega)
                exact ⟨e₂, Q₂, hok₂, he₂, hside₂.trans hside, hprice₂.trans hprice⟩

theorem process_inv (he : EngineInv e Q [p])
    (hv : ValidPrice (e.book.orders p).price) :
    ∃ e' Q', e.process (some p) = .ok e' ∧ EngineInv e' Q' [] := by
  obtain ⟨c, hc⟩ := canCross_ok he.book p
  cases c with
  | false =>
      obtain ⟨b, hok, _, hinv⟩ := he.add rfl hv
      refine ⟨{ e with book := b }, _, ?_, hinv⟩
      simp [process, hc, hok, bind, Except.bind]
  | true =>
      obtain ⟨e₁, Q₁, hloop, he₁, hside, hprice⟩ := tradeLoop_inv _ he (Nat.le_refl _)
      by_cases hpos : (e₁.book.orders p).quantity > 0
      · obtain ⟨b, hok, _, hinv⟩ := he₁.add rfl (hprice ▸ hv)
        refine ⟨{ e₁ with book := b }, _, ?_, hinv⟩
        simp [process, hc, executeTrade, hloop, if_pos hpos, hok, bind, Except.bind]
      · refine ⟨_, _, ?_, he₁.free⟩
        simp [process, hc, executeTrade, hloop, if_neg hpos, bind, Except.bind]

/-- A new order with a price in range, from the pool through `process`. -/
theorem process_new {rest : List OrderPtr} (he : EngineInv e Q [])
    (hfree : e.orderPool.freeList = p :: rest) (accountId : AccountId) (side : Side)
    {price : Price} (hv : ValidPrice price) (quantity : Quantity) :
    ∃ e' Q', (EngineInv.prepared e p rest
      (EngineInv.newOrder e accountId side price quantity)).process (some p) = .ok e' ∧
        EngineInv e' Q' [] := by
  have he₁ := he.prepare hfree
    (o := EngineInv.newOrder e accountId side price quantity) rfl
  refine process_inv he₁ ?_
  rw [EngineInv.prepared_self]
  exact hv

theorem submitOrder_none (hfree : e.orderPool.freeList = []) (accountId : AccountId)
    (side : Side) (price : Price) (quantity : Quantity) :
    e.submitOrder accountId side price quantity = .ok (0, e) := by
  simp only [submitOrder, EngineInv.prepareOrder_none hfree]

theorem submitOrder_some {rest : List OrderPtr}
    (hfree : e.orderPool.freeList = p :: rest) {accountId : AccountId} {side : Side}
    {price : Price} {quantity : Quantity}
    (hok : (EngineInv.prepared e p rest
      (EngineInv.newOrder e accountId side price quantity)).process (some p) = .ok e') :
    e.submitOrder accountId side price quantity = .ok (e.sequence + 1, e') := by
  simp only [submitOrder, EngineInv.prepareOrder_some hfree, hok, bind, Except.bind,
    EngineInv.prepared_self]
  rfl

/-- `submitOrder` with a price in range never faults and keeps the
invariant, whatever ids the sequencer hands out. -/
theorem submitOrder_inv (he : EngineInv e Q []) (accountId : AccountId)
    (side : Side) {price : Price} (hv : ValidPrice price) (quantity : Quantity) :
    ∃ id e' Q', e.submitOrder accountId side price quantity = .ok (id, e') ∧
      EngineInv e' Q' [] := by
  cases hfree : e.orderPool.freeList with
  | nil => exact ⟨0, e, Q, submitOrder_none hfree accountId side price quantity, he⟩
  | cons p rest =>
      obtain ⟨e', Q', hok, hinv⟩ := process_new he hfree accountId side hv quantity
      exact ⟨_, e', Q', submitOrder_some hfree hok, hinv⟩

end MatchingEngine

end OpenHft
