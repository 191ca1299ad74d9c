import OpenHft.Lib.Runs
import OpenHft.Model.Itch
import OpenHft.Model.Ouch
import OpenHft.Proofs.Consumer
import OpenHft.Proofs.HandlerCalls

/-!
# Prices from the wire

No layer between the wire and the book looks at a price: the OUCH handler hands the
decoded 64-bit field to the engine, and the ITCH dispatcher hands the 32-bit field on
to the consumer. So whether the book is only ever indexed in range is up to the
messages. For each of the two paths the condition on one message, in the state it
meets, is exact, and `wire_prices_in_range` carries it to whole runs.

A message brings its price to the book unless nothing of it gets there: the pool is
exhausted, a replacement is refused, or an incoming order is filled on arrival.
-/

namespace OpenHft

open OpenHft.Lib

/-- Every price the book has been asked for is in range. -/
def InRange (b : ArrayOrderBook) : Prop := ∀ price ∈ b.touched, ValidPrice price

namespace ArrayOrderBook

variable {b b' : ArrayOrderBook} {p : OrderPtr}

theorem activateLevel_touched {o : Order} {level : LevelPtr}
    (h : b.activateLevel o level = .ok b') : ∀ price ∈ b.touched, price ∈ b'.touched := by
  unfold activateLevel at h
  split at h
  · cases hset : setLevelActive ((b.touch o.price).bitmap o.side) o.price with
    | error f => simp [hset, bind, Except.bind] at h
    | ok bitmap =>
        simp only [hset, bind, Except.bind, Except.ok.injEq] at h
        subst h
        exact fun price hprice => List.mem_cons_of_mem _ hprice
  · cases h
    exact fun _ h => h

theorem raiseBest_touched (b : ArrayOrderBook) (side : Side) (price : Price) :
    (b.raiseBest side price).touched = b.touched := by
  rw [raiseBest_eq]

/-- `addOrder` asks for the level of the order's price before anything else. -/
theorem addOrder_touches (h : b.addOrder p = .ok b') :
    (b.orders p).price ∈ b'.touched := by
  unfold addOrder at h
  cases hlevel : getLevel (b.orders p).side (b.orders p).price with
  | error f => simp [hlevel, bind, Except.bind] at h
  | ok level =>
      cases hact : (b.touch (b.orders p).price).activateLevel (b.orders p) level with
      | error f => simp [hlevel, hact, bind, Except.bind] at h
      | ok b₁ =>
          simp only [hlevel, hact, bind, Except.bind, Except.ok.injEq] at h
          subst h
          rw [raiseBest_touched]
          exact activateLevel_touched hact _ List.mem_cons_self

end ArrayOrderBook

/-! ## Orders by OUCH -/

namespace MatchingEngine

variable {e e' : MatchingEngine} {Q : Queues} {p : OrderPtr}

/-- The order crosses, and what is resting fills it to the last unit. -/
def FilledOnArrival (e : MatchingEngine) (p : OrderPtr) : Prop :=
  e.canCross p = .ok true ∧
    ∃ e', tradeLoop p (e.book.orders p).quantity.toNat e = .ok e' ∧
      (e'.book.orders p).quantity = 0

theorem process_filled (he : EngineInv e Q [p]) (h : e.FilledOnArrival p) :
    ∃ e' Q', e.process (some p) = .ok e' ∧ EngineInv e' Q' [] := by
  obtain ⟨hc, e₁, hloop, hzero⟩ := h
  obtain ⟨e₂, Q₂, hloop₂, he₂, -, -⟩ := tradeLoop_inv _ he (Nat.le_refl _)
  cases hloop.symm.trans hloop₂
  refine ⟨_, Q₂, ?_, he₂.free⟩
  simp [process, hc, executeTrade, hloop, hzero, bind, Except.bind]

/-- An order that is not filled on arrival brings its price to the book. -/
theorem process_touches (he : EngineInv e Q [p]) (hok : e.process (some p) = .ok e')
    (h : ¬e.FilledOnArrival p) : (e.book.orders p).price ∈ e'.book.touched := by
  obtain ⟨c, hc⟩ := canCross_ok he.book p
  cases c with
  | false =>
      cases hadd : e.book.addOrder p with
      | error f => simp [process, hc, hadd, bind, Except.bind] at hok
      | ok b =>
          simp only [process, hc, hadd, bind, Except.bind, Bool.false_eq_true, if_false,
            Except.ok.injEq] at hok
          subst hok
          exact ArrayOrderBook.addOrder_touches hadd
  | true =>
      obtain ⟨e₁, Q₁, hloop, he₁, hside, hprice⟩ := tradeLoop_inv _ he (Nat.le_refl _)
      have hpos : (e₁.book.orders p).quantity > 0 := by
        rcases Quantity.eq_zero_or_pos (e₁.book.orders p).quantity with h0 | hpos
        · exact absurd ⟨hc, e₁, hloop, h0⟩ h
        · exact hpos
      cases hadd : e₁.book.addOrder p with
      | error f =>
          simp [process, hc, executeTrade, hloop, if_pos hpos, hadd, bind, Except.bind] at hok
      | ok b =>
          simp only [process, hc, executeTrade, hloop, if_pos hpos, hadd, bind, Except.bind,
            if_true, Except.ok.injEq] at hok
          subst hok
          rw [← hprice]
          exact ArrayOrderBook.addOrder_touches hadd

/-- What `process` needs of the price it is given. -/
theorem process_keeps (he : EngineInv e Q [p])
    (h : ValidPrice (e.book.orders p).price ∨ e.FilledOnArrival p) :
    ∃ e' Q', e.process (some p) = .ok e' ∧ EngineInv e' Q' [] := by
  rcases h with hv | hfill
  · exact process_inv he hv
  · exact process_filled he hfill

theorem process_needs (he : EngineInv e Q [p]) (hok : e.process (some p) = .ok e')
    (hin : InRange e'.book) : ValidPrice (e.book.orders p).price ∨ e.FilledOnArrival p := by
  by_cases hfill : e.FilledOnArrival p
  · exact .inr hfill
  · exact .inl (hin _ (process_touches he hok hfill))

end MatchingEngine

namespace ExchangeOuchHandler

variable {h h' : ExchangeOuchHandler} {call : EnterOrderCall} {enterOrder : EnterOrder}
  {p : OrderPtr} {rest : List OrderPtr}

/-- An order that is decoded and finds an object in the pool has a price in range. -/
def PriceValid (h : ExchangeOuchHandler) (call : EnterOrderCall) : Prop :=
  ∀ enterOrder, OuchDecoder.decodeEnterOrder call.data call.length = some enterOrder →
    h.matchingEngine.orderPool.freeList ≠ [] → ValidPrice enterOrder.price.toInt64

/-- The same, but for orders that are filled before they rest. -/
def PriceFits (h : ExchangeOuchHandler) (call : EnterOrderCall) : Prop :=
  ∀ enterOrder order engine,
    OuchDecoder.decodeEnterOrder call.data call.length = some enterOrder →
    h.matchingEngine.prepareOrder call.accountId enterOrder.side
      enterOrder.price.toInt64 enterOrder.quantity = (some order, engine) →
    ValidPrice enterOrder.price.toInt64 ∨ engine.FilledOnArrival order

theorem PriceValid.fits (hv : h.PriceValid call) : h.PriceFits call := by
  intro enterOrder order engine hd hprepare
  refine Or.inl (hv enterOrder hd fun hfree => ?_)
  rw [EngineInv.prepareOrder_none hfree] at hprepare
  cases hprepare

theorem receive_undecoded
    (hd : OuchDecoder.decodeEnterOrder call.data call.length = none) :
    h.receive call = .ok h := by
  rw [receive, handleEnterOrder_undecoded hd]
  rfl

theorem receive_exhausted
    (hd : OuchDecoder.decodeEnterOrder call.data call.length = some enterOrder)
    (hfree : h.matchingEngine.orderPool.freeList = []) : h.receive call = .ok h := by
  rw [receive, handleEnterOrder_exhausted hd hfree]
  rfl

/-- The engine at the moment `handleEnterOrder` calls `process`. -/
def preparedFor (h : ExchangeOuchHandler) (call : EnterOrderCall) (enterOrder : EnterOrder)
    (p : OrderPtr) (rest : List OrderPtr) : MatchingEngine :=
  EngineInv.prepared h.matchingEngine p rest (EngineInv.newOrder h.matchingEngine
    call.accountId enterOrder.side enterOrder.price.toInt64 enterOrder.quantity)

theorem receive_prepared
    (hd : OuchDecoder.decodeEnterOrder call.data call.length = some enterOrder)
    (hfree : h.matchingEngine.orderPool.freeList = p :: rest) :
    h.receive call = ((h.preparedFor call enterOrder p rest).process (some p)).map
      fun engine =>
        { matchingEngine := engine
          sessionMap := h.sessionMap.registerOrder
            ((h.preparedFor call enterOrder p rest).book.orders p).id
            enterOrder.userRefNum } := by
  rw [receive, handleEnterOrder_prepared hd (EngineInv.prepareOrder_some hfree ..),
    ← preparedFor]
  cases (h.preparedFor call enterOrder p rest).process (some p) <;> rfl

theorem preparedFor_inv {Q : Queues} (hi : EngineInv h.matchingEngine Q [])
    (hfree : h.matchingEngine.orderPool.freeList = p :: rest) (call : EnterOrderCall)
    (enterOrder : EnterOrder) :
    EngineInv (h.preparedFor call enterOrder p rest) Q [p] ∧
      ((h.preparedFor call enterOrder p rest).book.orders p).price =
        enterOrder.price.toInt64 := by
  refine ⟨hi.prepare hfree rfl, ?_⟩
  rw [preparedFor, EngineInv.prepared_self]
  rfl

theorem receive_keeps (hi : h.Inv) (hfits : h.PriceFits call) :
    ∃ h', h.receive call = .ok h' ∧ h'.Inv := by
  obtain ⟨Q, hi⟩ := hi
  cases hd : OuchDecoder.decodeEnterOrder call.data call.length with
  | none => exact ⟨h, receive_undecoded hd, Q, hi⟩
  | some enterOrder =>
      cases hfree : h.matchingEngine.orderPool.freeList with
      | nil => exact ⟨h, receive_exhausted hd hfree, Q, hi⟩
      | cons p rest =>
          obtain ⟨hinv, hprice⟩ := preparedFor_inv hi hfree call enterOrder
          have hpossible := hfits enterOrder p _ hd (EngineInv.prepareOrder_some hfree ..)
          rw [← preparedFor, ← hprice] at hpossible
          obtain ⟨e', Q', hok, he'⟩ := MatchingEngine.process_keeps hinv hpossible
          have hreceive := receive_prepared hd hfree
          rw [hok] at hreceive
          exact ⟨_, hreceive, Q', he'⟩

theorem receive_needs (hi : h.Inv) (hok : h.receive call = .ok h')
    (hin : InRange h'.matchingEngine.book) : h.PriceFits call := by
  obtain ⟨Q, hi⟩ := hi
  intro enterOrder order engine hd hprepare
  cases hfree : h.matchingEngine.orderPool.freeList with
  | nil =>
      rw [EngineInv.prepareOrder_none hfree] at hprepare
      cases hprepare
  | cons p rest =>
      rw [EngineInv.prepareOrder_some hfree] at hprepare
      obtain ⟨hinv, hprice⟩ := preparedFor_inv hi hfree call enterOrder
      rw [receive_prepared hd hfree] at hok
      cases hprepare
      cases hp : (h.preparedFor call enterOrder order rest).process (some order) with
      | error f =>
          rw [hp] at hok
          cases hok
      | ok e' =>
          rw [hp] at hok
          cases hok
          have hneeded := MatchingEngine.process_needs hinv hp hin
          rw [hprice] at hneeded
          exact hneeded

end ExchangeOuchHandler

/-! ## Events by ITCH -/

namespace MarketDataBookConsumer

variable {c c' : MarketDataBookConsumer} {event : MarketDataEvent}
  {message : ItchMessage}

theorem receive_eq (c : MarketDataBookConsumer) (message : ItchMessage) :
    c.receive message =
      match ItchReplayDispatcher.event message.data message.length with
      | none => .ok c
      | some event => c.consume event := by
  rw [receive, ItchReplayDispatcher.dispatch]
  cases ItchReplayDispatcher.event message.data message.length <;> rfl

/-- In this state the event brings its price to the book. -/
def TakesPrice (c : MarketDataBookConsumer) (event : MarketDataEvent) : Prop :=
  match event.type with
  | .addOrder => c.orderPool.freeList ≠ []
  | .replaceOrder => c.book.Replaces event.orderId event.newOrderId event.quantity
  | _ => False

/-- A message that brings a price brings one that there is a level for. -/
def PriceFits (c : MarketDataBookConsumer) (message : ItchMessage) : Prop :=
  ∀ event, ItchReplayDispatcher.event message.data message.length = some event →
    c.TakesPrice event → ValidPrice event.price

/-- The invariant of the consumer, whatever its queues. -/
def Inv (c : MarketDataBookConsumer) : Prop := ∃ Q, ConsumerInv c Q

theorem consume_keeps (hi : c.Inv) (hfits : c.TakesPrice event → ValidPrice event.price) :
    ∃ c', c.consume event = .ok c' ∧ c'.Inv := by
  obtain ⟨Q, hi⟩ := hi
  by_cases hv : ValidPrice event.price
  · obtain ⟨c', Q', hok, hinv⟩ := hi.consume fun _ => hv
    exact ⟨c', hok, Q', hinv⟩
  have htakes : ¬c.TakesPrice event := fun h => hv (hfits h)
  cases ht : event.type with
  | addOrder =>
      simp only [TakesPrice, ht, ne_eq, not_not] at htakes
      exact ⟨c, consume_add_none ht htakes, Q, hi⟩
  | replaceOrder =>
      simp only [TakesPrice, ht] at htakes
      exact ⟨_, consume_replace ht (ArrayOrderBook.replaceOrder_refused htakes _), Q, hi⟩
  | cancelOrder | deleteOrder | executeOrder =>
      have hnone : bringsPrice event = true → ValidPrice event.price := by
        simp [bringsPrice, ht]
      obtain ⟨c', Q', hok, hinv⟩ := hi.consume hnone
      exact ⟨c', hok, Q', hinv⟩

theorem consume_touches (hi : c.Inv) (hok : c.consume event = .ok c')
    (htakes : c.TakesPrice event) : event.price ∈ c'.book.touched := by
  obtain ⟨Q, hi⟩ := hi
  cases ht : event.type with
  | addOrder =>
      simp only [TakesPrice, ht] at htakes
      obtain ⟨p, rest, hfree⟩ := List.exists_cons_of_ne_nil htakes
      cases hadd : (c.book.rewriteOrder p (newOrder event)).addOrder p with
      | error f =>
          rw [ArrayOrderBook.rewriteOrder, newOrder] at hadd
          simp [consume, ht, OrderPool.acquire_some hfree, hadd, bind, Except.bind] at hok
      | ok b =>
          cases hok.symm.trans (consume_add_some ht hfree hadd)
          have := ArrayOrderBook.addOrder_touches hadd
          rwa [ArrayOrderBook.rewriteOrder_self] at this
  | replaceOrder =>
      simp only [TakesPrice, ht] at htakes
      obtain ⟨p, lv, b₁, hf, hp, hcancel, heq⟩ :=
        ArrayOrderBook.replaceOrder_replaces hi.book htakes event.price
      cases hadd : (b₁.rewriteOrder p (ArrayOrderBook.replacement (c.book.orders p)
          event.newOrderId event.quantity event.price)).addOrder p with
      | error f =>
          simp [consume, ht, heq, hadd, Except.map, bind, Except.bind] at hok
      | ok b =>
          rw [hadd] at heq
          cases hok.symm.trans (consume_replace ht heq)
          have := ArrayOrderBook.addOrder_touches hadd
          rwa [ArrayOrderBook.rewriteOrder_self] at this
  | cancelOrder | deleteOrder | executeOrder => simp [TakesPrice, ht] at htakes

theorem receive_keeps (hi : c.Inv) (hfits : c.PriceFits message) :
    ∃ c', c.receive message = .ok c' ∧ c'.Inv := by
  rw [receive_eq]
  cases hevent : ItchReplayDispatcher.event message.data message.length with
  | none => exact ⟨c, rfl, hi⟩
  | some event => exact consume_keeps hi (hfits event hevent)

theorem receive_needs (hi : c.Inv) (hok : c.receive message = .ok c')
    (hin : InRange c'.book) : c.PriceFits message := by
  intro event hevent htakes
  simp only [receive_eq, hevent] at hok
  exact hin _ (consume_touches hi hok htakes)

end MarketDataBookConsumer

/-! ## Whole runs -/

theorem ouch_in_range_iff (stdHash : OrderId → Nat) (calls : List EnterOrderCall) :
    Throughout ExchangeOuchHandler.receive (fun h => InRange h.matchingEngine.book)
        (.init stdHash) calls ↔
      StepsMeet ExchangeOuchHandler.receive ExchangeOuchHandler.PriceFits
        (.init stdHash) calls := by
  refine throughout_iff ExchangeOuchHandler.Inv ?_ ?_ ?_ ?_ calls
  · rintro h ⟨Q, hi⟩
    exact hi.touched
  · exact fun h call hi => ExchangeOuchHandler.receive_keeps hi
  · exact fun h call h' hi => ExchangeOuchHandler.receive_needs hi
  · exact ⟨_, engine_init_inv stdHash⟩

theorem itch_in_range_iff (stdHash : OrderId → Nat) (messages : List ItchMessage) :
    Throughout MarketDataBookConsumer.receive (fun c => InRange c.book)
        (.init stdHash) messages ↔
      StepsMeet MarketDataBookConsumer.receive MarketDataBookConsumer.PriceFits
        (.init stdHash) messages := by
  refine throughout_iff MarketDataBookConsumer.Inv ?_ ?_ ?_ ?_ messages
  · rintro c ⟨Q, hi⟩
    exact hi.touched
  · exact fun c message hi => MarketDataBookConsumer.receive_keeps hi
  · exact fun c message c' hi => MarketDataBookConsumer.receive_needs hi
  · exact ⟨_, pooled_init stdHash⟩

/-- No run faults or asks the book for a price out of range if every message that can
bring a price to the book brings one in range; but for orders filled on arrival, only
then. -/
theorem wire_prices_in_range (stdHash : OrderId → Nat) (calls : List EnterOrderCall)
    (messages : List ItchMessage) :
    (StepsMeet ExchangeOuchHandler.receive ExchangeOuchHandler.PriceValid
        (.init stdHash) calls →
      Throughout ExchangeOuchHandler.receive (fun h => InRange h.matchingEngine.book)
        (.init stdHash) calls) ∧
    (Throughout ExchangeOuchHandler.receive (fun h => InRange h.matchingEngine.book)
        (.init stdHash) calls →
      StepsMeet ExchangeOuchHandler.receive ExchangeOuchHandler.PriceFits
        (.init stdHash) calls) ∧
    (Throughout MarketDataBookConsumer.receive (fun c => InRange c.book)
        (.init stdHash) messages ↔
      StepsMeet MarketDataBookConsumer.receive MarketDataBookConsumer.PriceFits
        (.init stdHash) messages) :=
  ⟨fun h => (ouch_in_range_iff stdHash calls).mpr
      (h.mono fun _ _ => ExchangeOuchHandler.PriceValid.fits),
    (ouch_in_range_iff stdHash calls).mp, itch_in_range_iff stdHash messages⟩

/-- An EnterOrder message: buy ten at `price`. -/
def enterOrderAt (price : UInt64) : EnterOrderCall where
  accountId := 7
  data := Bytes.ofList (['O'.toUInt8, 0, 0, 0, 1, 'B'.toUInt8, 0, 0, 0, 10] ++
    List.replicate 8 32 ++ (writeUint64 price).toList ++ List.replicate 21 0)
  length := 47

/-- An Add Order message: order 1 buys ten at `price`. -/
def addOrderAt (price : UInt32) : ItchMessage where
  data := Bytes.ofList (['A'.toUInt8] ++ List.replicate 17 0 ++
    [1, 'B'.toUInt8, 0, 0, 0, 10] ++ List.replicate 8 32 ++ (writeUint32 price).toList)
  length := 36

/-- An order is added and deleted, and one is added at the other end of the range. -/
def threeEvents : List ItchMessage :=
  [addOrderAt 1, ⟨.ofList (deleteMessage 1), 19⟩, addOrderAt 99999]

/-- Orders and messages whose prices are in range. -/
theorem wire_prices_in_range_both_ends :
    Throughout ExchangeOuchHandler.receive (fun h => InRange h.matchingEngine.book)
        (.init UInt64.toNat) [enterOrderAt 1, enterOrderAt 100, enterOrderAt 99999] ∧
      Throughout MarketDataBookConsumer.receive (fun c => InRange c.book)
        (.init UInt64.toNat) threeEvents := by
  obtain ⟨houch, -, hitch⟩ := wire_prices_in_range UInt64.toNat
    [enterOrderAt 1, enterOrderAt 100, enterOrderAt 99999] threeEvents
  have hcalls : ∀ call ∈ [enterOrderAt 1, enterOrderAt 100, enterOrderAt 99999],
      ∀ enterOrder ∈ OuchDecoder.decodeEnterOrder call.data call.length,
        ValidPrice enterOrder.price.toInt64 := by decide
  have hevents : ∀ message ∈ threeEvents,
      ∀ event ∈ ItchReplayDispatcher.event message.data message.length,
        event.type = .deleteOrder ∨ ValidPrice event.price := by decide
  constructor
  · exact houch (.of_forall fun call hcall h enterOrder hd _ => hcalls call hcall enterOrder hd)
  · refine hitch.mpr (.of_forall fun message hmessage c event hevent htakes => ?_)
    refine (hevents message hmessage event hevent).resolve_left fun ht => ?_
    simp [MarketDataBookConsumer.TakesPrice, ht] at htakes

/-- A price of 0 becomes a level of the book, and a price of 100000 is looked up behind
the last level, on both paths. -/
theorem unchecked_price_reaches_book :
    ¬Throughout ExchangeOuchHandler.receive (fun h => InRange h.matchingEngine.book)
        (.init UInt64.toNat) [enterOrderAt 0] ∧
      ((ExchangeOuchHandler.init UInt64.toNat).receive (enterOrderAt 100000)).map
        (fun _ => ()) = .error (.levelIndex 100000) ∧
      ¬Throughout MarketDataBookConsumer.receive (fun c => InRange c.book)
        (.init UInt64.toNat) [addOrderAt 0] ∧
      ((MarketDataBookConsumer.init UInt64.toNat).receive (addOrderAt 100000)).map
        (fun _ => ()) = .error (.levelIndex 100000) := by
  have houch : ((ExchangeOuchHandler.init UInt64.toNat).receive (enterOrderAt 0)).map
      (fun h => h.matchingEngine.book.touched) = .ok [0, 0] := by decide +kernel
  have hitch : ((MarketDataBookConsumer.init UInt64.toNat).receive (addOrderAt 0)).map
      (fun c => c.book.touched) = .ok [0, 0] := by decide +kernel
  refine ⟨?_, by decide +kernel, ?_, by decide +kernel⟩
  · rintro ⟨-, h, hok, hin⟩
    rw [hok] at houch
    have htouched : h.matchingEngine.book.touched = [0, 0] := Except.ok.inj houch
    exact absurd (hin 0 (htouched ▸ List.mem_cons_self)) (by decide)
  · rintro ⟨-, c, hok, hin⟩
    rw [hok] at hitch
    have htouched : c.book.touched = [0, 0] := Except.ok.inj hitch
    exact absurd (hin 0 (htouched ▸ List.mem_cons_self)) (by decide)

end OpenHft
