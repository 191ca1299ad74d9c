import OpenHft.Proofs.GatewayLimit
import OpenHft.Proofs.WirePrices

/-!
# Prices that pass the risk checks

`RiskManager::check` wants a price above 0 and bounds the product of price and quantity,
which is taken modulo 2⁶⁴. Neither keeps the price below the number of levels: one unit at
100000 is worth little, and sixteen units at 2⁶⁰ are worth nothing at all. What a run over
the matching engine needs is therefore a condition on the prices themselves, and it is the
one that orders from the wire have to meet, asked of the orders that pass. It can be missed
without harm only by an order that is filled before it rests; where the orders find nothing
to trade with, it is exact.
-/

namespace OpenHft

open OpenHft.Lib

namespace MatchingEngineExecutionSink

variable {e e' : MatchingEngine} {Q : Queues} {intent : OrderIntent} {done : Bool}

/-- The price of the intent is in range, unless the order is filled before it rests. -/
def PriceFits (e : MatchingEngine) (intent : OrderIntent) : Prop :=
  ∀ order engine,
    e.prepareOrder intent.accountId intent.side intent.price intent.quantity =
      (some order, engine) →
    ValidPrice intent.price ∨ engine.FilledOnArrival order

/-- The price of the order that the sink has made. -/
theorem prepared_price (e : MatchingEngine) (p : OrderPtr) (rest : List OrderPtr)
    (intent : OrderIntent) :
    ((EngineInv.prepared e p rest (EngineInv.newOrder e intent.accountId intent.side
      intent.price intent.quantity)).book.orders p).price = intent.price := by
  rw [EngineInv.prepared_self]
  rfl

theorem submit_keeps (he : EngineInv e Q []) (hfits : PriceFits e intent) :
    ∃ done e' Q', submit intent e = .ok (done, e') ∧ EngineInv e' Q' [] := by
  cases hfree : e.orderPool.freeList with
  | nil =>
      refine ⟨false, e, Q, ?_, he⟩
      rw [submit, MatchingEngine.submitOrder_none hfree]
      rfl
  | cons p rest =>
      have hpossible := hfits p _ (EngineInv.prepareOrder_some hfree ..)
      obtain ⟨e', Q', hok, he'⟩ := MatchingEngine.process_keeps (he.prepare hfree rfl)
        (hpossible.imp_left (congrArg ValidPrice (prepared_price e p rest intent)).mpr)
      refine ⟨decide (e.sequence + 1 ≠ 0), e', Q', ?_, he'⟩
      rw [submit, MatchingEngine.submitOrder_some hfree hok]
      rfl

theorem submit_needs (he : EngineInv e Q []) (hok : submit intent e = .ok (done, e'))
    (hin : InRange e'.book) : PriceFits e intent := by
  intro order engine hprepare
  obtain ⟨⟨id, e₁⟩, hsubmit, hdone⟩ := bind_eq_ok.mp hok
  cases hdone
  cases hfree : e.orderPool.freeList with
  | nil =>
      rw [EngineInv.prepareOrder_none hfree] at hprepare
      cases hprepare
  | cons p rest =>
      rw [EngineInv.prepareOrder_some hfree] at hprepare
      cases hprepare
      simp only [MatchingEngine.submitOrder, EngineInv.prepareOrder_some hfree] at hsubmit
      obtain ⟨e₁, hprocess, hid⟩ := bind_eq_ok.mp hsubmit
      cases hid
      have hneeded := MatchingEngine.process_needs (he.prepare hfree rfl) hprocess hin
      rw [prepared_price] at hneeded
      exact hneeded

end MatchingEngineExecutionSink

namespace Gateway

variable {g g' : Gateway MatchingEngine} {intent : OrderIntent}

/-- An order that passes is handed to the sink, whatever comes of it. -/
theorem submit_reaches_sink {σ : Type} {sink : OrderExecutionSink σ} {g g' : Gateway σ}
    {result : GatewayResult} (hcheck : g.riskManager.check intent = .ok .accepted)
    (hok : g.submit sink intent = .ok (result, g')) :
    ∃ done, sink intent g.executionSink = .ok (done, g'.executionSink) := by
  obtain ⟨riskResult, hrisk, hok⟩ := bind_eq_ok.mp hok
  cases hcheck.symm.trans hrisk
  rw [if_neg (by decide)] at hok
  obtain ⟨⟨done, s⟩, hsink, hok⟩ := bind_eq_ok.mp hok
  refine ⟨done, ?_⟩
  cases done with
  | false =>
      cases hok
      exact hsink
  | true =>
      obtain ⟨riskManager, -, hok⟩ := bind_eq_ok.mp hok
      cases hok
      exact hsink

/-- An order that passes the checks and finds an object in the pool has a price in range. -/
def PriceValid (g : Gateway MatchingEngine) (intent : OrderIntent) : Prop :=
  g.riskManager.check intent = .ok .accepted →
    g.executionSink.orderPool.freeList ≠ [] → ValidPrice intent.price

/-- The order, if there is an object for it, finds nothing to trade with. -/
def CrossesNothing (g : Gateway MatchingEngine) (intent : OrderIntent) : Prop :=
  ∀ order engine,
    g.executionSink.prepareOrder intent.accountId intent.side intent.price intent.quantity =
      (some order, engine) → engine.canCross order = .ok false

/-- The same as `PriceValid`, but for orders that are filled before they rest. -/
def PriceFits (g : Gateway MatchingEngine) (intent : OrderIntent) : Prop :=
  g.riskManager.check intent = .ok .accepted →
    MatchingEngineExecutionSink.PriceFits g.executionSink intent

theorem PriceValid.fits (h : g.PriceValid intent) : g.PriceFits intent := by
  intro hcheck order engine hprepare
  refine .inl (h hcheck fun hfree => ?_)
  rw [EngineInv.prepareOrder_none hfree] at hprepare
  cases hprepare

/-- Only an order that crosses is filled. -/
theorem PriceFits.valid (h : g.PriceFits intent) (hnothing : g.CrossesNothing intent) :
    g.PriceValid intent := by
  intro hcheck hfree
  obtain ⟨p, rest, hcons⟩ := List.exists_cons_of_ne_nil hfree
  have hprepare := EngineInv.prepareOrder_some hcons intent.accountId intent.side intent.price
    intent.quantity
  rcases h hcheck p _ hprepare with hvalid | ⟨hcross, -⟩
  · exact hvalid
  · have hno := hnothing p _ hprepare
    rw [hcross] at hno
    cases hno

/-- What every call with a price that fits keeps. -/
structure Intact (g : Gateway MatchingEngine) : Prop where
  limited : g.riskManager.Limited
  engine : ∃ Q, EngineInv g.executionSink Q []

theorem init_intact (stdHash : OrderId → Nat) : Intact (.init (.init stdHash)) :=
  ⟨RiskManager.init_limited, _, engine_init_inv stdHash⟩

theorem receive_keeps (h : g.Intact) (hfits : g.PriceFits intent) :
    ∃ g', g.receive intent = .ok g' ∧ g'.Intact := by
  obtain ⟨Q, he⟩ := h.engine
  have houtcome : ∃ result g',
      g.submit MatchingEngineExecutionSink.submit intent = .ok (result, g') ∧
      SubmitOutcome MatchingEngineExecutionSink.submit g intent result g' := by
    refine submit_outcome h.limited fun hcheck => ?_
    obtain ⟨done, e', Q', hsink, -⟩ := MatchingEngineExecutionSink.submit_keeps he (hfits hcheck)
    exact ⟨done, e', hsink⟩
  obtain ⟨result, g', hok, hout⟩ := houtcome
  refine ⟨g', by rw [receive, hok]; rfl, hout.limited h.limited, ?_⟩
  have hkept {done : Bool} {e' : MatchingEngine}
      (hcheck : g.riskManager.check intent = .ok .accepted)
      (hsink : MatchingEngineExecutionSink.submit intent g.executionSink = .ok (done, e')) :
      ∃ Q', EngineInv e' Q' [] := by
    obtain ⟨done₁, e₁, Q', hsink₁, he₁⟩ :=
      MatchingEngineExecutionSink.submit_keeps he (hfits hcheck)
    cases hsink₁.symm.trans hsink
    exact ⟨Q', he₁⟩
  cases hout with
  | refused _ _ _ => exact h.engine
  | rejected _ hcheck _ hsink => exact hkept hcheck hsink
  | accepted _ _ hcheck _ hsink _ _ => exact hkept hcheck hsink

theorem receive_needs (h : g.Intact) (hok : g.receive intent = .ok g')
    (hin : InRange g'.executionSink.book) : g.PriceFits intent := by
  intro hcheck
  obtain ⟨Q, he⟩ := h.engine
  obtain ⟨⟨result, g₁⟩, hsubmit, hg₁⟩ := map_eq_ok.mp hok
  cases hg₁
  obtain ⟨done, hsink⟩ := submit_reaches_sink hcheck hsubmit
  exact MatchingEngineExecutionSink.submit_needs he hsink hin

end Gateway

theorem gateway_throughout_iff (stdHash : OrderId → Nat) (intents : List OrderIntent) :
    Throughout Gateway.receive (fun g => InRange g.executionSink.book)
        (.init (.init stdHash)) intents ↔
      StepsMeet Gateway.receive Gateway.PriceFits (.init (.init stdHash)) intents := by
  refine throughout_iff Gateway.Intact ?_ ?_ ?_ (Gateway.init_intact stdHash) intents
  · intro g h
    obtain ⟨Q, he⟩ := h.engine
    exact he.touched
  · exact fun g intent h => Gateway.receive_keeps h
  · exact fun g intent g' h => Gateway.receive_needs h

/-- No run of the gateway faults or asks the book for a price out of range if every order that
passes the checks, and for which there is an object, has a price in range. In runs whose orders
find nothing to trade with this is exact; in others, an order out of range does no harm exactly
if it is filled on arrival. -/
theorem gateway_prices_in_range (stdHash : OrderId → Nat) (intents : List OrderIntent) :
    (StepsMeet Gateway.receive Gateway.PriceValid (.init (.init stdHash)) intents →
      Throughout Gateway.receive (fun g => InRange g.executionSink.book)
        (.init (.init stdHash)) intents) ∧
    (StepsMeet Gateway.receive Gateway.CrossesNothing (.init (.init stdHash)) intents →
      (Throughout Gateway.receive (fun g => InRange g.executionSink.book)
          (.init (.init stdHash)) intents ↔
        StepsMeet Gateway.receive Gateway.PriceValid (.init (.init stdHash)) intents)) ∧
    (Throughout Gateway.receive (fun g => InRange g.executionSink.book)
        (.init (.init stdHash)) intents →
      StepsMeet Gateway.receive Gateway.PriceFits (.init (.init stdHash)) intents) := by
  have hiff := gateway_throughout_iff stdHash intents
  have henough : StepsMeet Gateway.receive Gateway.PriceValid (.init (.init stdHash)) intents →
      Throughout Gateway.receive (fun g => InRange g.executionSink.book)
        (.init (.init stdHash)) intents :=
    fun h => hiff.mpr (h.mono fun _ _ => Gateway.PriceValid.fits)
  refine ⟨henough, fun hnothing => ⟨fun hthrough => ?_, henough⟩, hiff.mp⟩
  exact ((hiff.mp hthrough).and hnothing).mono fun _ _ h => h.1.valid h.2

/-- Two buy at both ends of the range and a third sells to one of them. -/
def threeIntents : List OrderIntent :=
  [{ price := 1, quantity := 10 }, { price := 99999, quantity := 5 },
    { side := .sell, price := 99999, quantity := 5 }]

theorem gateway_prices_in_range_three_intents :
    (∀ intent ∈ threeIntents, RiskManager.init.check intent = .ok .accepted) ∧
      Throughout Gateway.receive (fun g => InRange g.executionSink.book)
        (.init (.init UInt64.toNat)) threeIntents := by
  refine ⟨by decide +kernel, (gateway_prices_in_range UInt64.toNat threeIntents).1 ?_⟩
  have hvalid : ∀ intent ∈ threeIntents, ValidPrice intent.price := by decide
  exact .of_forall fun intent hintent g _ _ => hvalid intent hintent

/-- An order for one unit at 100000, and one for sixteen at 2⁶⁰, whose value comes out as
0. -/
theorem passed_order_leaves_levels :
    (RiskManager.init.check { price := 100000, quantity := 1 } = .ok .accepted ∧
      ((Gateway.init (MatchingEngine.init UInt64.toNat)).receive
        { price := 100000, quantity := 1 }).map (fun _ => ()) =
          .error (.levelIndex 100000)) ∧
    (RiskManager.init.check { price := 2 ^ 60, quantity := 16 } = .ok .accepted ∧
      ((Gateway.init (MatchingEngine.init UInt64.toNat)).receive
        { price := 2 ^ 60, quantity := 16 }).map (fun _ => ()) =
          .error (.levelIndex (2 ^ 60))) := by
  refine ⟨⟨?_, ?_⟩, ?_, ?_⟩ <;> decide +kernel

end OpenHft
