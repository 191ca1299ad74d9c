import OpenHft.Model.TradingDesk
import OpenHft.Proofs.MarketShown
import OpenHft.Proofs.OrderValue
import OpenHft.Spec.ReferenceDesk

/-!
# The trading side follows its reference

Between an event and a message there are a book with bitmaps and chained orders, a strategy
that reads it, a risk manager on 64-bit integers and a sink that numbers. `Follows` is what
they amount to: a market, a list of orders and a transport. What a strategy reads off a book
is what the book shows of the market (`Sees`); what the risk manager allows is what the
limits say of integers, because a price off the book is too small for the product of `check`
to wrap. One event keeps `Follows`, so a run does.

The feed has to be one the book can hold: prices in range, and no id brought twice.
-/

namespace OpenHft

open OpenHft.Lib

/-! ## Strategies that look at the market only -/

/-- Over a book that shows a market the strategy decides on the market, and its orders have
prices in range. -/
def Sees (strategy : IStrategy) (decision : Decision) : Prop :=
  ∀ b m event, ShowsMarket b m → strategy b event = .ok (decision m event) ∧
    ∀ intent, decision m event = some intent → ValidPrice intent.price

section Strategies

variable {b : ArrayOrderBook} {m : Market} {D : Type} [DoubleArith D]

theorem MarketFeatureExtractor.extract_eq (h : ShowsMarket b m) :
    MarketFeatureExtractor.extract b = .ok (m.features D) := by
  unfold MarketFeatureExtractor.extract Market.features
  rw [ArrayOrderBook.bestBid, ArrayOrderBook.bestAsk]
  cases hbid : m.best .buy with
  | none =>
      rw [h.none _ hbid]
      cases hask : m.best .sell with
      | none =>
          rw [h.none _ hask]
          rfl
      | some ask =>
          obtain ⟨hv, hlevel, -⟩ := h.some _ _ hask
          rw [hlevel]
          rfl
  | some bid =>
      obtain ⟨hvb, hbidLevel, hbidPrice⟩ := h.some _ _ hbid
      rw [hbidLevel]
      cases hask : m.best .sell with
      | none =>
          rw [h.none _ hask]
          rfl
      | some ask =>
          obtain ⟨hva, haskLevel, haskPrice⟩ := h.some _ _ hask
          rw [haskLevel]
          simp only [bind, Except.bind, hbidPrice, haskPrice, h.shown]
          split
          · rfl
          · rfl

/-- The prices of the features are prices of the market. -/
theorem Market.features_prices {features : MarketFeatures D} (h : m.features D = some features) :
    m.best .buy = some features.bestBidPrice ∧ m.best .sell = some features.bestAskPrice := by
  unfold Market.features at h
  cases hbid : m.best .buy with
  | none => simp [hbid] at h
  | some bid =>
      cases hask : m.best .sell with
      | none => simp [hbid, hask] at h
      | some ask =>
          simp only [hbid, hask] at h
          split at h
          · cases h
          · cases h
            exact ⟨rfl, rfl⟩

theorem MicrostructureStrategy.sees (strategy : MicrostructureStrategy D) :
    Sees strategy.onMarketData strategy.decision := by
  intro b m event h
  rw [MicrostructureStrategy.onMarketData, MicrostructureStrategy.decision,
    MarketFeatureExtractor.extract_eq h]
  cases hfeatures : m.features D with
  | none => exact ⟨rfl, fun intent hintent => by cases hintent⟩
  | some features =>
      obtain ⟨hbid, hask⟩ := Market.features_prices hfeatures
      obtain ⟨hbidValid, -, -⟩ := h.some _ _ hbid
      obtain ⟨haskValid, -, -⟩ := h.some _ _ hask
      by_cases hbuy : strategy.signalModel features ≥ strategy.buyScoreThreshold
      · simp only [bind, Except.bind, Option.bind, if_pos hbuy]
        refine ⟨rfl, fun intent hintent => ?_⟩
        cases hintent
        exact haskValid
      · by_cases hsell : strategy.signalModel features ≤ strategy.sellScoreThreshold
        · simp only [bind, Except.bind, Option.bind, if_neg hbuy, if_pos hsell]
          refine ⟨rfl, fun intent hintent => ?_⟩
          cases hintent
          exact hbidValid
        · simp only [bind, Except.bind, Option.bind, if_neg hbuy, if_neg hsell]
          exact ⟨rfl, fun intent hintent => by cases hintent⟩

theorem SimpleThresholdStrategy.sees (strategy : SimpleThresholdStrategy) :
    Sees strategy.onMarketData strategy.decision := by
  intro b m event h
  rw [SimpleThresholdStrategy.onMarketData, SimpleThresholdStrategy.decision,
    ArrayOrderBook.bestAsk]
  cases hask : m.best .sell with
  | none =>
      rw [h.none _ hask]
      refine ⟨?_, fun intent hintent => by cases hintent⟩
      split
      · rfl
      · split <;> rfl
  | some ask =>
      obtain ⟨hv, hlevel, hprice⟩ := h.some _ _ hask
      rw [hlevel]
      simp only [bind, Except.bind, Option.bind, hprice, gt_iff_lt, ← Int64.not_le]
      by_cases ht : event.type = .addOrder
      · by_cases hs : event.side = .sell
        · by_cases hp : ask ≤ strategy.buyBelowPrice
          · simp only [ht, hs, hp, ne_eq, not_true, if_false, and_self, if_true]
            refine ⟨rfl, fun intent hintent => ?_⟩
            cases hintent
            exact hv
          · simp only [ht, hs, hp, ne_eq, not_true, if_false, and_false, not_false_iff, if_true]
            exact ⟨rfl, fun intent hintent => by cases hintent⟩
        · simp only [ht, hs, ne_eq, not_true, if_false, false_and, and_false, not_false_iff,
            if_true]
          exact ⟨rfl, fun intent hintent => by cases hintent⟩
      · simp only [ht, ne_eq, not_false_iff, if_true, false_and, if_false]
        exact ⟨rfl, fun intent hintent => by cases hintent⟩

end Strategies

/-! ## The risk manager -/

namespace ReferenceDesk

variable {τ : Type} {d : ReferenceDesk τ} {r : RiskManager} {intent : OrderIntent}

/-- The risk manager has the positions of the desk. -/
def Counted (r : RiskManager) (d : ReferenceDesk τ) : Prop :=
  ∀ account, (r.position account).toInt = d.position account

theorem positionOf_append (orders : List (OrderIntent × Bool)) (intent : OrderIntent)
    (taken : Bool) (account : AccountId) :
    positionOf (orders ++ [(intent, taken)]) account =
      positionOf orders account +
        if taken = true ∧ intent.accountId = account then intent.signed else 0 := by
  rw [positionOf, List.filter_append, List.map_append, List.sum_append, positionOf]
  by_cases h : taken = true ∧ intent.accountId = account
  · simp [h, OrderIntent.signed]
  · rw [if_neg h, List.filter_cons_of_neg (by simpa using h)]
    simp

/-- The four tests that look at the order only, as integers. -/
theorem fits_iff (hv : ValidPrice intent.price) :
    RiskManager.OrderFits intent ↔ 0 < intent.quantity.toNat ∧
      intent.quantity.toNat ≤ 100000 ∧ intent.value ≤ 10000000 := by
  have hrange := hv.toInt_range
  have hpos : 0 < intent.price := Int64.lt_iff_toInt_lt.mpr (by rw [Int64.toInt_zero]; omega)
  have hvalue := RiskManager.orderValue_toNat hpos
  rw [RiskManager.OrderFits, UInt32.lt_iff_toNat_lt, UInt32.le_iff_toNat_le,
    UInt64.le_iff_toNat_le]
  have hzero : (0 : UInt32).toNat = 0 := rfl
  have hmax : RiskManager.maxOrderQuantity.toNat = 100000 := rfl
  have hlimit : RiskManager.maxOrderValue.toNat = 10000000 := rfl
  rw [hzero, hmax, hlimit]
  refine ⟨fun ⟨_, h0, hq, hle⟩ => ⟨h0, hq, ?_⟩, fun ⟨h0, hq, hle⟩ => ⟨hpos, h0, hq, ?_⟩⟩
  all_goals
    have hnonneg : 0 ≤ intent.value := Int.mul_nonneg (by omega) (by omega)
    have hsmall : intent.value < 2 ^ 64 := by
      have hmul : intent.value ≤ 99999 * 100000 := by
        rw [OrderIntent.value]
        exact Int.mul_le_mul hrange.2 (by omega) (by omega) (by omega)
      omega
    rw [Int.emod_eq_of_lt hnonneg hsmall] at hvalue
    omega

/-- The check accepts what the limits allow. -/
theorem check_iff (hlimited : r.Limited) (hcounted : Counted r d)
    (hv : ValidPrice intent.price) :
    r.check intent = .ok .accepted ↔ d.Allowed intent := by
  have hprice := hv.toInt_range
  have hvalue : intent.value = intent.price.toInt * intent.quantity.toNat := rfl
  have hsigned : intent.signed = signedQuantity intent.side intent.quantity := rfl
  rw [Allowed, ← hvalue, ← hsigned]
  by_cases hfits : RiskManager.OrderFits intent
  · obtain ⟨h0, hq, hle⟩ := (fits_iff hv).mp hfits
    obtain ⟨-, -, hsize, -⟩ := id hfits
    have hold := hlimited intent.accountId
    obtain ⟨position, hmove, hposition⟩ := movePosition_ok hold hsize
    have hbound : intent.signed.natAbs = intent.quantity.toNat := by
      cases hside : intent.side <;> simp [OrderIntent.signed, signedQuantity, hside]
    obtain ⟨magnitude, habs, hmagnitude⟩ := absInt64_ok (a := position) (by omega)
    have hcheck := RiskManager.check_of_fits (r := r) hfits
    simp only [hmove, habs, bind, Except.bind] at hcheck
    have hmax : RiskManager.maxPosition.toInt = 500 := rfl
    rw [hcheck, ← hcounted intent.accountId, ← hposition]
    by_cases hlimit : magnitude > RiskManager.maxPosition
    · have hlt := Int64.lt_iff_toInt_lt.mp hlimit
      rw [if_pos hlimit]
      refine iff_of_false (fun h => by cases h) fun h => ?_
      omega
    · have hge := Int64.le_iff_toInt_le.mp (Int64.not_lt.mp hlimit)
      rw [if_neg hlimit]
      refine iff_of_true rfl ⟨by omega, h0, hq, hle, ?_⟩
      omega
  · refine iff_of_false (fun h => hfits (RiskManager.fits_of_accepted h)) fun h => hfits ?_
    exact (fits_iff hv).mpr ⟨h.2.1, h.2.2.1, h.2.2.2.1⟩

end ReferenceDesk

/-! ## One event -/

/-- The components behind the pipeline and the reference desk after the same events. -/
structure Follows {τ : Type} (desk : TradingDesk τ) (d : ReferenceDesk τ) : Prop where
  shows : ∃ Q, Shows desk.bookConsumer Q d.market
  counted : d.Counted desk.gateway.riskManager
  limited : desk.gateway.riskManager.Limited
  next : desk.gateway.executionSink.next = UInt32.ofNat (d.orders.length + 1)
  transport : desk.gateway.executionSink.transport = d.transport

namespace Follows

open MarketDataBookConsumer

variable {τ : Type} {desk : TradingDesk τ} {d : ReferenceDesk τ} {send : OuchTransport τ}
  {strategy : IStrategy} {decision : Decision} {intent : OrderIntent} {event : MarketDataEvent}

theorem init (stdHash : OrderId → Nat) (transport : τ) :
    Follows (.init stdHash transport) (.init transport) where
  shows := ⟨_, Shows.init stdHash⟩
  counted := fun _ => rfl
  limited := RiskManager.init_limited
  next := rfl
  transport := rfl

/-- What the sink does with an order. -/
theorem executionSink_eq (send : OuchTransport τ) (intent : OrderIntent)
    (hnext : desk.gateway.executionSink.next = UInt32.ofNat (d.orders.length + 1))
    (htransport : desk.gateway.executionSink.transport = d.transport) :
    OuchExecutionSink.executionSink send intent desk.gateway.executionSink =
      .ok ((send (ReferenceDesk.message (d.orders.length + 1) intent) d.transport).1,
        { transport := (send (ReferenceDesk.message (d.orders.length + 1) intent) d.transport).2
          next := UInt32.ofNat (d.orders.length + 1 + 1) }) := by
  have hcount : UInt32.ofNat (d.orders.length + 1) + 1 =
      UInt32.ofNat (d.orders.length + 1 + 1) := by
    rw [UInt32.ofNat_add (d.orders.length + 1) 1]
    rfl
  rw [OuchExecutionSink.executionSink, OuchExecutionSink.submit, OuchExecutionSink.nextUserRefNum,
    hnext, htransport, ReferenceDesk.message, ← hcount]

theorem submit (send : OuchTransport τ) (h : Follows desk d) (hv : ValidPrice intent.price) :
    ∃ accepted gateway,
      GatewayOrderIntentSink.submit (OuchExecutionSink.executionSink send) desk.gateway intent =
        .ok (accepted, gateway) ∧
      Follows { desk with gateway := gateway } (d.submit send intent) := by
  have hcheck := ReferenceDesk.check_iff h.limited h.counted hv
  have hsink := executionSink_eq send intent h.next h.transport
  obtain ⟨result, gateway, hok, hout⟩ := Gateway.submit_outcome h.limited fun _ => ⟨_, _, hsink⟩
  have hlimited := hout.limited h.limited
  refine ⟨result.accepted, gateway, by
    simp only [GatewayOrderIntentSink.submit, hok, bind, Except.bind, pure, Except.pure], ?_⟩
  unfold ReferenceDesk.submit
  cases hout with
  | refused riskResult hrisk hne =>
      have hnot : ¬ d.Allowed intent := by
        rw [← hcheck, hrisk]
        exact fun heq => hne (Except.ok.inj heq)
      rw [if_neg hnot]
      exact ⟨h.shows, h.counted, h.limited, h.next, h.transport⟩
  | rejected s hrisk hpassed hs =>
      rw [if_pos (hcheck.mp hrisk)]
      rw [hsink] at hs
      obtain ⟨htaken, rfl⟩ := Prod.mk.inj (Except.ok.inj hs)
      refine ⟨h.shows, fun account => ?_, hlimited, ?_, rfl⟩
      · dsimp only
        rw [ReferenceDesk.position, ReferenceDesk.positionOf_append, htaken,
          if_neg (fun heq => by cases heq.1), Int.add_zero]
        exact h.counted account
      · show UInt32.ofNat _ = UInt32.ofNat ((d.orders ++ [_]).length + 1)
        rw [List.length_append, List.length_singleton]
  | accepted s r hrisk hpassed hs hcounts hlim =>
      rw [if_pos (hcheck.mp hrisk)]
      rw [hsink] at hs
      obtain ⟨htaken, rfl⟩ := Prod.mk.inj (Except.ok.inj hs)
      refine ⟨h.shows, fun account => ?_, hlimited, ?_, rfl⟩
      · dsimp only
        rw [ReferenceDesk.position, ReferenceDesk.positionOf_append, htaken, hcounts account,
          h.counted account, ReferenceDesk.position]
        simp only [true_and]
      · show UInt32.ofNat _ = UInt32.ofNat ((d.orders ++ [_]).length + 1)
        rw [List.length_append, List.length_singleton]

theorem consume (send : OuchTransport τ) (h : Follows desk d) (hsees : Sees strategy decision)
    (hv : bringsPrice event = true → ValidPrice event.price)
    (hfresh : event.type = .addOrder → Replay.find d.market.live event.orderId = none) :
    ∃ desk', desk.consume strategy send event = .ok desk' ∧
      Follows desk' (d.consume decision send event) := by
  obtain ⟨Q, hshows⟩ := h.shows
  obtain ⟨c, Q', hok, hshows'⟩ := hshows.consume hv hfresh
  obtain ⟨hanswer, hvalid⟩ := hsees c.book (d.market.step event) event hshows'.showsMarket
  have hconsumed : MarketDataStrategyConsumer.consume strategy desk.bookConsumer event =
      .ok (decision (d.market.step event) event, c) := by
    simp only [MarketDataStrategyConsumer.consume, hok, hanswer, bind, Except.bind, pure,
      Except.pure]
  have hnext : Follows { desk with bookConsumer := c } { d with market := d.market.step event } :=
    ⟨⟨Q', hshows'⟩, h.counted, h.limited, h.next, h.transport⟩
  rw [TradingDesk.consume, hconsumed, ReferenceDesk.consume]
  cases hdecision : decision (d.market.step event) event with
  | none => exact ⟨_, rfl, hnext⟩
  | some intent =>
      obtain ⟨accepted, gateway, hsubmit, hfollows⟩ :=
        hnext.submit send (hvalid intent hdecision)
      refine ⟨_, ?_, hfollows⟩
      simp only [bind, Except.bind, pure, Except.pure]
      rw [hsubmit]

end Follows

end OpenHft
