import OpenHft.Proofs.OrderWire
import OpenHft.Proofs.TradingRuns

/-!
# The orders of a desk

What comes out of a run, whatever the feed, the transport and the interleaving: the orders
are numbered without a gap, each was sent right behind an event and at the best price of
the other side as the event left it, and no front part of them takes a position over the
limit. All of it is said of the messages that the transport is handed, and proved of the
reference desk, which has the orders as a list.
-/

namespace OpenHft

open OpenHft.Lib

/-- An order of the decision is for the instrument of the event, at the best price of the
other side. -/
def TakesTouch (decision : Decision) : Prop :=
  ∀ m event intent, decision m event = some intent →
    intent.symbol = event.symbol ∧ m.best intent.side.opposite = some intent.price

theorem MicrostructureStrategy.takesTouch {D : Type} [DoubleArith D]
    (strategy : MicrostructureStrategy D) : TakesTouch strategy.decision := by
  intro m event intent h
  rw [MicrostructureStrategy.decision] at h
  obtain ⟨features, hfeatures, h⟩ := Option.bind_eq_some_iff.mp h
  obtain ⟨hbid, hask⟩ := Market.features_prices hfeatures
  dsimp only at h
  split at h
  · cases h
    exact ⟨rfl, hask⟩
  · split at h
    · cases h
      exact ⟨rfl, hbid⟩
    · cases h

theorem SimpleThresholdStrategy.takesTouch (strategy : SimpleThresholdStrategy) :
    TakesTouch strategy.decision := by
  intro m event intent h
  rw [SimpleThresholdStrategy.decision] at h
  obtain ⟨ask, hask, h⟩ := Option.bind_eq_some_iff.mp h
  split at h
  · cases h
    exact ⟨rfl, hask⟩
  · cases h

namespace ReferenceDesk

variable {τ : Type} {d : ReferenceDesk τ} {send : OuchTransport τ} {decision : Decision}

/-- An event sends an order that the limits allow, or it sends none. -/
theorem consume_cases (decision : Decision) (send : OuchTransport τ) (d : ReferenceDesk τ)
    (event : MarketDataEvent) :
    (d.consume decision send event = { d with market := d.market.step event }) ∨
      ∃ intent taken transport, decision (d.market.step event) event = some intent ∧
        d.Allowed intent ∧
        send (message (d.orders.length + 1) intent) d.transport = (taken, transport) ∧
        d.consume decision send event =
          { market := d.market.step event
            orders := d.orders ++ [(intent, taken)]
            transport := transport } := by
  rw [consume]
  cases hdecision : decision (d.market.step event) event with
  | none => exact .inl rfl
  | some intent =>
      dsimp only
      rw [submit]
      by_cases hallowed : d.Allowed intent
      · refine .inr ⟨intent, _, _, rfl, hallowed, rfl, ?_⟩
        exact if_pos hallowed
      · exact .inl (if_neg hallowed)

/-- The market is the one behind the events, and every order was decided behind one of
them. -/
structure Decided (decision : Decision) (events : List MarketDataEvent) (d : ReferenceDesk τ) :
    Prop where
  market : d.market = Market.empty.run events
  decided : ∀ x ∈ d.orders, ∃ front event, front ++ [event] <+: events ∧
    decision (Market.empty.run (front ++ [event])) event = some x.1

theorem Decided.consume {events : List MarketDataEvent} (h : Decided decision events d)
    (send : OuchTransport τ) (event : MarketDataEvent) :
    Decided decision (events ++ [event]) (d.consume decision send event) := by
  have hmarket : d.market.step event = Market.empty.run (events ++ [event]) := by
    rw [h.market, Market.run, Market.run, List.foldl_append]
    rfl
  have hearlier : ∀ x ∈ d.orders, ∃ front last, front ++ [last] <+: events ++ [event] ∧
      decision (Market.empty.run (front ++ [last])) last = some x.1 := by
    intro x hx
    obtain ⟨front, last, hfront, hrest⟩ := h.decided x hx
    exact ⟨front, last, hfront.trans (List.prefix_append _ _), hrest⟩
  rcases d.consume_cases decision send event
    with hnone | ⟨intent, taken, transport, hdecision, -, -, hsome⟩
  · rw [hnone]
    exact ⟨hmarket, hearlier⟩
  · rw [hsome]
    refine ⟨hmarket, fun x hx => ?_⟩
    rcases List.mem_append.mp hx with hx | hx
    · exact hearlier x hx
    · rw [List.mem_singleton.mp hx]
      rw [hmarket] at hdecision
      exact ⟨events, event, List.prefix_refl _, hdecision⟩

theorem decided_run (decision : Decision) (send : OuchTransport τ) (transport : τ)
    (events : List MarketDataEvent) :
    Decided decision events ((ReferenceDesk.init transport).run decision send events) := by
  induction events using List.reverseRecOn with
  | nil => exact ⟨rfl, fun x hx => absurd hx List.not_mem_nil⟩
  | append_singleton events event ih =>
      rw [run, List.foldl_append]
      exact ih.consume send event

/-- The price of an order was shown by the book when it was decided. -/
theorem validPrice_of_mem {strategy : IStrategy} (hsees : Sees strategy decision)
    (send : OuchTransport τ) (transport : τ) {events : List MarketDataEvent}
    (hfit : FitFeed events) {x : OrderIntent × Bool}
    (hx : x ∈ ((ReferenceDesk.init transport).run decision send events).orders) :
    ValidPrice x.1.price := by
  obtain ⟨front, event, hfront, hdecision⟩ :=
    (decided_run decision send transport events).decided x hx
  obtain ⟨desk, -, hfollows⟩ := Follows.of_fit hsees send UInt64.toNat transport
    (hfit.sublist hfront.sublist)
  obtain ⟨Q, hshows⟩ := hfollows.shows
  rw [(decided_run decision send transport (front ++ [event])).market] at hshows
  exact (hsees _ _ event hshows.showsMarket).2 x.1 hdecision

/-- No front part of the orders takes a position over the limit. -/
def Limited (d : ReferenceDesk τ) : Prop :=
  ∀ account front, front <+: d.orders → (positionOf front account).natAbs ≤ 500

/-- The position after an order more is within the limit, taken or not. -/
theorem positionOf_concat_le {intent : OrderIntent} (hlimited : d.Limited)
    (hallowed : d.Allowed intent) (taken : Bool) (account : AccountId) :
    (positionOf (d.orders ++ [(intent, taken)]) account).natAbs ≤ 500 := by
  have hbefore := hlimited account d.orders (List.prefix_refl _)
  rw [positionOf_append]
  by_cases h : taken = true ∧ intent.accountId = account
  · obtain ⟨-, rfl⟩ := id h
    rw [if_pos h]
    exact hallowed.2.2.2.2
  · rw [if_neg h, Int.add_zero]
    exact hbefore

theorem Limited.consume (h : d.Limited) (decision : Decision) (send : OuchTransport τ)
    (event : MarketDataEvent) : (d.consume decision send event).Limited := by
  rcases d.consume_cases decision send event
    with hnone | ⟨intent, taken, transport, -, hallowed, -, hsome⟩
  · rw [hnone]
    exact h
  · rw [hsome]
    intro account front hfront
    rcases List.prefix_concat_iff.mp hfront with rfl | hfront
    · exact positionOf_concat_le h hallowed taken account
    · exact h account front hfront

theorem limited_run (decision : Decision) (send : OuchTransport τ) (transport : τ)
    (events : List MarketDataEvent) :
    ((ReferenceDesk.init transport).run decision send events).Limited := by
  induction events using List.reverseRecOn with
  | nil =>
      intro account front hfront
      rw [List.prefix_nil.mp hfront]
      exact Nat.zero_le 500
  | append_singleton events event ih =>
      rw [run, List.foldl_append]
      exact Limited.consume ih decision send event

section Records

variable {α : Type} {record : τ → List α} {entry : List UInt8 → Bool → α} {Usable : τ → Prop}

/-- A transport that records what it is handed has recorded the orders, as long as it can be
used. -/
theorem recorded_consume
    (hsend : ∀ bytes t, Usable t → Usable (send bytes t).2 ∧
      record (send bytes t).2 = record t ++ [entry bytes (send bytes t).1])
    (husable : Usable d.transport)
    (hrecord : record d.transport = d.orders.mapIdx fun n x => entry (message (n + 1) x.1) x.2)
    (event : MarketDataEvent) :
    Usable (d.consume decision send event).transport ∧
      record (d.consume decision send event).transport =
        (d.consume decision send event).orders.mapIdx
          fun n x => entry (message (n + 1) x.1) x.2 := by
  rcases d.consume_cases decision send event
    with hnone | ⟨intent, taken, transport, -, -, hsent, hsome⟩
  · rw [hnone]
    exact ⟨husable, hrecord⟩
  · obtain ⟨hstill, hmore⟩ := hsend (message (d.orders.length + 1) intent) d.transport husable
    rw [hsent] at hstill hmore
    rw [hsome]
    refine ⟨hstill, ?_⟩
    rw [hmore, hrecord, List.mapIdx_append, List.mapIdx_singleton, Nat.zero_add]

theorem recorded_run (record : τ → List α) (entry : List UInt8 → Bool → α) (Usable : τ → Prop)
    (hsend : ∀ bytes t, Usable t → Usable (send bytes t).2 ∧
      record (send bytes t).2 = record t ++ [entry bytes (send bytes t).1])
    {transport : τ} (husable : Usable transport) (hnil : record transport = [])
    (decision : Decision) (events : List MarketDataEvent) :
    let d := (ReferenceDesk.init transport).run decision send events
    Usable d.transport ∧
      record d.transport = d.orders.mapIdx fun n x => entry (message (n + 1) x.1) x.2 := by
  induction events using List.reverseRecOn with
  | nil => exact ⟨husable, hnil⟩
  | append_singleton events event ih =>
      rw [run, List.foldl_append]
      exact recorded_consume hsend ih.1 ih.2 event

end Records

end ReferenceDesk

/-- A transport that also keeps what it is handed, with what it answered. -/
def OuchExecutionSink.answered {τ : Type} (send : OuchTransport τ) :
    OuchTransport (τ × List (List UInt8 × Bool)) := fun bytes state =>
  let (taken, transport) := send bytes state.1
  (taken, (transport, state.2 ++ [(bytes, taken)]))

namespace TradingRuntime

open ReferenceDesk

/-- In every interleaving, over every file that a book can hold and every transport: the
transport has been handed one message for each order of the reference desk, and an order counts
as taken if that is what it answered. The n-th message is the Enter Order with number n; the
order is the decision behind some event, whose instrument it names, its price is in range and
the best of the other side as the event left it; and after every front part of the orders each
position is within the limit. -/
theorem orders_at_touch {τ : Type} {strategy : IStrategy} {decision : Decision}
    (hsees : Sees strategy decision) (htouch : TakesTouch decision) (send : OuchTransport τ)
    (transport : τ) (stdHash : OrderId → Nat) (buffer : Fin QueueCapacity → MarketDataEvent)
    (file : List UInt8) (hfit : FitFeed (fileFeed file)) (turns : List ReplayTurn) :
    let consumed := ((init buffer file).run turns).pipeline.consumed
    let orders := ((ReferenceDesk.init (transport, [])).run decision
      (OuchExecutionSink.answered send) consumed).orders
    ∃ desk, (TradingDesk.init stdHash (transport, [])).consumeAll strategy
        (OuchExecutionSink.answered send) consumed = .ok desk ∧
      desk.gateway.executionSink.transport.2.length = orders.length ∧
      (∀ n intent taken, orders[n]? = some (intent, taken) →
        ∃ bytes, desk.gateway.executionSink.transport.2[n]? = some (bytes, taken) ∧
          bytes.length = 47 ∧
          OuchDecoder.decodeEnterOrder (.ofList bytes) 47 =
            some (OuchExecutionSink.enterOrder (UInt32.ofNat (n + 1)) intent) ∧
          ValidPrice intent.price ∧
          ∃ front event, front ++ [event] <+: consumed ∧
            decision (Market.empty.run (front ++ [event])) event = some intent ∧
            intent.symbol = event.symbol ∧
            (Market.empty.run (front ++ [event])).best intent.side.opposite =
              some intent.price) ∧
      ∀ account front, front <+: orders → (positionOf front account).natAbs ≤ 500 := by
  intro consumed orders
  have hfit' : FitFeed consumed := hfit.sublist (consumed_sublist buffer file turns)
  obtain ⟨desk, hok, hfollows⟩ := Follows.of_fit hsees (OuchExecutionSink.answered send) stdHash
    (transport, []) hfit'
  have hrecords : ∀ bytes t, True → True ∧ (OuchExecutionSink.answered send bytes t).2.2 =
      t.2 ++ [(bytes, (OuchExecutionSink.answered send bytes t).1)] :=
    fun _ _ _ => ⟨trivial, rfl⟩
  obtain ⟨-, hmessages⟩ := recorded_run Prod.snd Prod.mk (fun _ => True) hrecords trivial
    (rfl : (transport, ([] : List (List UInt8 × Bool))).2 = []) decision consumed
  refine ⟨desk, hok, ?_, fun n intent taken hn => ?_,
    limited_run decision (OuchExecutionSink.answered send) (transport, []) consumed⟩
  · rw [hfollows.transport, hmessages, List.length_mapIdx]
  · obtain ⟨front, event, hfront, hdecision⟩ := (decided_run decision
      (OuchExecutionSink.answered send) (transport, []) consumed).decided (intent, taken)
      (List.mem_of_getElem? hn)
    obtain ⟨hsymbol, hbest⟩ := htouch _ _ _ hdecision
    refine ⟨message (n + 1) intent, ?_, Vector.length_toList,
      OuchExecutionSink.decodeEnterOrder_message _ intent,
      validPrice_of_mem hsees _ _ hfit' (List.mem_of_getElem? hn), front, event, hfront,
      hdecision, hsymbol, hbest⟩
    rw [hfollows.transport, hmessages, List.getElem?_mapIdx, hn]
    rfl

open MarketDataStrategyConsumer in
/-- The order for ten at 101, behind the offer, over a transport that takes it. -/
theorem orders_at_touch_sample_file :
    ∃ turns desk, (TradingDesk.init UInt64.toNat ((), [])).consumeAll
        (runtimeStrategy Rat).onMarketData (OuchExecutionSink.answered fun _ _ => (true, ()))
        ((init (fun _ => {}) sampleFile).run turns).pipeline.consumed = .ok desk ∧
      desk.gateway.executionSink.transport.2 =
        [(message 1 ⟨1001, .buy, aapl, 101, 10⟩, true)] ∧
      (∃ bytes, desk.gateway.executionSink.transport.2[0]? = some (bytes, true) ∧
        OuchDecoder.decodeEnterOrder (.ofList bytes) 47 =
          some (OuchExecutionSink.enterOrder 1 ⟨1001, .buy, aapl, 101, 10⟩)) ∧
      positionOf [(⟨1001, .buy, aapl, 101, 10⟩, true)] 1001 = 10 ∧
      ∀ account front, front <+: [(⟨1001, .buy, aapl, 101, 10⟩, true)] →
        (positionOf front account).natAbs ≤ 500 := by
  obtain ⟨turns, -, hconsumed⟩ := replay_drops (fun _ => {}) sampleFile_wellFormed
  have hevents : ((init (fun _ => {}) sampleFile).run turns).pipeline.consumed =
      fileFeed sampleFile := hconsumed.trans (by decide +kernel)
  obtain ⟨desk, hok, -, hsent, hlimited⟩ := orders_at_touch (runtimeStrategy Rat).sees
    (runtimeStrategy Rat).takesTouch (fun _ _ => (true, ())) () UInt64.toNat (fun _ => {})
    sampleFile sampleFile_fit turns
  have horders : ((ReferenceDesk.init ((), [])).run (runtimeStrategy Rat).decision
      (OuchExecutionSink.answered fun _ _ => (true, ())) (fileFeed sampleFile)).orders =
        [(⟨1001, .buy, aapl, 101, 10⟩, true)] := by decide +kernel
  rw [hevents, horders] at hlimited
  rw [hevents] at hsent
  obtain ⟨bytes, hbytes, -, hdecoded, -⟩ :=
    hsent 0 ⟨1001, .buy, aapl, 101, 10⟩ true (by rw [horders]; rfl)
  obtain ⟨desk', hok', hfollows⟩ := Follows.of_fit (runtimeStrategy Rat).sees
    (OuchExecutionSink.answered fun _ _ => (true, ())) UInt64.toNat ((), []) sampleFile_fit
  have hsame : desk = desk' := by
    rw [hevents, hok'] at hok
    exact (Except.ok.inj hok).symm
  subst hsame
  refine ⟨turns, desk, hok, ?_, ⟨bytes, hbytes, hdecoded⟩, by decide, hlimited⟩
  rw [hfollows.transport]
  decide +kernel

end TradingRuntime

end OpenHft
