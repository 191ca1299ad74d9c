import OpenHft.Model.OuchClient
import OpenHft.Model.Strategy
import OpenHft.Spec.ReferenceMarket

/-!
# What the trading side is for

A desk that keeps a market and a list of orders. On an event it brings the market up to
date and decides; an order that is small enough, cheap enough and keeps the position of its
account within the limit is numbered and sent. The position is the sum of what the
transport took, so there is no second record of it. Prices, quantities and positions are
integers here, and nothing wraps but the number on an order, which has 32 bits on the wire.
-/

namespace OpenHft

/-- What a strategy makes of a market when an event has changed it. -/
abbrev Decision := Market → MarketDataEvent → Option OrderIntent

/-! ## Decisions -/

open DoubleArith in
/-- The features of a market with two sides and something shown at the best prices. -/
def Market.features (D : Type) [DoubleArith D] (m : Market) : Option (MarketFeatures D) :=
  match m.best .buy, m.best .sell with
  | some bid, some ask =>
      let bidQuantity : D := ofQuantity (m.shown .buy bid)
      let askQuantity : D := ofQuantity (m.shown .sell ask)
      let totalQuantity := bidQuantity + askQuantity
      if totalQuantity == 0.0 then none
      else some
        { bestBidPrice := bid
          bestAskPrice := ask
          bestBidQuantity := m.shown .buy bid
          bestAskQuantity := m.shown .sell ask
          spread := ofPrice ask - ofPrice bid
          midPrice := (ofPrice bid + ofPrice ask) / 2.0
          imbalance := bidQuantity / totalQuantity
          microPrice := (ofPrice ask * bidQuantity + ofPrice bid * askQuantity) / totalQuantity }
  | _, _ => none

/-- Buy at the best offer or sell at the best bid, by the score of the features. -/
def MicrostructureStrategy.decision {D : Type} [DoubleArith D]
    (strategy : MicrostructureStrategy D) : Decision := fun market event => do
  let features ← market.features D
  let score := strategy.signalModel features
  if score ≥ strategy.buyScoreThreshold then
    some ⟨strategy.accountId, .buy, event.symbol, features.bestAskPrice, strategy.quantity⟩
  else if score ≤ strategy.sellScoreThreshold then
    some ⟨strategy.accountId, .sell, event.symbol, features.bestBidPrice, strategy.quantity⟩
  else none

/-- What the weights and thresholds of the trading runtime come to, in integers. With a
spread there are two signals: one side has to show five for every three of the other. With
none, in a market that is locked or crossed, there is one signal and one side has to show
twice the other; an offer of exactly twice the bid is sold to, a bid of exactly twice the
offer is not bought on. -/
def Market.pressure (m : Market) : Option (Side × Price) := do
  let bid ← m.best .buy
  let ask ← m.best .sell
  let bidQuantity := (m.shown .buy bid).toNat
  let askQuantity := (m.shown .sell ask).toNat
  if bidQuantity + askQuantity = 0 then none
  else if bid < ask then
    if 5 * askQuantity ≤ 3 * bidQuantity then some (.buy, ask)
    else if 5 * bidQuantity ≤ 3 * askQuantity then some (.sell, bid)
    else none
  else if 2 * askQuantity < bidQuantity then some (.buy, ask)
  else if 2 * bidQuantity ≤ askQuantity then some (.sell, bid)
  else none

/-- Ten shares for account 1001, with the pressure of the market. -/
def pressureDecision : Decision := fun market event =>
  market.pressure.map fun (side, price) => ⟨1001, side, event.symbol, price, 10⟩

/-- Buy at the best offer when an offer comes in and the best one is cheap enough. -/
def SimpleThresholdStrategy.decision (strategy : SimpleThresholdStrategy) : Decision :=
  fun market event => do
    let ask ← market.best .sell
    if event.type = .addOrder ∧ event.side = .sell ∧ ask ≤ strategy.buyBelowPrice then
      some ⟨strategy.accountId, .buy, event.symbol, ask, strategy.quantity⟩
    else none

/-! ## The desk -/

/-- A desk: the market it sees, the orders it has placed, and its transport. -/
structure ReferenceDesk (τ : Type) where
  market : Market
  /-- the orders that were handed to the transport, and whether it took them -/
  orders : List (OrderIntent × Bool)
  transport : τ

namespace ReferenceDesk

variable {τ : Type}

/-- Nothing has been seen and nothing placed. -/
def init (transport : τ) : ReferenceDesk τ := ⟨.empty, [], transport⟩

/-- What the orders that were taken make of an account's position: bought less sold. -/
def positionOf (orders : List (OrderIntent × Bool)) (account : AccountId) : Int :=
  ((orders.filter fun x => x.2 && decide (x.1.accountId = account)).map
    fun x => signedQuantity x.1.side x.1.quantity).sum

/-- The position of an account, by the orders of the desk. -/
def position (d : ReferenceDesk τ) (account : AccountId) : Int := positionOf d.orders account

/-- The limits on an order and on what it makes of the position. -/
def Allowed (d : ReferenceDesk τ) (intent : OrderIntent) : Prop :=
  0 < intent.price.toInt ∧ 0 < intent.quantity.toNat ∧ intent.quantity.toNat ≤ 100000 ∧
    intent.price.toInt * intent.quantity.toNat ≤ 10000000 ∧
    (d.position intent.accountId + signedQuantity intent.side intent.quantity).natAbs ≤ 500

instance (d : ReferenceDesk τ) (intent : OrderIntent) : Decidable (d.Allowed intent) :=
  inferInstanceAs (Decidable (_ ∧ _))

/-- The message of an order; the first has number 1. -/
def message (number : Nat) (intent : OrderIntent) : List UInt8 :=
  (OuchEncoder.encode (OuchExecutionSink.enterOrder (UInt32.ofNat number) intent)).toList

/-- An order that the limits allow goes to the transport. -/
def submit (send : OuchTransport τ) (d : ReferenceDesk τ) (intent : OrderIntent) :
    ReferenceDesk τ :=
  if d.Allowed intent then
    let (taken, transport) := send (message (d.orders.length + 1) intent) d.transport
    { d with orders := d.orders ++ [(intent, taken)], transport := transport }
  else d

/-- The decision is made on the market that the event leaves. -/
def consume (decision : Decision) (send : OuchTransport τ) (d : ReferenceDesk τ)
    (event : MarketDataEvent) : ReferenceDesk τ :=
  let d := { d with market := d.market.step event }
  match decision d.market event with
  | none => d
  | some intent => d.submit send intent

/-- Events one after the other. -/
def run (decision : Decision) (send : OuchTransport τ) (d : ReferenceDesk τ)
    (events : List MarketDataEvent) : ReferenceDesk τ :=
  events.foldl (consume decision send) d

end ReferenceDesk

end OpenHft
