import OpenHft.Model.Gateway
import OpenHft.Model.Itch

/-!
# The strategy

`strategy/*.cpp`: what a strategy sees of the book, the score it makes of it and the order
it sends. The numbers are `double`s; the code is the same for every type with their
operations, and is written for any. In the source that type is `Float`; with rationals in
its place the same code can be evaluated in proofs.

A strategy looks at the book through `MarketView`, which is the book of the consumer.
`MarketDataStrategyConsumer` applies an event to the book before the strategy is asked, and
hands on what the strategy answers; what the sink makes of it is not looked at.
-/

namespace OpenHft

/-- The operations on `double` that the strategies use. -/
class DoubleArith (D : Type) extends Add D, Sub D, Mul D, Div D, Neg D, OfScientific D, BEq D,
    LE D, LT D where
  ofPrice : Price → D
  ofQuantity : Quantity → D
  decideLe : DecidableLE D
  decideLt : DecidableLT D

instance DoubleArith.decidableLE {D : Type} [DoubleArith D] : DecidableLE D := DoubleArith.decideLe

instance DoubleArith.decidableLT {D : Type} [DoubleArith D] : DecidableLT D := DoubleArith.decideLt

instance : DoubleArith Float where
  ofPrice := Int64.toFloat
  ofQuantity := UInt32.toFloat
  decideLe := inferInstance
  decideLt := inferInstance

instance : DoubleArith Rat where
  ofPrice := fun price => price.toInt
  ofQuantity := fun quantity => quantity.toNat
  decideLe := inferInstance
  decideLt := inferInstance

open DoubleArith

/-! ## Features and their score -/

/-- What the strategy looks at of a book that has both sides. -/
structure MarketFeatures (D : Type) where
  bestBidPrice : Price
  bestAskPrice : Price
  bestBidQuantity : Quantity
  bestAskQuantity : Quantity
  spread : D
  midPrice : D
  imbalance : D
  microPrice : D

section Features

variable {D : Type} [DoubleArith D]

/-- Nothing unless both sides have a level, and something in it. -/
def MarketFeatureExtractor.extract (marketView : ArrayOrderBook) :
    Except Fault (Option (MarketFeatures D)) := do
  match ← marketView.bestBid, ← marketView.bestAsk with
  | some bid, some ask =>
      let bestBid := marketView.levels bid
      let bestAsk := marketView.levels ask
      let bidPrice : D := ofPrice bestBid.price
      let askPrice : D := ofPrice bestAsk.price
      let bidQuantity : D := ofQuantity bestBid.totalQuantity
      let askQuantity : D := ofQuantity bestAsk.totalQuantity
      let totalQuantity := bidQuantity + askQuantity
      if totalQuantity == 0.0 then return none
      return some
        { bestBidPrice := bestBid.price
          bestAskPrice := bestAsk.price
          bestBidQuantity := bestBid.totalQuantity
          bestAskQuantity := bestAsk.totalQuantity
          spread := askPrice - bidPrice
          midPrice := (bidPrice + askPrice) / 2.0
          imbalance := bidQuantity / totalQuantity
          microPrice := (askPrice * bidQuantity + bidPrice * askQuantity) / totalQuantity }
  | _, _ => return none

namespace LinearSignalModel

/-- How much each of the three signals counts. -/
structure ModelWeights (D : Type) where
  imbalance : D
  microPrice : D
  spread : D

/-- The weighted sum of the signals. The one of the micro price is relative to the spread. -/
def predict (weights : ModelWeights D) (features : MarketFeatures D) : D :=
  let imbalanceSignal := (features.imbalance - 0.5) * 2.0
  let microPriceSignal :=
    if features.spread > 0.0 then (features.microPrice - features.midPrice) / features.spread
    else 0.0
  let spreadSignal := features.spread
  weights.imbalance * imbalanceSignal + weights.microPrice * microPriceSignal +
    weights.spread * spreadSignal

end LinearSignalModel

end Features

/-! ## Strategies -/

/-- `IStrategy::onMarketData` of a strategy that looks at this book; the engine only passes
the call on. -/
abbrev IStrategy := ArrayOrderBook → MarketDataEvent → Except Fault (Option OrderIntent)

/-- The signal model is injected: it is what its `predict` answers. -/
structure MicrostructureStrategy (D : Type) where
  signalModel : MarketFeatures D → D
  accountId : AccountId
  quantity : Quantity
  buyScoreThreshold : D
  sellScoreThreshold : D

/-- A score that reaches a threshold crosses the spread: the intent is at the best price of the
other side. The buy threshold is looked at first, and the symbol is the event's. -/
def MicrostructureStrategy.onMarketData {D : Type} [DoubleArith D]
    (strategy : MicrostructureStrategy D) : IStrategy := fun marketView event => do
  match ← MarketFeatureExtractor.extract marketView with
  | none => return none
  | some market =>
      let score := strategy.signalModel market
      if score ≥ strategy.buyScoreThreshold then
        return some
          { accountId := strategy.accountId
            side := .buy
            symbol := event.symbol
            price := market.bestAskPrice
            quantity := strategy.quantity }
      if score ≤ strategy.sellScoreThreshold then
        return some
          { accountId := strategy.accountId
            side := .sell
            symbol := event.symbol
            price := market.bestBidPrice
            quantity := strategy.quantity }
      return none

/-- Buys whatever is offered at `buyBelowPrice` or less. -/
structure SimpleThresholdStrategy where
  accountId : AccountId
  buyBelowPrice : Price
  quantity : Quantity

/-- Offers that come in set it off, and the price is that of the best one. -/
def SimpleThresholdStrategy.onMarketData (strategy : SimpleThresholdStrategy) : IStrategy :=
  fun marketView event => do
    if event.type ≠ .addOrder then return none
    if event.side ≠ .sell then return none
    match ← marketView.bestAsk with
    | none => return none
    | some ask =>
        let bestAsk := marketView.levels ask
        if bestAsk.price > strategy.buyBelowPrice then return none
        return some
          { accountId := strategy.accountId
            side := .buy
            symbol := event.symbol
            price := bestAsk.price
            quantity := strategy.quantity }

namespace MarketDataStrategyConsumer

/-- The event, with the intent that is submitted to the sink if there is one. -/
def consume (strategy : IStrategy)
    (bookConsumer : MarketDataBookConsumer) (event : MarketDataEvent) :
    Except Fault (Option OrderIntent × MarketDataBookConsumer) := do
  let bookConsumer ← bookConsumer.consume event
  let intent ← strategy bookConsumer.book event
  return (intent, bookConsumer)

/-- The dispatcher with the consumer behind its sink. -/
def receive (strategy : IStrategy) (c : MarketDataBookConsumer) (message : ItchMessage) :
    Except Fault (Option OrderIntent × MarketDataBookConsumer) :=
  (ItchReplayDispatcher.dispatch
    (fun event s => (true, s >>= fun s => consume strategy s.2 event)) message.data
    message.length (.ok (none, c))).2

/-- The intents that are submitted in a run, which a fault ends. -/
def intents (strategy : IStrategy) (c : MarketDataBookConsumer) :
    List ItchMessage → List OrderIntent
  | [] => []
  | message :: messages =>
      match receive strategy c message with
      | .error _ => []
      | .ok (intent, c) => intent.toList ++ intents strategy c messages

/-- A message, for what it does to the book. -/
def step (strategy : IStrategy) (c : MarketDataBookConsumer) (message : ItchMessage) :
    Except Fault MarketDataBookConsumer :=
  (receive strategy c message).map Prod.snd

/-- The strategy of the trading runtime. -/
def runtimeStrategy (D : Type) [DoubleArith D] : MicrostructureStrategy D where
  signalModel := LinearSignalModel.predict
    { imbalance := 0.6, microPrice := 0.4, spread := 0.0 }
  accountId := 1001
  quantity := 10
  buyScoreThreshold := 0.20
  sellScoreThreshold := -0.20

/-- `"AAPL    "` -/
def aapl : Symbol := #v[65, 65, 80, 76, 32, 32, 32, 32]

/-- An Add Order message. -/
def addMessage (id side shares price : UInt8) : ItchMessage where
  data := .ofList (['A'.toUInt8] ++ List.replicate 17 0 ++ [id, side, 0, 0, 0, shares] ++
    aapl.toList ++ [0, 0, 0, price])
  length := 36

/-- An Order Cancel message. -/
def cancelMessage (id shares : UInt8) : ItchMessage where
  data := .ofList (['X'.toUInt8] ++ List.replicate 17 0 ++ [id, 0, 0, 0, shares])
  length := 23

/-- An Order Delete message. -/
def deletionMessage (id : UInt8) : ItchMessage where
  data := .ofList (deleteMessage id)
  length := 19

end MarketDataStrategyConsumer

end OpenHft
