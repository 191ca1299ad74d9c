import OpenHft.Model.OuchClient
import OpenHft.Model.Strategy

/-!
# What stands behind the market-data pipeline

`main` of `apps/trading_runtime.cpp` puts the components together: the pipeline's worker
hands every event to `MarketDataStrategyConsumer`, which applies it to the book, asks the
strategy and submits what the strategy wants to `GatewayOrderIntentSink`; behind that are
the gateway, `OuchExecutionSink` and a transport. All of it runs on the worker's thread, one
event after the other. Whether an order was accepted is returned to the consumer, which does
not look at it.
-/

namespace OpenHft

variable {σ τ : Type}

/-- `submit` of `gateway/gateway_order_intent_sink.cpp` -/
def GatewayOrderIntentSink.submit (sink : OrderExecutionSink σ) (gateway : Gateway σ)
    (intent : OrderIntent) : Except Fault (Bool × Gateway σ) := do
  let (result, gateway) ← gateway.submit sink intent
  return (result.accepted, gateway)

/-- The sink as the gateway sees it. -/
def OuchExecutionSink.executionSink (send : OuchTransport τ) :
    OrderExecutionSink (OuchExecutionSink τ) :=
  fun intent sink => .ok (sink.submit send intent)

/-- The components that an event reaches, over a transport with a state in `τ`. -/
structure TradingDesk (τ : Type) where
  bookConsumer : MarketDataBookConsumer
  gateway : Gateway (OuchExecutionSink τ)

namespace TradingDesk

/-- All components are new. -/
def init (stdHash : OrderId → Nat) (transport : τ) : TradingDesk τ where
  bookConsumer := .init stdHash
  gateway := ⟨.init, { transport := transport }⟩

/-- `MarketDataStrategyConsumer::consume` with the sink behind it -/
def consume (strategy : IStrategy) (send : OuchTransport τ) (desk : TradingDesk τ)
    (event : MarketDataEvent) : Except Fault (TradingDesk τ) := do
  let (intent, bookConsumer) ←
    MarketDataStrategyConsumer.consume strategy desk.bookConsumer event
  match intent with
  | none => return { desk with bookConsumer := bookConsumer }
  | some intent =>
      let (_, gateway) ←
        GatewayOrderIntentSink.submit (OuchExecutionSink.executionSink send) desk.gateway intent
      return { bookConsumer := bookConsumer, gateway := gateway }

/-- The worker's calls, one after the other. -/
def consumeAll (strategy : IStrategy) (send : OuchTransport τ) (desk : TradingDesk τ)
    (events : List MarketDataEvent) : Except Fault (TradingDesk τ) :=
  events.foldlM (consume strategy send) desk

end TradingDesk

/-- `RecordingOuchTransport`: the last message, in a buffer of 128 bytes. -/
structure RecordingOuchTransport where
  buffer : Vector UInt8 128 := Vector.replicate 128 0
  lastLength : Nat := 0
  sent : Bool := false

/-- Each message is written over the one before. -/
def RecordingOuchTransport.send : OuchTransport RecordingOuchTransport :=
  fun data transport =>
    if data.length > 128 then (false, transport)
    else (true,
      { buffer := Vector.ofFn fun i => data.getD i (transport.buffer.get i)
        lastLength := data.length
        sent := true })

end OpenHft
