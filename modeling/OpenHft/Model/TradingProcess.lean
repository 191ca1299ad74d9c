import OpenHft.Model.TlsTransport
import OpenHft.Model.TradingDesk
import OpenHft.Model.TradingRuntime

/-!
# Trading over TLS

`trading_runtime --mode replay … --execution tls`, from the connection to the exchange to
the end of the replay: `main` connects, the worker of the pipeline runs the desk over the
session, and when the pipeline has been stopped one response is read and reported.
-/

namespace OpenHft

/-- What is printed about the response. -/
inductive ResponseReport where
  /-- "Received OUCH Accepted. userRefNum=" -/
  | accepted (userRefNum : UserRefNum)
  /-- "Failed to decode OUCH response" -/
  | notDecoded
  /-- "Failed to receive OUCH response" -/
  | notReceived
  deriving DecidableEq, Repr

/-- The part of `main` behind the replay. -/
def TlsOuchTransport.report (t : TlsOuchTransport) : ResponseReport :=
  match t.receive 64 with
  | (true, response, _) =>
      match OuchResponseDispatcher.dispatch (.ofList response) 64 with
      | some (.accepted accepted) => .accepted accepted.userRefNum
      | _ => .notDecoded
  | (false, _, _) => .notReceived

/-- A run of the process: what it is given, and the order of its threads' turns. -/
structure TradingProcess where
  answers : ConnectAnswers
  file : List UInt8
  stdHash : OrderId → Nat
  buffer : Fin QueueCapacity → MarketDataEvent
  turns : List ReplayTurn

namespace TradingProcess

/-- When this is `false` the process ends here. -/
def connected (p : TradingProcess) : Bool := (({} : TlsOuchTransport).connect p.answers).1

/-- The transport that the desk is constructed over. -/
def transport (p : TradingProcess) : TlsOuchTransport :=
  (({} : TlsOuchTransport).connect p.answers).2

/-- The events that the worker has handed to the desk. -/
def consumed (p : TradingProcess) : List MarketDataEvent :=
  ((TradingRuntime.init p.buffer p.file).run p.turns).pipeline.consumed

/-- The desk behind them. -/
def desk (strategy : IStrategy) (p : TradingProcess) :
    Except Fault (TradingDesk TlsOuchTransport) :=
  (TradingDesk.init p.stdHash p.transport).consumeAll strategy TlsOuchTransport.send p.consumed

end TradingProcess

/-- The transport behind the gateway. -/
def TradingDesk.transport {τ : Type} (desk : TradingDesk τ) : τ :=
  desk.gateway.executionSink.transport

end OpenHft
