import OpenHft.Model.MatchingEngine

/-!
# The gateway and its risk checks

`Gateway::submit`, `RiskManager` and `MatchingEngineExecutionSink`. The risk manager
keeps a signed position for each account, moved by every order that was accepted. Its
arithmetic is on signed 64-bit integers, where leaving the range is undefined, so a sum,
a difference or an absolute value out of range is a fault here.

The execution sink is an interface: what `submit` does is up to the implementation, so
a sink is a function with a state of its own.
-/

namespace OpenHft

/-- What a strategy wants, with the defaults of the source. -/
structure OrderIntent where
  accountId : AccountId := 0
  side : Side := .buy
  symbol : Symbol := Vector.replicate 8 0
  price : Price := 0
  quantity : Quantity := 0
  deriving DecidableEq

/-- The verdict of `RiskManager::check`, named after the check that fails. -/
inductive RiskResult where
  | accepted
  | invalidPrice
  | invalidQuantity
  | maxOrderQuantityExceeded
  | maxOrderValueExceeded
  | maxPositionExceeded
  deriving DecidableEq, Repr

/-! ## Signed arithmetic -/

/-- `a + b` -/
def addInt64 (a b : Int64) : Except Fault Int64 :=
  if -2 ^ 63 ≤ a.toInt + b.toInt ∧ a.toInt + b.toInt < 2 ^ 63 then .ok (a + b)
  else .error .signedOverflow

/-- `a - b` -/
def subInt64 (a b : Int64) : Except Fault Int64 :=
  if -2 ^ 63 ≤ a.toInt - b.toInt ∧ a.toInt - b.toInt < 2 ^ 63 then .ok (a - b)
  else .error .signedOverflow

/-- `std::abs` -/
def absInt64 (a : Int64) : Except Fault Int64 :=
  if a = Int64.minValue then .error .signedOverflow
  else if a < 0 then .ok (-a) else .ok a

/-! ## `RiskManager` -/

/-- `positions_` -/
structure RiskManager where
  positions : AccountId → Option Int64

namespace RiskManager

/-- `MaxOrderQuantity` -/
def maxOrderQuantity : Quantity := 100000

/-- `MaxOrderValue` -/
def maxOrderValue : UInt64 := 10000000

/-- `MaxPosition`, for either sign -/
def maxPosition : Int64 := 500

/-- No account has a position stored. -/
def init : RiskManager := ⟨fun _ => none⟩

/-- The account's position, 0 if none is stored. -/
def position (r : RiskManager) (accountId : AccountId) : Int64 :=
  (r.positions accountId).getD 0

/-- A position moved by an order: the same four lines in `check` and in
`onAccepted`. -/
def movePosition (position : Int64) (intent : OrderIntent) : Except Fault Int64 :=
  match intent.side with
  | .buy => addInt64 position (Int64.ofNat intent.quantity.toNat)
  | .sell => subInt64 position (Int64.ofNat intent.quantity.toNat)

/-- The checks in the order of the source. The order's value is a product modulo 2⁶⁴. -/
def check (r : RiskManager) (intent : OrderIntent) : Except Fault RiskResult := do
  if intent.price ≤ 0 then return .invalidPrice
  if intent.quantity = 0 then return .invalidQuantity
  if intent.quantity > maxOrderQuantity then return .maxOrderQuantityExceeded
  let orderValue := intent.price.toUInt64 * intent.quantity.toUInt64
  if orderValue > maxOrderValue then return .maxOrderValueExceeded
  let newPosition ← movePosition (r.position intent.accountId) intent
  if (← absInt64 newPosition) > maxPosition then return .maxPositionExceeded
  return .accepted

/-- The position is computed once more and stored. -/
def onAccepted (r : RiskManager) (intent : OrderIntent) : Except Fault RiskManager := do
  let position ← movePosition (r.position intent.accountId) intent
  return ⟨Function.update r.positions intent.accountId (some position)⟩

end RiskManager

/-! ## `Gateway` -/

/-- What the gateway answers: the verdict, and whether the sink took the order. -/
structure GatewayResult where
  riskResult : RiskResult := .accepted
  executionSucceeded : Bool := false
  deriving DecidableEq, Repr

/-- Checked and taken. -/
def GatewayResult.accepted (result : GatewayResult) : Bool :=
  result.riskResult = .accepted && result.executionSucceeded

/-- `OrderExecutionSink::submit` of an implementation whose state is in `σ`. -/
abbrev OrderExecutionSink (σ : Type) := OrderIntent → σ → Except Fault (Bool × σ)

/-- The gateway with the sink it was constructed over. -/
structure Gateway (σ : Type) where
  riskManager : RiskManager
  executionSink : σ

namespace Gateway

variable {σ : Type}

/-- The order is checked, handed to the sink and, if that took it, counted. -/
def submit (sink : OrderExecutionSink σ) (g : Gateway σ) (intent : OrderIntent) :
    Except Fault (GatewayResult × Gateway σ) := do
  let riskResult ← g.riskManager.check intent
  if riskResult ≠ .accepted then
    return ({ riskResult := riskResult, executionSucceeded := false }, g)
  let (submitted, executionSink) ← sink intent g.executionSink
  if submitted = false then
    return ({ riskResult := .accepted, executionSucceeded := false },
      { g with executionSink := executionSink })
  let riskManager ← g.riskManager.onAccepted intent
  return ({ riskResult := .accepted, executionSucceeded := true },
    { riskManager := riskManager, executionSink := executionSink })

/-- Intents submitted one after the other, with their results. -/
def submitAll (sink : OrderExecutionSink σ) (g : Gateway σ) :
    List OrderIntent → Except Fault (List GatewayResult × Gateway σ)
  | [] => .ok ([], g)
  | intent :: intents => do
      let (result, g) ← g.submit sink intent
      let (results, g) ← g.submitAll sink intents
      .ok (result :: results, g)

end Gateway

/-- `MatchingEngineExecutionSink::submit`: the id of the order, taken for a `bool`. -/
def MatchingEngineExecutionSink.submit : OrderExecutionSink MatchingEngine :=
  fun intent engine => do
    let (orderId, engine) ←
      engine.submitOrder intent.accountId intent.side intent.price intent.quantity
    return (decide (orderId ≠ 0), engine)

/-- A call, for what it does to the gateway and the engine behind it. -/
def Gateway.receive (g : Gateway MatchingEngine) (intent : OrderIntent) :
    Except Fault (Gateway MatchingEngine) :=
  (g.submit MatchingEngineExecutionSink.submit intent).map Prod.snd

/-! ## `PositionManager` -/

/-- `positions_` -/
structure PositionManager where
  positions : AccountId → Option Int32

namespace PositionManager

/-- No account has traded. -/
def init : PositionManager := ⟨fun _ => none⟩

/-- The account's position, 0 if none is stored. -/
def position (m : PositionManager) (accountId : AccountId) : Int32 :=
  (m.positions accountId).getD 0

/-- `positions_[accountId] = value` -/
def store (m : PositionManager) (accountId : AccountId) (value : Int32) : PositionManager :=
  ⟨Function.update m.positions accountId (some value)⟩

/-- An `int` and an unsigned quantity are added as unsigned numbers, that is modulo
2³². -/
def onTrade (m : PositionManager) (trade : Trade) : PositionManager :=
  let quantity := Int32.ofNat trade.quantity.toNat
  let m := m.store trade.buyAccountId (m.position trade.buyAccountId + quantity)
  m.store trade.sellAccountId (m.position trade.sellAccountId - quantity)

/-- A listener of a dispatcher sees the published trades in order. -/
def afterTrades (trades : List Trade) : PositionManager := trades.foldl onTrade init

end PositionManager

end OpenHft
