import OpenHft.Model.OuchClient

/-!
# Executions reported to the clients

`ExchangeExecutionListener` is called for every trade the engine publishes and prepares a
message for either side. It looks the orders up in the session map that the handler
registers orders in; `onTrade` is given the map as it is when the trade is published. What
it prepared for a trade is kept until the next, and the messages are sent by nobody: the
server sends the answers of the handler only.
-/

namespace OpenHft

namespace ExecutedEncoder

/-- An Executed message. -/
abbrev Buffer := Vector UInt8 36

/-- As in `AcceptedEncoder.encode` no padding is left. -/
def encode (executed : Executed) : Buffer :=
  #v['E'.toUInt8] ++ writeUint64 executed.timestamp ++ writeUint32 executed.userRefNum ++
    writeUint32 executed.quantity ++ writeUint64 executed.price ++
    #v[executed.liquidityFlag] ++ writeUint64 executed.matchNumber ++
    writeUint16 executed.appendageLength

end ExecutedEncoder

namespace ExchangeExecutionListener

/-- What was prepared for a trade: a message for each side whose order is known. -/
structure ExecutionResponses where
  buyResponse : Option ExecutedEncoder.Buffer
  sellResponse : Option ExecutedEncoder.Buffer

/-- What a client is told about a trade. -/
def executed (trade : Trade) (userRefNum : UserRefNum) : Executed where
  timestamp := 0
  userRefNum := userRefNum
  quantity := trade.quantity
  price := trade.price.toUInt64
  liquidityFlag := 'R'.toUInt8
  matchNumber := trade.sequence
  appendageLength := 0

/-- `lastResponses_` after the call. -/
def onTrade (sessionMap : ExchangeOrderSessionMap) (trade : Trade) : ExecutionResponses where
  buyResponse := (sessionMap trade.buyOrderId).map fun userRefNum =>
    ExecutedEncoder.encode (executed trade userRefNum)
  sellResponse := (sessionMap trade.sellOrderId).map fun userRefNum =>
    ExecutedEncoder.encode (executed trade userRefNum)

end ExchangeExecutionListener

/-- The handler, its engine and the listener, with a record of the calls and their answers
and of what the listener prepared for each trade. -/
structure ExchangeSession where
  handler : ExchangeOuchHandler
  answered : List (EnterOrderCall × Option AcceptedEncoder.Buffer)
  executions : List (Trade × ExchangeExecutionListener.ExecutionResponses)

namespace ExchangeSession

/-- No call has been made. -/
def init (stdHash : OrderId → Nat) : ExchangeSession where
  handler := .init stdHash
  answered := []
  executions := []

/-- A call of `handleEnterOrder`. The listener is called inside `process`, so it looks the
orders of a trade up in the map as it is there. -/
def handle (s : ExchangeSession) (call : EnterOrderCall) : Except Fault ExchangeSession := do
  let (response, handler) ←
    s.handler.handleEnterOrder call.accountId call.data call.length
  let sessionMap := s.handler.mapAtProcess call.accountId call.data call.length
  let published := handler.matchingEngine.published.drop
    s.handler.matchingEngine.published.length
  .ok
    { handler := handler
      answered := s.answered ++ [(call, response)]
      executions := s.executions ++ published.map fun trade =>
        (trade, ExchangeExecutionListener.onTrade sessionMap trade) }

/-- `lastResponses()`: every `onTrade` starts from an empty `lastResponses_`, so it is what
was prepared for the last trade. -/
def lastResponses (s : ExchangeSession) : ExchangeExecutionListener.ExecutionResponses :=
  match s.executions.getLast? with
  | none => ⟨none, none⟩
  | some execution => execution.2

/-- Calls one after the other; a fault ends them. -/
def handleAll (s : ExchangeSession) : List EnterOrderCall → Except Fault ExchangeSession
  | [] => .ok s
  | call :: calls => do
      let s ← s.handle call
      s.handleAll calls

end ExchangeSession

end OpenHft
