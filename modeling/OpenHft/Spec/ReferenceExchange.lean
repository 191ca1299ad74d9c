import OpenHft.Model.ExchangeServer
import OpenHft.Spec.Rounds

/-!
# The exchange as its members see it

What an exchange answers to a sequence of messages, without objects, pools or connections.
A message that is an Enter Order is entered into the reference book, under the next number,
and accepted with that number; there is room for so many resting orders, and an order that
finds none is not answered, nor is a message that is not an Enter Order.
-/

namespace OpenHft

namespace PriceTime

/-- The order in a message, as the book is given it. -/
def submissionOf (accountId : AccountId) (enterOrder : EnterOrder) : Submission :=
  ⟨accountId, enterOrder.side, enterOrder.price.toInt64, enterOrder.quantity⟩

/-- The answer to a block of a client, and the book behind it. -/
def Book.respond (accountId : AccountId) (b : Book) (block : Vector UInt8 EnterOrderSize) :
    Option AcceptedEncoder.Buffer × Book :=
  match OuchDecoder.decodeEnterOrder (.ofList block.toList) EnterOrderSize with
  | none => (none, b)
  | some enterOrder =>
      if b.orders.length = defaultOrderCapacity then (none, b)
      else
        (some (AcceptedEncoder.encode (ExchangeOuchHandler.accept enterOrder (b.sequence + 1))),
          b.enter (submissionOf accountId enterOrder))

/-- Blocks one after the other, with their answers. -/
def Book.respondAll (accountId : AccountId) (b : Book) :
    List (Vector UInt8 EnterOrderSize) → List (Option AcceptedEncoder.Buffer) × Book
  | [] => ([], b)
  | block :: blocks =>
      let (response, b) := b.respond accountId block
      let (responses, b) := b.respondAll accountId blocks
      (response :: responses, b)

/-- The book after a call from any account. -/
def Book.receive (b : Book) (call : EnterOrderCall) : Book :=
  match OuchDecoder.decodeEnterOrder call.data call.length with
  | none => b
  | some enterOrder =>
      b.enterWithin defaultOrderCapacity (submissionOf call.accountId enterOrder)

/-- Calls one after the other. -/
def Book.receiveAll (b : Book) (calls : List EnterOrderCall) : Book := calls.foldl receive b

/-- The resting orders that a submission is willing to trade with, best first. -/
def Book.reached (b : Book) (s : Submission) : List OrderData :=
  (b.resting s.side.opposite).takeWhile fun o => reaches s.side s.price o.price

/-- The submission is taken and makes a trade. -/
def Book.wouldTrade (b : Book) (s : Submission) : Bool :=
  decide (b.orders.length ≠ defaultOrderCapacity ∧ s.quantity ≠ 0) && !(b.reached s).isEmpty

/-- It makes at most one: there is only one order to trade with, or the first is enough for
it; and an order without a quantity ends the trading. -/
def Book.onePartner (b : Book) (s : Submission) : Bool :=
  match b.reached s with
  | r :: _ :: _ => decide (s.quantity ≤ r.quantity ∨ r.quantity = 0)
  | _ => true

end PriceTime

end OpenHft
