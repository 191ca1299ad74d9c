import OpenHft.Lib.PriorityList
import OpenHft.Model.Types

/-!
# Price-time priority matching

What the matching engine is for, without levels, bitmaps, indexes or memory.
Each side of the book is one list of orders, best price first and within a
price in order of arrival. An incoming order trades with the head of the other
list, at the head's price, as long as the prices cross and both have quantity
left; what remains of it goes into its own list behind the orders of its price.

Orders and trades take their numbers from one 64-bit counter, as in the source.
-/

namespace OpenHft

open OpenHft.Lib

/-- The arguments of one `submitOrder` call. -/
structure Submission where
  accountId : AccountId
  side : Side
  price : Price
  quantity : Quantity
  deriving DecidableEq, Repr

/-- The order a submission becomes under the id it is given. -/
def Submission.order (s : Submission) (id : OrderId) : OrderData :=
  ⟨id, s.accountId, s.side, s.price, s.quantity⟩

/-- A limit price on this side is willing to trade at the other price. -/
def reaches : Side → Price → Price → Bool
  | .buy, price, other => decide (price ≥ other)
  | .sell, price, other => decide (price ≤ other)

/-- The place of an order on its side of the book: the smaller, the better. -/
def OrderData.rank (o : OrderData) : Int :=
  match o.side with
  | .buy => -o.price.toInt
  | .sell => o.price.toInt

/-- The trade of an incoming order with a resting one. -/
def tradeOf (incoming resting : OrderData) (quantity : Quantity)
    (sequence : UInt64) : Trade :=
  match incoming.side with
  | .buy =>
      ⟨sequence, incoming.id, resting.id, incoming.accountId, resting.accountId,
        resting.price, quantity⟩
  | .sell =>
      ⟨sequence, resting.id, incoming.id, resting.accountId, incoming.accountId,
        resting.price, quantity⟩

/-- What an incoming order leaves behind once it has traded. -/
structure Sweep where
  incoming : OrderData
  resting : List OrderData
  sequence : UInt64
  trades : List Trade

namespace PriceTime

/-- The incoming order trades down the other side's list. -/
def sweep (incoming : OrderData) (sequence : UInt64) : List OrderData → Sweep
  | [] => ⟨incoming, [], sequence, []⟩
  | r :: rest =>
      if incoming.quantity = 0 ∨ reaches incoming.side incoming.price r.price = false
      then ⟨incoming, r :: rest, sequence, []⟩
      else
        let quantity := min incoming.quantity r.quantity
        let trade := tradeOf incoming r quantity (sequence + 1)
        let incoming := { incoming with quantity := incoming.quantity - quantity }
        if r.quantity = quantity then
          let s := sweep incoming (sequence + 1) rest
          { s with trades := trade :: s.trades }
        else
          ⟨incoming, { r with quantity := r.quantity - quantity } :: rest,
            sequence + 1, [trade]⟩

/-- A book by price-time priority, with the trades made so far. -/
structure Book where
  resting : Side → List OrderData
  sequence : UInt64
  trades : List Trade

/-- Nothing rests. The first number that is given out is 1001. -/
def Book.empty : Book := ⟨fun _ => [], 1000, []⟩

/-- The order a submission becomes: it is given the next number. -/
def Book.incoming (b : Book) (s : Submission) : OrderData :=
  s.order (b.sequence + 1)

/-- Replace one side's list. -/
def Book.setSide (b : Book) (side : Side) (l : List OrderData) : Book :=
  { b with resting := Function.update b.resting side l }

/-- The book after an order has traded down one side. -/
def Book.swept (b : Book) (side : Side) (s : Sweep) : Book :=
  { resting := Function.update b.resting side s.resting
    sequence := s.sequence
    trades := b.trades ++ s.trades }

/-- What is left of an order goes behind the orders of its price. -/
def Book.rest (b : Book) (o : OrderData) : Book :=
  if o.quantity = 0 then b
  else b.setSide o.side (insertBehind OrderData.rank o (b.resting o.side))

/-- An order trades down the other side, and what is left of it rests. -/
def Book.submit (b : Book) (s : Submission) : Book :=
  let swept := sweep (b.incoming s) (b.sequence + 1) (b.resting s.side.opposite)
  (b.swept s.side.opposite swept).rest swept.incoming

/-- Orders one after the other. -/
def Book.run (b : Book) (subs : List Submission) : Book := subs.foldl submit b

/-- The orders resting on either side. -/
def Book.orders (b : Book) : List OrderData := b.resting .buy ++ b.resting .sell

/-- The same matcher with room for so many resting orders; a submission that
finds the book full is refused. -/
def Book.submitWithin (capacity : Nat) (b : Book) (s : Submission) : Book :=
  if b.orders.length = capacity then b else b.submit s

/-- Orders one after the other, with room for so many. -/
def Book.runWithin (capacity : Nat) (b : Book) (subs : List Submission) : Book :=
  subs.foldl (submitWithin capacity) b

end PriceTime

end OpenHft
