import OpenHft.Model.OrderBook
import OpenHft.Model.OrderPool

/-!
# `MatchingEngine`

The engine of `orderbook/software/matching_engine.cpp`: an order pool, a book
over the pool's orders, a sequencer that numbers orders and trades alike, and a
dispatcher. Listeners run inside `publish` and cannot reach the engine, so the
dispatcher is the list of trades published so far (`published`) and a listener
is a fold over that list.

The loop of `executeTrade` goes round again only after a trade of a positive
quantity, so it goes round at most `incoming->quantity` times. The model gives
it that many rounds and stops with `Fault.loopBound` if they do not suffice.
-/

namespace OpenHft

/-- The members of the engine; the dispatcher is what it has published. -/
structure MatchingEngine where
  book : ArrayOrderBook
  orderPool : OrderPool
  /-- `sequencer_.sequence_` -/
  sequence : UInt64
  published : List Trade

namespace MatchingEngine

/-- A new engine. The sequencer starts at 1000. -/
def init (stdHash : OrderId → Nat) : MatchingEngine where
  book := .init stdHash fun _ => default
  orderPool := .init defaultOrderCapacity
  sequence := 1000
  published := []

/-- What the book has let go of goes back to the pool. -/
def releaseIfOwned (e : MatchingEngine) (order : Option OrderPtr) :
    MatchingEngine :=
  { e with orderPool := e.orderPool.releaseIfOwned order }

/-- An order of the pool is filled in and numbered. An exhausted pool gives none, and no number
is drawn then. -/
def prepareOrder (e : MatchingEngine) (accountId : AccountId) (side : Side)
    (price : Price) (quantity : Quantity) : Option OrderPtr × MatchingEngine :=
  match e.orderPool.acquire with
  | (none, _) => (none, e)
  | (some order, pool) =>
      (some order,
        { e with
          orderPool := pool
          sequence := e.sequence + 1
          book := { e.book with
            orders := e.book.orders.modify order fun _ =>
              { id := e.sequence + 1, accountId := accountId, side := side,
                price := price, quantity := quantity } } })

/-- The level an order of this side trades against. -/
def oppositeLevel (e : MatchingEngine) (side : Side) :
    Except Fault (Option LevelPtr) :=
  match side with
  | .buy => e.book.bestAsk
  | .sell => e.book.bestBid

/-- Whether the order's price reaches the best one of the other side. -/
def canCross (e : MatchingEngine) (order : OrderPtr) : Except Fault Bool :=
  let o := e.book.orders order
  match o.side with
  | .buy => do
      match ← e.book.bestAsk with
      | none => .ok false
      | some level => .ok (decide (o.price ≥ (e.book.levels level).price))
  | .sell => do
      match ← e.book.bestBid with
      | none => .ok false
      | some level => .ok (decide (o.price ≤ (e.book.levels level).price))

/-- The trade is at the price of the resting order. -/
def createTrade (incoming resting : Order) (tradedQuantity : Quantity)
    (sequence : UInt64) : Trade :=
  match incoming.side with
  | .buy =>
      { sequence := sequence
        buyOrderId := incoming.id, sellOrderId := resting.id
        buyAccountId := incoming.accountId, sellAccountId := resting.accountId
        price := resting.price, quantity := tradedQuantity }
  | .sell =>
      { sequence := sequence
        buyOrderId := resting.id, sellOrderId := incoming.id
        buyAccountId := resting.accountId, sellAccountId := incoming.accountId
        price := resting.price, quantity := tradedQuantity }

/-- `dispatcher_.publish(createTrade(...))` -/
def publishTrade (e : MatchingEngine) (incoming resting : OrderPtr)
    (tradedQuantity : Quantity) : MatchingEngine :=
  { e with
    sequence := e.sequence + 1
    published := e.published ++
      [createTrade (e.book.orders incoming) (e.book.orders resting) tradedQuantity
        (e.sequence + 1)] }

/-- `if (resting->level != nullptr) resting->level->total_quantity -= ...` -/
def lowerTotal (levels : LevelPtr → PriceLevel) (level : Option LevelPtr)
    (tradedQuantity : Quantity) : LevelPtr → PriceLevel :=
  match level with
  | none => levels
  | some level =>
      Function.update levels level
        { levels level with
          totalQuantity := (levels level).totalQuantity - tradedQuantity }

/-- The three subtractions of `matchOne`. -/
def fill (b : ArrayOrderBook) (incoming resting : OrderPtr)
    (tradedQuantity : Quantity) : ArrayOrderBook :=
  let lower := fun o : Order => { o with quantity := o.quantity - tradedQuantity }
  let orders := (b.orders.modify incoming lower).modify resting lower
  { b with
    orders := orders
    levels := lowerTotal b.levels (orders resting).level tradedQuantity }

/-- The last branch of `matchOne`: a resting order filled to zero is cancelled
by its id, and whatever `cancelOrder` returns goes back to the pool. -/
def retireFilled (e : MatchingEngine) (resting : OrderPtr) :
    Except Fault MatchingEngine :=
  if (e.book.orders resting).quantity = 0 then do
    let (removedOrder, book) ← e.book.cancelOrder (e.book.orders resting).id
    .ok ({ e with book := book }.releaseIfOwned removedOrder)
  else .ok e

/-- One trade with the first order of the best level; `false` when nothing was traded. -/
def matchOne (e : MatchingEngine) (incoming : OrderPtr) :
    Except Fault (Bool × MatchingEngine) := do
  match ← e.oppositeLevel (e.book.orders incoming).side with
  | none => .ok (false, e)
  | some level =>
      match (e.book.levels level).front with
      | none => .ok (false, e)
      | some resting =>
          let tradedQuantity :=
            if (e.book.orders incoming).quantity < (e.book.orders resting).quantity
            then (e.book.orders incoming).quantity
            else (e.book.orders resting).quantity
          let e := e.publishTrade incoming resting tradedQuantity
          let e := { e with book := fill e.book incoming resting tradedQuantity }
          let e ← e.retireFilled resting
          .ok (decide (tradedQuantity > 0), e)

/-- The loop of `executeTrade`. -/
def tradeLoop (incoming : OrderPtr) :
    (rounds : Nat) → MatchingEngine → Except Fault MatchingEngine
  | 0, e => do
      if (e.book.orders incoming).quantity > 0 then
        if ← e.canCross incoming then .error .loopBound else .ok e
      else .ok e
  | rounds + 1, e => do
      if (e.book.orders incoming).quantity > 0 then
        if ← e.canCross incoming then
          let (again, e) ← e.matchOne incoming
          if again then tradeLoop incoming rounds e else .ok e
        else .ok e
      else .ok e

/-- What the loop leaves of the order goes into the book; an order that was filled goes back to
the pool. -/
def executeTrade (e : MatchingEngine) (incoming : OrderPtr) :
    Except Fault MatchingEngine := do
  let e ← tradeLoop incoming (e.book.orders incoming).quantity.toNat e
  if (e.book.orders incoming).quantity > 0 then
    .ok { e with book := ← e.book.addOrder incoming }
  else .ok (e.releaseIfOwned (some incoming))

/-- An order that crosses nothing goes into the book, whatever its quantity. -/
def process (e : MatchingEngine) (order : Option OrderPtr) :
    Except Fault MatchingEngine :=
  match order with
  | none => .ok e
  | some p => do
      if ← e.canCross p then e.executeTrade p
      else .ok { e with book := ← e.book.addOrder p }

/-- The order's id, or 0 if the pool is exhausted. -/
def submitOrder (e : MatchingEngine) (accountId : AccountId) (side : Side)
    (price : Price) (quantity : Quantity) :
    Except Fault (OrderId × MatchingEngine) := do
  match e.prepareOrder accountId side price quantity with
  | (none, e) => .ok (0, e)
  | (some order, e) =>
      let orderId := (e.book.orders order).id
      .ok (orderId, ← e.process (some order))

end MatchingEngine

end OpenHft
