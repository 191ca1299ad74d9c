import OpenHft.Model.FixedHashMap
import OpenHft.Model.Types

/-!
# `PriceLevel` and `ArrayOrderBook`

The book of `orderbook/software/array_order_book.cpp`: two arrays of price
levels, each level an intrusive queue of orders, a bitmap of non-empty levels
and a cached best price for each side, and the index from order ids to orders.

The two sides of the source's state (`bid_levels_` and `ask_levels_`, the two
bitmaps, `best_bid_` and `best_ask_`) are one family indexed by `Side`. The
order memory is a field, since every operation reads and writes through the
`Order*` it is given. `touched` is a history variable with no counterpart in
the source: the prices handed so far to `getLevel`, `setLevelActive` and
`clearLevelActive`.

Where the C++ would be undefined the model stops with a `Fault`: an index
outside a level array or a bitmap, or a null `level` followed.
-/

namespace OpenHft

/-- What the C++ leaves undefined, and the one thing the model itself may fail at. -/
inductive Fault where
  /-- `bid_levels_[i]` or `ask_levels_[i]` with `i >= MaxPriceLevels` -/
  | levelIndex (price : Price)
  /-- a bitmap word at or past `BitmapWordCount` -/
  | bitmapIndex (price : Price)
  /-- `order->level` followed while null -/
  | nullLevel
  /-- the loop of the model stopped before the loop of the source would have -/
  | loopBound
  /-- an addition, subtraction or `std::abs` of signed integers out of range -/
  | signedOverflow
  deriving DecidableEq, Repr

namespace PriceLevel

/-- `head == nullptr` -/
def empty (lvl : PriceLevel) : Bool := lvl.head.isNone

/-- The order that trades first. -/
def front (lvl : PriceLevel) : Option OrderPtr := lvl.head

/-- The order is linked behind the tail and counted in the total. -/
def pushBack (this : LevelPtr) (lvl : PriceLevel) (h : Heap)
    (order : OrderPtr) : Heap × PriceLevel :=
  let h := h.modify order fun o =>
    { o with level := some this, prev := lvl.tail, next := none }
  let linked :=
    match lvl.tail with
    | some last =>
        (h.modify last fun o => { o with next := some order }, lvl.head)
    | none => (h, some order)
  (linked.1,
    { lvl with
      head := linked.2
      tail := some order
      totalQuantity := lvl.totalQuantity + (linked.1 order).quantity })

/-- The first test of `remove`: the order before, or the head, is pointed
past the order. -/
def unlinkFromPrev (head : Option OrderPtr) (h : Heap) (order : OrderPtr) :
    Heap × Option OrderPtr :=
  match (h order).prev with
  | some q => (h.modify q fun o => { o with next := (h order).next }, head)
  | none => (h, (h order).next)

/-- The second test of `remove`: the order after, or the tail, is pointed back
past the order. -/
def unlinkFromNext (tail : Option OrderPtr) (h : Heap) (order : OrderPtr) :
    Heap × Option OrderPtr :=
  match (h order).next with
  | some q => (h.modify q fun o => { o with prev := (h order).prev }, tail)
  | none => (h, (h order).prev)

/-- The order is unlinked and counted out, and its own links are cleared. -/
def remove (lvl : PriceLevel) (h : Heap) (order : Option OrderPtr) :
    Heap × PriceLevel :=
  match order with
  | none => (h, lvl)
  | some p =>
      let fwd := unlinkFromPrev lvl.head h p
      let bwd := unlinkFromNext lvl.tail fwd.1 p
      (bwd.1.modify p fun o => { o with level := none, prev := none, next := none },
        { lvl with
          head := fwd.2
          tail := bwd.2
          totalQuantity := lvl.totalQuantity - (bwd.1 p).quantity })

/-- Null for an empty level. -/
def popFront (lvl : PriceLevel) (h : Heap) :
    Option OrderPtr × Heap × PriceLevel :=
  match lvl.head with
  | none => (none, h, lvl)
  | some order => (some order, lvl.remove h (some order))

end PriceLevel

/-- The words of one side's level bitmap. -/
abbrev Bitmap := Fin bitmapWordCount → BitVec 64

/-- `OrderUpdateResult` -/
structure OrderUpdateResult where
  success : Bool := false
  removedOrder : Option OrderPtr := none
  deriving DecidableEq, Repr

/-- The book: the memory of the orders, both level arrays, both bitmaps, `best_bid_` and
`best_ask_` (0 is none), and the index by id. `touched` is a record that no code reads. -/
structure ArrayOrderBook where
  orders : Heap
  levels : LevelPtr → PriceLevel
  bitmap : Side → Bitmap
  best : Side → Price
  orderIndex : FixedHashMap OrderId OrderPtr defaultOrderCapacity
  touched : List Price

instance : NeZero defaultOrderCapacity := ⟨by decide⟩

/-- A default-constructed book over a memory of orders. -/
def ArrayOrderBook.init (stdHash : OrderId → Nat) (orders : Heap) :
    ArrayOrderBook where
  orders := orders
  levels := fun _ => {}
  bitmap := fun _ _ => 0
  best := fun _ => 0
  orderIndex := .init stdHash
  touched := []

/-- `static_cast<std::size_t>(price)` -/
def priceToIndex (price : Price) : Nat := price.toUInt64.toNat

/-- The element of the side's array, without the bounds check that the source does not make. -/
def getLevel (side : Side) (price : Price) : Except Fault LevelPtr :=
  if h : priceToIndex price < maxPriceLevels then
    .ok ⟨side, ⟨priceToIndex price, h⟩⟩
  else .error (.levelIndex price)

/-- The bits below `bitIndex`. -/
def lowerBitsMask (bitIndex : Nat) : BitVec 64 :=
  if bitIndex = 0 then 0
  else if bitIndex ≥ 64 then ~~~0
  else ((1 : BitVec 64) <<< bitIndex) - 1

/-- The bit of a price is set. -/
def setLevelActive (bitmap : Bitmap) (price : Price) : Except Fault Bitmap :=
  let index := priceToIndex price
  if h : index / bitsPerBitmapWord < bitmapWordCount then
    .ok (Function.update bitmap ⟨index / bitsPerBitmapWord, h⟩
      (bitmap ⟨index / bitsPerBitmapWord, h⟩ |||
        ((1 : BitVec 64) <<< (index % bitsPerBitmapWord))))
  else .error (.bitmapIndex price)

/-- The bit of a price is cleared. -/
def clearLevelActive (bitmap : Bitmap) (price : Price) : Except Fault Bitmap :=
  let index := priceToIndex price
  if h : index / bitsPerBitmapWord < bitmapWordCount then
    .ok (Function.update bitmap ⟨index / bitsPerBitmapWord, h⟩
      (bitmap ⟨index / bitsPerBitmapWord, h⟩ &&&
        ~~~((1 : BitVec 64) <<< (index % bitsPerBitmapWord))))
  else .error (.bitmapIndex price)

/-- The loop of `refreshBestBid`: down the words until one is not zero. -/
def bidWordLoop (bitmap : Bitmap) :
    (wordIndex : Nat) → wordIndex < bitmapWordCount → BitVec 64 →
      Option (Nat × BitVec 64)
  | 0, _, word => if word = 0 then none else some (0, word)
  | wordIndex + 1, h, word =>
      if word = 0 then
        bidWordLoop bitmap wordIndex (Nat.lt_of_succ_lt h)
          (bitmap ⟨wordIndex, Nat.lt_of_succ_lt h⟩)
      else some (wordIndex + 1, word)

/-- The loop of `refreshBestAsk`: up the words until one is not zero. The
source stops at `wordIndex >= BitmapWordCount`; `left` is how many words are
still above the current one. -/
def askWordLoop (bitmap : Bitmap) :
    (left wordIndex : Nat) → wordIndex + left < bitmapWordCount → BitVec 64 →
      Option (Nat × BitVec 64)
  | 0, wordIndex, _, word => if word = 0 then none else some (wordIndex, word)
  | left + 1, wordIndex, h, word =>
      if word = 0 then
        askWordLoop bitmap left (wordIndex + 1) (by omega)
          (bitmap ⟨wordIndex + 1, by omega⟩)
      else some (wordIndex, word)

namespace ArrayOrderBook

/-- Record a price handed to `getLevel`, `setLevelActive` or
`clearLevelActive`. -/
def touch (b : ArrayOrderBook) (price : Price) : ArrayOrderBook :=
  { b with touched := price :: b.touched }

/-- `bestBid()` and `bestAsk()`. -/
def bestLevel (b : ArrayOrderBook) (side : Side) :
    Except Fault (Option LevelPtr) :=
  if b.best side = 0 then .ok none
  else
    if h : priceToIndex (b.best side) < maxPriceLevels then
      .ok (some ⟨side, ⟨priceToIndex (b.best side), h⟩⟩)
    else .error (.levelIndex (b.best side))

/-- The level of the highest bid. -/
def bestBid (b : ArrayOrderBook) : Except Fault (Option LevelPtr) :=
  b.bestLevel .buy

/-- The level of the lowest offer. -/
def bestAsk (b : ArrayOrderBook) : Except Fault (Option LevelPtr) :=
  b.bestLevel .sell

/-- The best bid has gone: the next lower price whose bit is set becomes it, or none. -/
def refreshBestBid (b : ArrayOrderBook) : Except Fault ArrayOrderBook :=
  if b.best .buy = 0 then .ok b
  else
    let bestIndex := priceToIndex (b.best .buy)
    let wordIndex := bestIndex / bitsPerBitmapWord
    let bitIndex := bestIndex % bitsPerBitmapWord
    if h : wordIndex < bitmapWordCount then
      -- Search only prices below the removed best bid.
      let word := b.bitmap .buy ⟨wordIndex, h⟩ &&& lowerBitsMask bitIndex
      match bidWordLoop (b.bitmap .buy) wordIndex h word with
      | none => .ok { b with best := Function.update b.best .buy 0 }
      | some (wordIndex, word) =>
          let highestSetBit := bitsPerBitmapWord - 1 - word.clz.toNat
          .ok { b with
                best := Function.update b.best .buy
                  (Int64.ofNat (wordIndex * bitsPerBitmapWord + highestSetBit)) }
    else .error (.bitmapIndex (b.best .buy))

/-- The best offer has gone: the next higher price whose bit is set becomes it, or none. -/
def refreshBestAsk (b : ArrayOrderBook) : Except Fault ArrayOrderBook :=
  if b.best .sell = 0 then .ok b
  else
    let bestIndex := priceToIndex (b.best .sell)
    let wordIndex := bestIndex / bitsPerBitmapWord
    let bitIndex := bestIndex % bitsPerBitmapWord
    if h : wordIndex < bitmapWordCount then
      -- Search only prices above the removed best ask.
      let word := b.bitmap .sell ⟨wordIndex, h⟩ &&&
        ~~~lowerBitsMask (bitIndex + 1)
      match askWordLoop (b.bitmap .sell) (bitmapWordCount - 1 - wordIndex)
          wordIndex (by omega) word with
      | none => .ok { b with best := Function.update b.best .sell 0 }
      | some (wordIndex, word) =>
          let lowestSetBit := word.ctz.toNat
          .ok { b with
                best := Function.update b.best .sell
                  (Int64.ofNat (wordIndex * bitsPerBitmapWord + lowestSetBit)) }
    else .error (.bitmapIndex (b.best .sell))

/-- `price` is strictly better than `best` for an order on this side. -/
def improves : Side → Price → Price → Bool
  | .buy, price, best => decide (price > best)
  | .sell, price, best => decide (price < best)

/-- The first branch of `addOrder`: an empty level gets its price and its
bit. -/
def activateLevel (b : ArrayOrderBook) (o : Order) (level : LevelPtr) :
    Except Fault ArrayOrderBook :=
  if (b.levels level).empty then do
    let b := b.touch o.price
    let bitmap ← setLevelActive (b.bitmap o.side) o.price
    .ok { b with
          levels := Function.update b.levels level
            { b.levels level with price := o.price }
          bitmap := Function.update b.bitmap o.side bitmap }
  else .ok b

/-- `level.push_back(order)` on a level of the book. -/
def pushBackLevel (b : ArrayOrderBook) (level : LevelPtr) (order : OrderPtr) :
    ArrayOrderBook :=
  let pushed := (b.levels level).pushBack level b.orders order
  { b with
    orders := pushed.1
    levels := Function.update b.levels level pushed.2 }

/-- `level->remove(order)` on a level of the book. -/
def removeLevel (b : ArrayOrderBook) (level : LevelPtr) (order : OrderPtr) :
    ArrayOrderBook :=
  let removed := (b.levels level).remove b.orders (some order)
  { b with
    orders := removed.1
    levels := Function.update b.levels level removed.2 }

/-- The best-price update of `addOrder`. -/
def raiseBest (b : ArrayOrderBook) (side : Side) (price : Price) :
    ArrayOrderBook :=
  if b.best side = 0 ∨ improves side price (b.best side) = true then
    { b with best := Function.update b.best side price }
  else b

/-- The order goes to the end of its level. -/
def addOrder (b : ArrayOrderBook) (order : OrderPtr) :
    Except Fault ArrayOrderBook := do
  let o := b.orders order
  let b := b.touch o.price
  let level ← getLevel o.side o.price
  let b ← b.activateLevel o level
  let b := b.pushBackLevel level order
  let b := b.raiseBest o.side o.price
  -- the result of `insert` is not looked at
  .ok { b with orderIndex := (b.orderIndex.insert o.id order).2 }

/-- The branch of `cancelOrder` for a level that has just become empty. -/
def deactivateLevel (b : ArrayOrderBook) (o : Order) :
    Except Fault ArrayOrderBook := do
  let b := b.touch o.price
  let bitmap ← clearLevelActive (b.bitmap o.side) o.price
  let b := { b with bitmap := Function.update b.bitmap o.side bitmap }
  match o.side with
  | .buy => if o.price = b.best .buy then b.refreshBestBid else .ok b
  | .sell => if o.price = b.best .sell then b.refreshBestAsk else .ok b

/-- The order is unlinked and forgotten; it is the caller's now. An unknown id changes nothing. -/
def cancelOrder (b : ArrayOrderBook) (id : OrderId) :
    Except Fault (Option OrderPtr × ArrayOrderBook) := do
  match b.orderIndex.find id with
  | none => .ok (none, b)
  | some order =>
      match (b.orders order).level with
      | none => .error .nullLevel
      | some level =>
          let b := b.removeLevel level order
          let b ←
            if (b.levels level).empty then b.deactivateLevel (b.orders order)
            else .ok b
          .ok (some order, { b with orderIndex := (b.orderIndex.erase id).2 })

/-- Nothing, or more than there is, is refused, and all there is cancels the order. Otherwise
only the order is lowered: the total of its level stays as it is. -/
def reduceOrder (b : ArrayOrderBook) (id : OrderId)
    (cancelledQuantity : Quantity) :
    Except Fault (OrderUpdateResult × ArrayOrderBook) := do
  match b.orderIndex.find id with
  | none => .ok ({}, b)
  | some order =>
      if cancelledQuantity = 0 ∨
          cancelledQuantity > (b.orders order).quantity then .ok ({}, b)
      else if cancelledQuantity = (b.orders order).quantity then do
        let (removedOrder, b) ← b.cancelOrder id
        match removedOrder with
        | none => .ok ({}, b)
        | some p => .ok ({ success := true, removedOrder := some p }, b)
      else
        .ok ({ success := true },
          { b with
            orders := b.orders.modify order fun o =>
              { o with quantity := o.quantity - cancelledQuantity } })

/-- An execution is a reduction. -/
def executeOrder (b : ArrayOrderBook) (id : OrderId)
    (executedQuantity : Quantity) :
    Except Fault (OrderUpdateResult × ArrayOrderBook) :=
  b.reduceOrder id executedQuantity

/-- The order is cancelled and comes back with new terms, at the end of its new level. -/
def replaceOrder (b : ArrayOrderBook)
    (originalOrderId newOrderId : OrderId) (newQuantity : Quantity)
    (newPrice : Price) : Except Fault (Bool × ArrayOrderBook) := do
  if newOrderId = 0 ∨ newQuantity = 0 ∨ newOrderId = originalOrderId then
    .ok (false, b)
  else if b.orderIndex.contains newOrderId then .ok (false, b)
  else
    match b.orderIndex.find originalOrderId with
    | none => .ok (false, b)
    | some found =>
        let side := (b.orders found).side
        let accountId := (b.orders found).accountId
        let (removed, b) ← b.cancelOrder originalOrderId
        match removed with
        | none => .ok (false, b)
        | some order =>
            let b :=
              { b with
                orders := b.orders.modify order fun _ =>
                  { id := newOrderId, accountId := accountId, side := side,
                    price := newPrice, quantity := newQuantity } }
            let b ← b.addOrder order
            .ok (true, b)

end ArrayOrderBook

end OpenHft
