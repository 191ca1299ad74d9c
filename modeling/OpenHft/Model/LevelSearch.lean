import OpenHft.Model.OrderBook

/-!
# The search for the next best price, word by word as written

`refreshBestBid` and `refreshBestAsk` once more, at the level of the source's own variables:
`wordIndex` is a `std::size_t` that is decremented and incremented as such, every read of a
bitmap word is checked, and the `while` runs for a given number of turns. The two loops of
`Model.OrderBook` take the bound of every read and the end of every search from their types;
here both are left to be proved.
-/

namespace OpenHft

/-- `bitmap[wordIndex]`, in a search that began at `price`. -/
def wordAt (bitmap : Bitmap) (price : Price) (wordIndex : UInt64) : Except Fault (BitVec 64) :=
  if h : wordIndex.toNat < bitmapWordCount then .ok (bitmap ⟨wordIndex.toNat, h⟩)
  else .error (.bitmapIndex price)

/-- The `while` of `refreshBestBid`: where it ends, or `none` if it returns from inside. -/
def bidWhile (bitmap : Bitmap) (price : Price) :
    (turns : Nat) → UInt64 → BitVec 64 → Except Fault (Option (UInt64 × BitVec 64))
  | 0, _, _ => .error .loopBound
  | turns + 1, wordIndex, word =>
      if word = 0 then
        if wordIndex = 0 then .ok none
        else do
          let wordIndex := wordIndex - 1
          let word ← wordAt bitmap price wordIndex
          bidWhile bitmap price turns wordIndex word
      else .ok (some (wordIndex, word))

/-- The `while` of `refreshBestAsk`: where it ends, or `none` if it returns from inside. -/
def askWhile (bitmap : Bitmap) (price : Price) :
    (turns : Nat) → UInt64 → BitVec 64 → Except Fault (Option (UInt64 × BitVec 64))
  | 0, _, _ => .error .loopBound
  | turns + 1, wordIndex, word =>
      if word = 0 then
        let wordIndex := wordIndex + 1
        if wordIndex ≥ UInt64.ofNat bitmapWordCount then .ok none
        else do
          let word ← wordAt bitmap price wordIndex
          askWhile bitmap price turns wordIndex word
      else .ok (some (wordIndex, word))

namespace ArrayOrderBook

/-- `refreshBestBid`, with so many turns of its `while`. -/
def refreshBestBidWhile (turns : Nat) (b : ArrayOrderBook) : Except Fault ArrayOrderBook :=
  if b.best .buy = 0 then .ok b
  else do
    let bestIndex := (b.best .buy).toUInt64
    let wordIndex := bestIndex / UInt64.ofNat bitsPerBitmapWord
    let bitIndex := bestIndex % UInt64.ofNat bitsPerBitmapWord
    let word ← wordAt (b.bitmap .buy) (b.best .buy) wordIndex
    -- Search only prices below the removed best bid.
    let word := word &&& lowerBitsMask bitIndex.toNat
    match ← bidWhile (b.bitmap .buy) (b.best .buy) turns wordIndex word with
    | none => .ok { b with best := Function.update b.best .buy 0 }
    | some (wordIndex, word) =>
        let highestSetBit := UInt64.ofNat bitsPerBitmapWord - 1 - UInt64.ofBitVec word.clz
        .ok { b with
              best := Function.update b.best .buy
                (wordIndex * UInt64.ofNat bitsPerBitmapWord + highestSetBit).toInt64 }

/-- `refreshBestAsk`, with so many turns of its `while`. -/
def refreshBestAskWhile (turns : Nat) (b : ArrayOrderBook) : Except Fault ArrayOrderBook :=
  if b.best .sell = 0 then .ok b
  else do
    let bestIndex := (b.best .sell).toUInt64
    let wordIndex := bestIndex / UInt64.ofNat bitsPerBitmapWord
    let bitIndex := bestIndex % UInt64.ofNat bitsPerBitmapWord
    let word ← wordAt (b.bitmap .sell) (b.best .sell) wordIndex
    -- Search only prices above the removed best ask.
    let word := word &&& ~~~lowerBitsMask (bitIndex + 1).toNat
    match ← askWhile (b.bitmap .sell) (b.best .sell) turns wordIndex word with
    | none => .ok { b with best := Function.update b.best .sell 0 }
    | some (wordIndex, word) =>
        let lowestSetBit := UInt64.ofBitVec word.ctz
        .ok { b with
              best := Function.update b.best .sell
                (wordIndex * UInt64.ofNat bitsPerBitmapWord + lowestSetBit).toInt64 }

end ArrayOrderBook

end OpenHft
