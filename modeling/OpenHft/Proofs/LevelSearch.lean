import OpenHft.Model.LevelSearch
import OpenHft.Proofs.BitmapSearch

/-!
# The search ends, stays inside the bitmap and finds the neighbour

The searches as written are the searches of `Model.OrderBook`, once they are given a turn for
every word of the bitmap: `refreshBestBidWhile_eq` and `refreshBestAskWhile_eq` say so of
every book, whatever its best price. So the `while` never runs on and its reads never leave
the bitmap, and what `Proofs.BitmapSearch` found about the neighbouring level holds of them.

The word index of the downward search is decremented only when it is not zero, and that of
the upward search is compared with the word count before it is used, so neither leaves the
numbers below the word count and both loops can be followed on `Nat`. The bit count is the
place where that takes an argument: `64 - 1 - countl_zero(word)` would wrap for a zero word,
and the loop ends with no such word.
-/

namespace OpenHft

open OpenHft.Lib ArrayOrderBook

/-! ## Word indices -/

theorem toNat_wordIndex {k : Nat} (hk : k < bitmapWordCount) : (UInt64.ofNat k).toNat = k :=
  UInt64.toNat_ofNat_of_lt' (Nat.lt_trans hk (by decide))

theorem wordAt_ok (bitmap : Bitmap) (price : Price) {k : Nat} (hk : k < bitmapWordCount) :
    wordAt bitmap price (UInt64.ofNat k) = .ok (bitmap ⟨k, hk⟩) := by
  simp only [wordAt, toNat_wordIndex hk, dif_pos hk]

theorem wordIndex_eq (price : Price) :
    price.toUInt64 / UInt64.ofNat bitsPerBitmapWord =
      UInt64.ofNat (priceToIndex price / bitsPerBitmapWord) := by
  rw [priceToIndex, UInt64.ofNat_div (UInt64.toNat_lt _) (by decide), UInt64.ofNat_toNat]

theorem bitIndex_eq (price : Price) :
    (price.toUInt64 % UInt64.ofNat bitsPerBitmapWord).toNat =
      priceToIndex price % bitsPerBitmapWord := UInt64.toNat_mod _ _

theorem bitIndex_succ_eq (price : Price) :
    (price.toUInt64 % UInt64.ofNat bitsPerBitmapWord + 1).toNat =
      priceToIndex price % bitsPerBitmapWord + 1 := by
  have hlt : priceToIndex price % bitsPerBitmapWord < 64 := Nat.mod_lt _ (by decide)
  rw [UInt64.toNat_add, bitIndex_eq]
  exact Nat.mod_eq_of_lt (by show _ + 1 < 2 ^ 64; omega)

/-- A best price with no word of its own: the first read of a search fails. -/
theorem wordAt_price_error (bitmap : Bitmap) {price : Price}
    (h : ¬ priceToIndex price / bitsPerBitmapWord < bitmapWordCount) :
    wordAt bitmap price (price.toUInt64 / UInt64.ofNat bitsPerBitmapWord) =
      .error (.bitmapIndex price) := by
  rw [wordAt, dif_neg]
  rwa [UInt64.toNat_div]

/-! ## The loops -/

/-- Where a loop ended, its word index as the machine has it. -/
def machineWord : Nat × BitVec 64 → UInt64 × BitVec 64
  | (k, word) => (UInt64.ofNat k, word)

theorem bidWhile_eq (bitmap : Bitmap) (price : Price) {k : Nat} (hk : k < bitmapWordCount)
    {turns : Nat} (hturns : k < turns) (word : BitVec 64) :
    bidWhile bitmap price turns (UInt64.ofNat k) word =
      .ok ((bidWordLoop bitmap k hk word).map machineWord) := by
  induction k generalizing turns word with
  | zero =>
      obtain ⟨turns, rfl⟩ := Nat.exists_eq_succ_of_ne_zero (by omega : turns ≠ 0)
      by_cases hword : word = 0
      · rw [bidWhile, bidWordLoop, if_pos hword, if_pos hword]
        rfl
      · rw [bidWhile, bidWordLoop, if_neg hword, if_neg hword]
        rfl
  | succ k ih =>
      obtain ⟨turns, rfl⟩ := Nat.exists_eq_succ_of_ne_zero (by omega : turns ≠ 0)
      by_cases hword : word = 0
      · have hne : UInt64.ofNat (k + 1) ≠ 0 := by
          intro e
          have := congrArg UInt64.toNat e
          rw [toNat_wordIndex hk] at this
          exact Nat.succ_ne_zero k this
        have hpred : UInt64.ofNat (k + 1) - 1 = UInt64.ofNat k := by
          rw [UInt64.ofNat_add]
          exact UInt64.add_sub_cancel _ _
        have hk' := Nat.lt_of_succ_lt hk
        rw [bidWhile, bidWordLoop, if_pos hword, if_pos hword, if_neg hne, hpred]
        simp only [wordAt_ok bitmap price hk']
        exact ih hk' (by omega) _
      · rw [bidWhile, bidWordLoop, if_neg hword, if_neg hword]
        rfl

theorem askWhile_eq (bitmap : Bitmap) (price : Price) {left k : Nat}
    (hk : k + left < bitmapWordCount) (hend : k + left + 1 = bitmapWordCount)
    {turns : Nat} (hturns : left < turns) (word : BitVec 64) :
    askWhile bitmap price turns (UInt64.ofNat k) word =
      .ok ((askWordLoop bitmap left k hk word).map machineWord) := by
  have hsucc : UInt64.ofNat k + 1 = UInt64.ofNat (k + 1) := (UInt64.ofNat_add k 1).symm
  induction left generalizing k turns word with
  | zero =>
      obtain ⟨turns, rfl⟩ := Nat.exists_eq_succ_of_ne_zero (by omega : turns ≠ 0)
      by_cases hword : word = 0
      · have hlast : UInt64.ofNat (k + 1) ≥ UInt64.ofNat bitmapWordCount := by
          rw [show k + 1 = bitmapWordCount by omega]
          exact UInt64.le_refl _
        rw [askWhile, askWordLoop, if_pos hword, if_pos hword]
        simp only [hsucc, if_pos hlast]
        rfl
      · rw [askWhile, askWordLoop, if_neg hword, if_neg hword]
        rfl
  | succ left ih =>
      obtain ⟨turns, rfl⟩ := Nat.exists_eq_succ_of_ne_zero (by omega : turns ≠ 0)
      by_cases hword : word = 0
      · have hk' : k + 1 < bitmapWordCount := by omega
        have hmore : ¬ UInt64.ofNat (k + 1) ≥ UInt64.ofNat bitmapWordCount := by
          rw [ge_iff_le, UInt64.le_iff_toNat_le, toNat_wordIndex hk', Nat.not_le]
          exact hk'
        rw [askWhile, askWordLoop, if_pos hword, if_pos hword]
        simp only [hsucc, if_neg hmore, wordAt_ok bitmap price hk']
        exact ih (by omega) (by omega) (by omega) _ (UInt64.ofNat_add (k + 1) 1).symm
      · rw [askWhile, askWordLoop, if_neg hword, if_neg hword]
        rfl

theorem bidWordLoop_ne_zero {bitmap : Bitmap} {k : Nat} {hk : k < bitmapWordCount}
    {word : BitVec 64} {found : Nat × BitVec 64}
    (h : bidWordLoop bitmap k hk word = some found) : found.2 ≠ 0 := by
  fun_induction bidWordLoop bitmap k hk word with
  | case1 => cases h
  | case2 hk word hword =>
      cases h
      exact hword
  | case3 k hk ih => exact ih h
  | case4 k hk word hword =>
      cases h
      exact hword

/-! ## The price that is stored -/

theorem highestPrice_eq (k : Nat) {word : BitVec 64} (hword : word ≠ 0) :
    (UInt64.ofNat k * UInt64.ofNat bitsPerBitmapWord +
        (UInt64.ofNat bitsPerBitmapWord - 1 - UInt64.ofBitVec word.clz)).toInt64 =
      Int64.ofNat (k * bitsPerBitmapWord + (bitsPerBitmapWord - 1 - word.clz.toNat)) := by
  have hclz : word.clz.toNat < 64 := by
    have := BitVec.lt_def.mp (BitVec.clz_lt_iff_ne_zero.mpr hword)
    simpa using this
  rw [← UInt64.toInt64_ofNat', UInt64.ofNat_add, UInt64.ofNat_mul,
    UInt64.ofNat_sub (by show word.clz.toNat ≤ 64 - 1; omega),
    UInt64.ofNat_sub (by decide), UInt64.ofNat_bitVecToNat]
  rfl

theorem lowestPrice_eq (k : Nat) (word : BitVec 64) :
    (UInt64.ofNat k * UInt64.ofNat bitsPerBitmapWord + UInt64.ofBitVec word.ctz).toInt64 =
      Int64.ofNat (k * bitsPerBitmapWord + word.ctz.toNat) := by
  rw [← UInt64.toInt64_ofNat', UInt64.ofNat_add, UInt64.ofNat_mul, UInt64.ofNat_bitVecToNat]

/-- An index in the range of the levels is stored as itself. -/
theorem foundPrice_some {i : Nat} (hpos : 0 < i) (hi : i < maxPriceLevels) :
    ValidPrice (foundPrice (some i)) ∧ priceToIndex (foundPrice (some i)) = i :=
  ⟨validPrice_ofNat hpos hi, priceToIndex_ofNat (Nat.lt_trans hi (by decide))⟩

section Stored

variable {P : Nat → Bool} {p : Nat} {found : Option Nat}

/-- Bit 0 is the sentinel of "none": while it is clear, the greatest index below is stored as
a price of the book. -/
theorem Lib.GreatestBelow.price (h : GreatestBelow P p found) (hp : p < maxPriceLevels)
    (hlow : P 0 = false) :
    foundPrice found = 0 ∧ (∀ i < p, P i = false) ∨
      ValidPrice (foundPrice found) ∧
        IsGreatest { i | i < p ∧ P i = true } (priceToIndex (foundPrice found)) := by
  cases found with
  | none => exact Or.inl ⟨rfl, h⟩
  | some i =>
      have hpos : 0 < i := Nat.pos_of_ne_zero fun e => by
        have hset := h.2.1
        rw [e, hlow] at hset
        cases hset
      obtain ⟨hvalid, hindex⟩ := foundPrice_some hpos (Nat.lt_trans h.1 hp)
      rw [hindex]
      exact Or.inr ⟨hvalid, h.isGreatest⟩

theorem Lib.LeastAbove.price (h : LeastAbove P p found)
    (hhigh : ∀ i ≥ maxPriceLevels, P i = false) :
    foundPrice found = 0 ∧ (∀ i > p, P i = false) ∨
      ValidPrice (foundPrice found) ∧
        IsLeast { i | p < i ∧ P i = true } (priceToIndex (foundPrice found)) := by
  cases found with
  | none => exact Or.inl ⟨rfl, h⟩
  | some i =>
      have hi : i < maxPriceLevels := Nat.lt_of_not_ge fun hge => by
        have hset := h.2.1
        rw [hhigh i hge] at hset
        cases hset
      obtain ⟨hvalid, hindex⟩ := foundPrice_some (Nat.zero_lt_of_lt h.1) hi
      rw [hindex]
      exact Or.inr ⟨hvalid, h.isLeast⟩

end Stored

/-! ## The two searches -/

namespace ArrayOrderBook

theorem refreshBestBidWhile_eq (b : ArrayOrderBook) {turns : Nat}
    (hturns : bitmapWordCount ≤ turns) : b.refreshBestBidWhile turns = b.refreshBestBid := by
  by_cases hbest : b.best .buy = 0
  · rw [refreshBestBidWhile, refreshBestBid, if_pos hbest, if_pos hbest]
  by_cases hk : priceToIndex (b.best .buy) / bitsPerBitmapWord < bitmapWordCount
  · simp only [refreshBestBidWhile, refreshBestBid, if_neg hbest, dif_pos hk, wordIndex_eq,
      bitIndex_eq, wordAt_ok (b.bitmap .buy) (b.best .buy) hk, bind, Except.bind,
      bidWhile_eq (b.bitmap .buy) (b.best .buy) hk (Nat.lt_of_lt_of_le hk hturns)]
    cases hloop : bidWordLoop (b.bitmap .buy) _ hk _ with
    | none => rfl
    | some found =>
        obtain ⟨k, word⟩ := found
        have hword : word ≠ 0 := bidWordLoop_ne_zero hloop
        simp only [Option.map_some, machineWord, highestPrice_eq k hword]
  · simp only [refreshBestBidWhile, refreshBestBid, if_neg hbest, dif_neg hk,
      wordAt_price_error (b.bitmap .buy) hk, bind, Except.bind]

theorem refreshBestAskWhile_eq (b : ArrayOrderBook) {turns : Nat}
    (hturns : bitmapWordCount ≤ turns) : b.refreshBestAskWhile turns = b.refreshBestAsk := by
  by_cases hbest : b.best .sell = 0
  · rw [refreshBestAskWhile, refreshBestAsk, if_pos hbest, if_pos hbest]
  by_cases hk : priceToIndex (b.best .sell) / bitsPerBitmapWord < bitmapWordCount
  · simp only [refreshBestAskWhile, refreshBestAsk, if_neg hbest, dif_pos hk, wordIndex_eq,
      bitIndex_succ_eq, wordAt_ok (b.bitmap .sell) (b.best .sell) hk, bind, Except.bind]
    have hleft : bitmapWordCount - 1 - priceToIndex (b.best .sell) / bitsPerBitmapWord < turns :=
      Nat.lt_of_lt_of_le (Nat.lt_of_le_of_lt (Nat.sub_le _ _) (by decide)) hturns
    rw [askWhile_eq (b.bitmap .sell) (b.best .sell) (by omega) (by omega) hleft]
    cases askWordLoop (b.bitmap .sell) _ _ _ _ with
    | none => rfl
    | some found =>
        obtain ⟨k, word⟩ := found
        simp only [Option.map_some, machineWord, lowestPrice_eq]
  · simp only [refreshBestAskWhile, refreshBestAsk, if_neg hbest, dif_neg hk,
      wordAt_price_error (b.bitmap .sell) hk, bind, Except.bind]

/-- The search from a best price in the book's range ends within a turn for every word of the
bitmap and reads no word outside it. With no bit below the first price, `refreshBestBid` moves
the best bid to the greatest price below it whose bit is set, and with no bit above the last,
`refreshBestAsk` moves the best ask to the least above it; each stores 0 if there is none, and
writes nothing else. -/
theorem refresh_finds_neighbour (b : ArrayOrderBook) (turns : Nat)
    (hturns : bitmapWordCount ≤ turns) :
    (ValidPrice (b.best .buy) → bitAt (b.bitmap .buy) 0 = false →
      ∃ price, b.refreshBestBidWhile turns =
          .ok { b with best := Function.update b.best .buy price } ∧
        (price = 0 ∧ (∀ i < priceToIndex (b.best .buy), bitAt (b.bitmap .buy) i = false) ∨
          ValidPrice price ∧
            IsGreatest { i | i < priceToIndex (b.best .buy) ∧ bitAt (b.bitmap .buy) i = true }
              (priceToIndex price))) ∧
    (ValidPrice (b.best .sell) → (∀ i ≥ maxPriceLevels, bitAt (b.bitmap .sell) i = false) →
      ∃ price, b.refreshBestAskWhile turns =
          .ok { b with best := Function.update b.best .sell price } ∧
        (price = 0 ∧ (∀ i > priceToIndex (b.best .sell), bitAt (b.bitmap .sell) i = false) ∨
          ValidPrice price ∧
            IsLeast { i | priceToIndex (b.best .sell) < i ∧ bitAt (b.bitmap .sell) i = true }
              (priceToIndex price))) := by
  refine ⟨fun hbest hlow => ?_, fun hbest hhigh => ?_⟩
  · obtain ⟨found, hfound, hrun⟩ := refreshBestBid_ok hbest
    rw [refreshBestBidWhile_eq b hturns]
    exact ⟨foundPrice found, hrun, hfound.price hbest.index_lt hlow⟩
  · obtain ⟨found, hfound, hrun⟩ := refreshBestAsk_ok hbest
    rw [refreshBestAskWhile_eq b hturns]
    exact ⟨foundPrice found, hrun, hfound.price hhigh⟩

/-- A book with the last bit of one word and the first bit of the next set on both sides, and
a best price on the far side of the border. -/
def borderBook : ArrayOrderBook where
  orders := fun _ => default
  levels := fun _ => {}
  bitmap := fun _ k => if k.val = 0 then 1 <<< 63 else if k.val = 1 then 1 else 0
  best := fun
    | .buy => 64
    | .sell => 63
  orderIndex := .init fun _ => 0
  touched := []

theorem borderBook_bitAt_high (i : Nat) (h : i ≥ maxPriceLevels) :
    bitAt (borderBook.bitmap .sell) i = false := by
  have hdiv : 2 ≤ i / 64 := by
    rw [maxPriceLevels] at h
    omega
  rw [bitAt]
  split
  · simp only [borderBook, if_neg (show ¬ i / 64 = 0 by omega),
      if_neg (show ¬ i / 64 = 1 by omega)]
    exact BitVec.getLsbD_zero
  · rfl

/-- Both searches cross the border between the two words. -/
theorem refresh_finds_neighbour_border :
    ValidPrice (borderBook.best .buy) ∧ ValidPrice (borderBook.best .sell) ∧
      bitAt (borderBook.bitmap .buy) 0 = false ∧
      (∀ i ≥ maxPriceLevels, bitAt (borderBook.bitmap .sell) i = false) ∧
      borderBook.refreshBestBidWhile bitmapWordCount =
        .ok { borderBook with best := Function.update borderBook.best .buy 63 } ∧
      borderBook.refreshBestAskWhile bitmapWordCount =
        .ok { borderBook with best := Function.update borderBook.best .sell 64 } := by
  have hbuy : ValidPrice (borderBook.best .buy) := by decide
  have hsell : ValidPrice (borderBook.best .sell) := by decide
  have hlow : bitAt (borderBook.bitmap .buy) 0 = false := by decide +kernel
  have hset63 : bitAt (borderBook.bitmap .buy) 63 = true := by decide +kernel
  have hset64 : bitAt (borderBook.bitmap .sell) 64 = true := by decide +kernel
  obtain ⟨hbid, hask⟩ := refresh_finds_neighbour borderBook bitmapWordCount (Nat.le_refl _)
  obtain ⟨bid, hbid, hbelow⟩ := hbid hbuy hlow
  obtain ⟨ask, hask, habove⟩ := hask hsell borderBook_bitAt_high
  have hbid63 : bid = 63 := by
    rcases hbelow with ⟨_, hnone⟩ | ⟨_, hmem, hmax⟩
    · have := hnone 63 (by decide)
      rw [hset63] at this
      cases this
    · have hge := hmax ⟨by decide, hset63⟩
      exact priceToIndex_inj (Nat.le_antisymm (Nat.le_of_lt_succ hmem.1) hge)
  have hask64 : ask = 64 := by
    rcases habove with ⟨_, hnone⟩ | ⟨_, hmem, hmin⟩
    · have := hnone 64 (by decide)
      rw [hset64] at this
      cases this
    · have hle := hmin ⟨by decide, hset64⟩
      exact priceToIndex_inj (Nat.le_antisymm hle hmem.1)
  rw [hbid63] at hbid
  rw [hask64] at hask
  exact ⟨hbuy, hsell, hlow, borderBook_bitAt_high, hbid, hask⟩

end ArrayOrderBook

end OpenHft
