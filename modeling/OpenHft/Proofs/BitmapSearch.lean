import OpenHft.Lib.Bitmap
import OpenHft.Model.OrderBook

/-!
# Prices as indices, and the search for the next best price

A price in the book's range is the same number as a price, as a level index
and as a bit number; the first section says so. The rest is the bitmap half of
`array_order_book.cpp`: what setting and clearing a bit does, and that the two
word loops find the neighbouring set bit across word borders.

Both loops are read against a predicate rather than against the words. Masking
the first word turns the bitmap into the predicate "set, and on the far side
of the old best price"; the loop invariant is that the current word spells
that predicate on its own indices, that the predicate is empty where the loop
has been, and that it is still the bitmap where the loop has yet to look.
-/

namespace OpenHft

open OpenHft.Lib

/-! ## Prices -/

/-- The prices the book has a level for, the sentinel 0 left out. -/
def ValidPrice (price : Price) : Prop := 1 ≤ price ∧ price ≤ 99999

instance (price : Price) : Decidable (ValidPrice price) :=
  inferInstanceAs (Decidable (_ ∧ _))

theorem priceToIndex_eq_toNat {price : Price} (h : 0 ≤ price) :
    priceToIndex price = price.toInt.toNat := by
  rw [priceToIndex, Int64.toNat_toUInt64_of_le h]
  rfl

theorem priceToIndex_inj {p q : Price} (h : priceToIndex p = priceToIndex q) :
    p = q := by
  have hu : p.toUInt64 = q.toUInt64 := UInt64.toNat_inj.mp h
  rw [← Int64.toInt64_toUInt64 p, hu, Int64.toInt64_toUInt64]

theorem priceToIndex_ofNat {i : Nat} (h : i < 2 ^ 64) :
    priceToIndex (Int64.ofNat i) = i := by
  rw [priceToIndex, Int64.toUInt64_ofNat', UInt64.toNat_ofNat', Nat.mod_eq_of_lt h]

theorem ofNat_priceToIndex (price : Price) :
    Int64.ofNat (priceToIndex price) = price := by
  apply priceToIndex_inj
  exact priceToIndex_ofNat (UInt64.toNat_lt _)

@[simp] theorem priceToIndex_zero : priceToIndex 0 = 0 := rfl

theorem ValidPrice.toInt_range {price : Price} (h : ValidPrice price) :
    1 ≤ price.toInt ∧ price.toInt ≤ 99999 :=
  ⟨Int64.le_iff_toInt_le.mp h.1, Int64.le_iff_toInt_le.mp h.2⟩

theorem ValidPrice.priceToIndex_toInt {price : Price} (h : ValidPrice price) :
    (priceToIndex price : Int) = price.toInt := by
  have hr := h.toInt_range
  have h0 : (0 : Int64) ≤ price := Int64.le_iff_toInt_le.mpr (by
    rw [Int64.toInt_zero]; omega)
  rw [priceToIndex_eq_toNat h0, Int.toNat_of_nonneg (by omega)]

theorem ValidPrice.index_pos {price : Price} (h : ValidPrice price) :
    0 < priceToIndex price := by
  have := h.toInt_range
  have := h.priceToIndex_toInt
  omega

theorem ValidPrice.index_lt {price : Price} (h : ValidPrice price) :
    priceToIndex price < maxPriceLevels := by
  have := h.toInt_range
  have := h.priceToIndex_toInt
  rw [maxPriceLevels]
  omega

theorem ValidPrice.ne_zero {price : Price} (h : ValidPrice price) :
    price ≠ 0 := by
  intro e
  have := h.index_pos
  rw [e, priceToIndex_zero] at this
  omega

theorem ValidPrice.lt_iff {p q : Price} (hp : ValidPrice p)
    (hq : ValidPrice q) : p < q ↔ priceToIndex p < priceToIndex q := by
  have := hp.priceToIndex_toInt
  have := hq.priceToIndex_toInt
  rw [Int64.lt_iff_toInt_lt]
  omega

theorem validPrice_ofNat {i : Nat} (h0 : 0 < i) (h : i < maxPriceLevels) :
    ValidPrice (Int64.ofNat i) := by
  rw [maxPriceLevels] at h
  have hi : (Int64.ofNat i).toInt = i :=
    Int64.toInt_ofNat_of_lt (by omega)
  refine ⟨Int64.le_iff_toInt_le.mpr ?_, Int64.le_iff_toInt_le.mpr ?_⟩
  · rw [hi]
    show (1 : Int) ≤ i
    omega
  · rw [hi]
    show (i : Int) ≤ 99999
    omega

/-- The level an in-range price belongs to. -/
def levelAt (side : Side) (price : Price) (h : ValidPrice price) : LevelPtr :=
  ⟨side, ⟨priceToIndex price, h.index_lt⟩⟩

@[simp] theorem levelAt_side (side : Side) (price : Price) (h : ValidPrice price) :
    (levelAt side price h).side = side := rfl

theorem getLevel_ok {price : Price} (h : ValidPrice price) (side : Side) :
    getLevel side price = .ok (levelAt side price h) := dif_pos h.index_lt

/-! ## Setting and clearing a bit -/

theorem word_lt {i : Nat} (h : i < maxPriceLevels) :
    i / bitsPerBitmapWord < bitmapWordCount := by
  rw [maxPriceLevels] at h
  show i / 64 < 1563
  omega

theorem setLevelActive_ok {price : Price} (h : ValidPrice price)
    (bitmap : Bitmap) :
    ∃ bitmap', setLevelActive bitmap price = .ok bitmap' ∧
      ∀ j, bitAt bitmap' j =
        (decide (j = priceToIndex price) || bitAt bitmap j) := by
  have hw := word_lt h.index_lt
  exact ⟨_, dif_pos hw, bitAt_set bitmap (by decide) hw⟩

theorem clearLevelActive_ok {price : Price} (h : ValidPrice price)
    (bitmap : Bitmap) :
    ∃ bitmap', clearLevelActive bitmap price = .ok bitmap' ∧
      ∀ j, bitAt bitmap' j =
        (!decide (j = priceToIndex price) && bitAt bitmap j) := by
  have hw := word_lt h.index_lt
  exact ⟨_, dif_pos hw, bitAt_clear bitmap (by decide) hw⟩

/-! ## The word loops -/

theorem lowerBitsMask_getLsbD (k : Nat) {b : Nat} (hb : b < 64) :
    (lowerBitsMask k).getLsbD b = decide (b < k) := by
  rw [lowerBitsMask]
  split
  · next h => subst h; simp
  · split
    · next h =>
        rw [BitVec.getLsbD_not]
        simp [hb, Nat.lt_of_lt_of_le hb h]
    · next h0 h =>
        have hpow : 0 < 2 ^ k := Nat.two_pow_pos k
        have hlt : 2 ^ k < 2 ^ 64 := Nat.pow_lt_pow_right (by decide) (by omega)
        have hshift : ((1 : BitVec 64) <<< k).toNat = 2 ^ k := by
          rw [BitVec.toNat_shiftLeft, Nat.shiftLeft_eq]
          show 1 * 2 ^ k % 2 ^ 64 = 2 ^ k
          rw [Nat.one_mul, Nat.mod_eq_of_lt hlt]
        have hnat : ((1 : BitVec 64) <<< k - 1).toNat = 2 ^ k - 1 := by
          rw [BitVec.toNat_sub_of_le, hshift]
          · rfl
          · rw [BitVec.le_def, hshift]
            exact hpow
        rw [← BitVec.testBit_toNat, hnat, Nat.testBit_two_pow_sub_one]

/-- The word spells the predicate on the indices of word `k`. -/
def Spells (P : Nat → Bool) (k : Nat) (word : BitVec 64) : Prop :=
  ∀ b < 64, word.getLsbD b = P (k * 64 + b)

theorem Spells.eq_zero_iff {P : Nat → Bool} {k : Nat} {word : BitVec 64}
    (h : Spells P k word) : word = 0 ↔ ∀ b < 64, P (k * 64 + b) = false := by
  constructor
  · rintro rfl b hb
    rw [← h b hb]
    simp
  · intro hz
    apply BitVec.eq_of_getLsbD_eq
    intro b hb
    rw [h b hb, hz b hb]
    simp

theorem spells_bitmap {bitmap : Bitmap} {k : Nat} (hk : k < bitmapWordCount) :
    Spells (bitAt bitmap) k (bitmap ⟨k, hk⟩) :=
  fun _ hb => (bitAt_of_lt bitmap hk hb).symm

/-- What the downward loop hands back: no index at all, or a non-zero word
with nothing above it. -/
def FoundDown (P : Nat → Bool) : Option (Nat × BitVec 64) → Prop
  | none => ∀ i, P i = false
  | some (k, word) => word ≠ 0 ∧ Spells P k word ∧
      ∀ i, (k + 1) * 64 ≤ i → P i = false

theorem bidWordLoop_spec {bitmap : Bitmap} {P : Nat → Bool} :
    ∀ {k : Nat} (hk : k < bitmapWordCount) {word : BitVec 64},
      Spells P k word → (∀ i, (k + 1) * 64 ≤ i → P i = false) →
      (∀ i, i < k * 64 → P i = bitAt bitmap i) →
      FoundDown P (bidWordLoop bitmap k hk word) := by
  intro k
  induction k with
  | zero =>
      intro hk word hword habove hbelow
      rw [bidWordLoop]
      split
      · next hz =>
          intro i
          rcases Nat.lt_or_ge i 64 with hi | hi
          · have := hword.eq_zero_iff.mp hz i hi
            rwa [Nat.zero_mul, Nat.zero_add] at this
          · exact habove i (by omega)
      · next hz => exact ⟨hz, hword, habove⟩
  | succ k ih =>
      intro hk word hword habove hbelow
      rw [bidWordLoop]
      split
      · next hz =>
          refine ih (Nat.lt_of_succ_lt hk) ?_ ?_ ?_
          · intro b hb
            rw [hbelow _ (by omega)]
            exact spells_bitmap (Nat.lt_of_succ_lt hk) b hb
          · intro i hi
            rcases Nat.lt_or_ge i ((k + 1 + 1) * 64) with hlt | hge
            · have := hword.eq_zero_iff.mp hz (i - (k + 1) * 64) (by omega)
              rwa [show (k + 1) * 64 + (i - (k + 1) * 64) = i by omega] at this
            · exact habove i hge
          · exact fun i hi => hbelow i (by omega)
      · next hz => exact ⟨hz, hword, habove⟩

/-- What the upward loop hands back: no index at all, or a non-zero word with
nothing below it. -/
def FoundUp (P : Nat → Bool) : Option (Nat × BitVec 64) → Prop
  | none => ∀ i, P i = false
  | some (k, word) => word ≠ 0 ∧ Spells P k word ∧
      ∀ i, i < k * 64 → P i = false

theorem bitAt_of_ge {bitmap : Bitmap} {i : Nat}
    (h : bitmapWordCount * 64 ≤ i) : bitAt bitmap i = false := by
  have hcount : bitmapWordCount = 1563 := rfl
  rw [bitAt, dif_neg]
  omega

theorem askWordLoop_spec {bitmap : Bitmap} {P : Nat → Bool} :
    ∀ {left k : Nat} (hk : k + left < bitmapWordCount) {word : BitVec 64},
      k + left + 1 = bitmapWordCount →
      Spells P k word → (∀ i, i < k * 64 → P i = false) →
      (∀ i, (k + 1) * 64 ≤ i → P i = bitAt bitmap i) →
      FoundUp P (askWordLoop bitmap left k hk word) := by
  intro left
  induction left with
  | zero =>
      intro k hk word hend hword hbelow habove
      rw [askWordLoop]
      split
      · next hz =>
          intro i
          rcases Nat.lt_or_ge i (k * 64) with hi | hi
          · exact hbelow i hi
          · rcases Nat.lt_or_ge i ((k + 1) * 64) with hlt | hge
            · have := hword.eq_zero_iff.mp hz (i - k * 64) (by omega)
              rwa [show k * 64 + (i - k * 64) = i by omega] at this
            · have hlast : bitmapWordCount * 64 ≤ i := by
                rw [← hend]
                omega
              rw [habove i hge, bitAt_of_ge hlast]
      · next hz => exact ⟨hz, hword, hbelow⟩
  | succ left ih =>
      intro k hk word hend hword hbelow habove
      rw [askWordLoop]
      split
      · next hz =>
          refine ih (by omega) (by omega) ?_ ?_ ?_
          · intro b hb
            rw [habove _ (by omega)]
            exact spells_bitmap (by omega) b hb
          · intro i hi
            rcases Nat.lt_or_ge i (k * 64) with hlt | hge
            · exact hbelow i hlt
            · have := hword.eq_zero_iff.mp hz (i - k * 64) (by omega)
              rwa [show k * 64 + (i - k * 64) = i by omega] at this
          · intro i hi
            exact habove i
              (Nat.le_trans (Nat.mul_le_mul_right 64 (Nat.le_succ (k + 1))) hi)
      · next hz => exact ⟨hz, hword, hbelow⟩

/-! ## The search as a whole -/

/-- The index a loop result stands for, the bit within the word being picked
by `bit`. -/
def foundIndex (bit : BitVec 64 → Nat) : Option (Nat × BitVec 64) → Option Nat
  | none => none
  | some (k, word) => some (k * bitsPerBitmapWord + bit word)

theorem bidWordLoop_greatest (bitmap : Bitmap) {p : Nat}
    (hk : p / bitsPerBitmapWord < bitmapWordCount) :
    GreatestBelow (bitAt bitmap) p
      (foundIndex (fun word => bitsPerBitmapWord - 1 - word.clz.toNat)
        (bidWordLoop bitmap (p / bitsPerBitmapWord) hk
          (bitmap ⟨p / bitsPerBitmapWord, hk⟩ &&&
            lowerBitsMask (p % bitsPerBitmapWord)))) := by
  -- the set below the old best price
  let P : Nat → Bool := fun i => bitAt bitmap i && decide (i < p)
  have hP : ∀ i, i < p → P i = bitAt bitmap i := fun i hi => by
    show (_ && decide (i < p)) = _
    rw [decide_eq_true hi, Bool.and_true]
  have hword : Spells P (p / 64) (bitmap ⟨p / bitsPerBitmapWord, hk⟩ &&&
      lowerBitsMask (p % bitsPerBitmapWord)) := by
    intro c hc
    rw [BitVec.getLsbD_and, spells_bitmap hk c hc, lowerBitsMask_getLsbD _ hc]
    show (_ && decide (c < p % 64)) = (_ && decide (p / 64 * 64 + c < p))
    congr 1
    exact decide_eq_decide.mpr (by omega)
  have habove : ∀ i, (p / 64 + 1) * 64 ≤ i → P i = false := fun i hi => by
    show (_ && decide (i < p)) = false
    rw [decide_eq_false (by omega), Bool.and_false]
  have hbelow : ∀ i, i < p / 64 * 64 → P i = bitAt bitmap i :=
    fun i hi => hP i (by omega)
  have hfound := bidWordLoop_spec hk hword habove hbelow
  revert hfound
  cases bidWordLoop bitmap (p / bitsPerBitmapWord) hk _ with
  | none => exact fun hfound i hi => by rw [← hP i hi]; exact hfound i
  | some found =>
      obtain ⟨k, word⟩ := found
      rintro ⟨hne, hspell, hover⟩
      obtain ⟨htop, hhigh⟩ := highest_bit hne
      have hlt : 64 - 1 - word.clz.toNat < 64 := by omega
      rw [hspell _ hlt] at htop
      have htop' := Bool.and_eq_true_iff.mp htop
      refine ⟨of_decide_eq_true htop'.2, htop'.1, ?_⟩
      intro j hj hjp
      have hj' : k * 64 + (64 - 1 - word.clz.toNat) < j := hj
      rw [← hP j hjp]
      rcases Nat.lt_or_ge j ((k + 1) * 64) with hin | hout
      · have := hhigh (j - k * 64) (by omega)
        rw [hspell _ (by omega)] at this
        rwa [show k * 64 + (j - k * 64) = j by omega] at this
      · exact hover j hout

theorem askWordLoop_least (bitmap : Bitmap) {p left : Nat}
    (hk : p / bitsPerBitmapWord < bitmapWordCount)
    (hleft : p / bitsPerBitmapWord + left + 1 = bitmapWordCount)
    (hk' : p / bitsPerBitmapWord + left < bitmapWordCount) :
    LeastAbove (bitAt bitmap) p
      (foundIndex (fun word => word.ctz.toNat)
        (askWordLoop bitmap left (p / bitsPerBitmapWord) hk'
          (bitmap ⟨p / bitsPerBitmapWord, hk⟩ &&&
            ~~~lowerBitsMask (p % bitsPerBitmapWord + 1)))) := by
  -- the set above the old best price
  let P : Nat → Bool := fun i => bitAt bitmap i && decide (p < i)
  have hP : ∀ i, p < i → P i = bitAt bitmap i := fun i hi => by
    show (_ && decide (p < i)) = _
    rw [decide_eq_true hi, Bool.and_true]
  have hword : Spells P (p / 64) (bitmap ⟨p / bitsPerBitmapWord, hk⟩ &&&
      ~~~lowerBitsMask (p % bitsPerBitmapWord + 1)) := by
    intro c hc
    rw [BitVec.getLsbD_and, spells_bitmap hk c hc, BitVec.getLsbD_not,
      lowerBitsMask_getLsbD _ hc, decide_eq_true hc, Bool.true_and,
      ← decide_not]
    show (_ && decide (¬ c < p % 64 + 1)) = (_ && decide (p < p / 64 * 64 + c))
    congr 1
    exact decide_eq_decide.mpr (by omega)
  have hbelow : ∀ i, i < p / 64 * 64 → P i = false := fun i hi => by
    show (_ && decide (p < i)) = false
    rw [decide_eq_false (by omega), Bool.and_false]
  have habove : ∀ i, (p / 64 + 1) * 64 ≤ i → P i = bitAt bitmap i :=
    fun i hi => hP i (by omega)
  have hfound := askWordLoop_spec hk' hleft hword hbelow habove
  revert hfound
  cases askWordLoop bitmap left (p / bitsPerBitmapWord) hk' _ with
  | none => exact fun hfound i hi => by rw [← hP i hi]; exact hfound i
  | some found =>
      obtain ⟨k, word⟩ := found
      rintro ⟨hne, hspell, hunder⟩
      obtain ⟨hbot, hlow⟩ := lowest_bit hne
      have hlt : word.ctz.toNat < 64 := BitVec.lt_of_getLsbD hbot
      rw [hspell _ hlt] at hbot
      have hbot' := Bool.and_eq_true_iff.mp hbot
      refine ⟨of_decide_eq_true hbot'.2, hbot'.1, ?_⟩
      intro j hj hji
      have hji' : j < k * 64 + word.ctz.toNat := hji
      rw [← hP j hj]
      rcases Nat.lt_or_ge j (k * 64) with hout | hin
      · exact hunder j hout
      · have := hlow (j - k * 64) (by omega)
        rw [hspell _ (by omega)] at this
        rwa [show k * 64 + (j - k * 64) = j by omega] at this

/-! ## `refreshBestBid` and `refreshBestAsk` -/

namespace ArrayOrderBook

/-- The price a search result is stored as: 0 stands for "none". -/
def foundPrice : Option Nat → Price
  | none => 0
  | some i => Int64.ofNat i

/-- `refreshBestBid` replaces the best bid by the greatest set index strictly
below it. -/
theorem refreshBestBid_ok {b : ArrayOrderBook} (h : ValidPrice (b.best .buy)) :
    ∃ found,
      GreatestBelow (bitAt (b.bitmap .buy)) (priceToIndex (b.best .buy))
        found ∧
      b.refreshBestBid = .ok { b with
        best := Function.update b.best .buy (foundPrice found) } := by
  have hk := word_lt h.index_lt
  refine ⟨_, bidWordLoop_greatest (b.bitmap .buy) hk, ?_⟩
  simp only [refreshBestBid, if_neg h.ne_zero, dif_pos hk]
  cases bidWordLoop (b.bitmap .buy) _ hk _ <;> rfl

/-- `refreshBestAsk` replaces the best ask by the least set index strictly
above it. -/
theorem refreshBestAsk_ok {b : ArrayOrderBook} (h : ValidPrice (b.best .sell)) :
    ∃ found,
      LeastAbove (bitAt (b.bitmap .sell)) (priceToIndex (b.best .sell))
        found ∧
      b.refreshBestAsk = .ok { b with
        best := Function.update b.best .sell (foundPrice found) } := by
  have hk := word_lt h.index_lt
  have hleft : priceToIndex (b.best .sell) / bitsPerBitmapWord +
      (bitmapWordCount - 1 - priceToIndex (b.best .sell) / bitsPerBitmapWord) +
        1 = bitmapWordCount := by
    omega
  refine ⟨_, askWordLoop_least (b.bitmap .sell) hk hleft (by omega), ?_⟩
  simp only [refreshBestAsk, if_neg h.ne_zero, dif_pos hk]
  cases askWordLoop (b.bitmap .sell) _ _ _ _ <;> rfl

end ArrayOrderBook

end OpenHft
