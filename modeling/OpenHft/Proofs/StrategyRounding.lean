import OpenHft.Model.Double
import OpenHft.Proofs.DeskReference
import OpenHft.Proofs.StrategySymbols

/-!
# The strategy in floating point

The score is computed in `double`, from prices of up to five digits and quantities of 32
bits, through some ten operations that round. What it decides is nevertheless a comparison
of integers: `Market.pressure`. Integers, and their sums and products here, are exact. The
two quotients and what follows are within `40020 / 2 ^ 52` of the exact score, most of it
from the micro price, which is rounded at the size of a price and then compared with a mid
price close to it. The exact score, on the other hand, is either at a threshold or away from
it by at least `1 / (5 * 2 ^ 33)`, a fraction with the two quantities in its denominator, and
this is more.

At a threshold the quotients are fixed numbers, and the rounding of the processor says on
which side the score falls.
-/

namespace OpenHft

open Lib

namespace Rounded

variable {R : Rounding 53}

/-! ## What is exact -/

theorem round_int {n : ℤ} (h : |n| ≤ 2 ^ 53) : R.round n = n := R.exact n (representable_int h)

theorem round_nat {n : ℕ} (h : n ≤ 2 ^ 53) : R.round n = n := by
  have habs : |(n : ℤ)| ≤ 2 ^ 53 := by
    rw [Nat.abs_cast]
    exact_mod_cast h
  exact_mod_cast round_int habs

/-- An integer over a power of two. -/
theorem round_dyadic {x : ℚ} (n : ℤ) (k : ℕ) (hx : x = n / 2 ^ k) (h : |n| ≤ 2 ^ 53) :
    R.round x = x :=
  R.exact _ ⟨n, -k, h, by rw [hx, zpow_neg, zpow_natCast, div_eq_mul_inv]⟩

/-! ## The score -/

/-- One more rounding, of a number of at most `b`. -/
theorem near {x y e b : ℚ} (h : |x - y| ≤ e / 2 ^ 52) (hb : |x| ≤ b) :
    |R.round x - y| ≤ (e + b) / 2 ^ 52 := by
  have hround := R.near h hb
  have hunit : (2 : ℚ) ^ (1 - (53 : ℕ) : ℤ) = 1 / 2 ^ 52 := by norm_num
  rw [hunit] at hround
  linarith

/-- The signal of the imbalance, of the share of the bid. -/
def imbalanceSignal (R : Rounding 53) (share : ℚ) : ℚ :=
  R.round (R.round (R.round share - 1 / 2) * 2)

/-- The signal of the micro price, of the two prices and quantities. -/
def microPriceSignal (R : Rounding 53) (bid ask bidQuantity askQuantity : ℚ) : ℚ :=
  R.round (R.round (R.round ((ask * bidQuantity + bid * askQuantity) /
    (bidQuantity + askQuantity)) - (bid + ask) / 2) / (ask - bid))

/-- The two signals under the weights of the trading runtime; that of the spread is zero. -/
def weighted (R : Rounding 53) (imbalanceSignal microPriceSignal : ℚ) : ℚ :=
  R.round (R.round (R.round (R.round (3 / 5) * imbalanceSignal) +
    R.round (R.round (2 / 5) * microPriceSignal)))

theorem abs_round_le_one {x : ℚ} (h : |x| ≤ 1) : |R.round x| ≤ 1 := by
  have hone : Representable 53 ((1 : ℤ) : ℚ) := representable_int (by norm_num)
  exact R.abs_le_of_abs_le (by simpa using hone) h

theorem imbalanceSignal_near {share : ℚ} (h0 : 0 ≤ share) (h1 : share ≤ 1) :
    |imbalanceSignal R share - (2 * share - 1)| ≤ 4 / 2 ^ 52 ∧ |imbalanceSignal R share| ≤ 1 := by
  unfold imbalanceSignal
  have habs : |share| ≤ 1 := abs_le.mpr ⟨by linarith, h1⟩
  have hshare : |R.round share - share| ≤ (0 + 1) / 2 ^ 52 :=
    near (by rw [sub_self, abs_zero]; norm_num) habs
  have hpos := R.nonneg h0
  have hone := abs_le.mp (abs_round_le_one (R := R) habs)
  generalize R.round share = a at hshare hpos hone
  have hcentred : |a - 1 / 2| ≤ 1 / 2 := abs_le.mpr ⟨by linarith, by linarith [hone.2]⟩
  have hd : |R.round (a - 1 / 2) - (share - 1 / 2)| ≤ (1 + 1 / 2) / 2 ^ 52 := by
    refine near ?_ hcentred
    have heq : a - 1 / 2 - (share - 1 / 2) = a - share := by ring
    rw [heq]
    linarith
  have hdabs : |R.round (a - 1 / 2)| ≤ 1 / 2 :=
    R.abs_le_of_abs_le ⟨1, -1, by norm_num, by norm_num⟩ hcentred
  generalize R.round (a - 1 / 2) = d at hd hdabs
  have hdouble : |d * 2| ≤ 1 := by
    rw [abs_mul]
    norm_num
    linarith
  refine ⟨?_, abs_round_le_one hdouble⟩
  have herr : |d * 2 - (2 * share - 1)| ≤ 3 / 2 ^ 52 := by
    have heq : d * 2 - (2 * share - 1) = (d - (share - 1 / 2)) * 2 := by ring
    rw [heq, abs_mul]
    norm_num at hd ⊢
    linarith
  have hnear := near (R := R) herr hdouble
  norm_num at hnear ⊢
  linarith

/-- The micro price lies between bid and ask, where the share of the bid puts it. -/
theorem microPrice_eq {bid ask b a : ℚ} (h : 0 < b + a) :
    (ask * b + bid * a) / (b + a) = bid + (ask - bid) * (b / (b + a)) := by
  field_simp
  ring

theorem microPriceSignal_near {bid ask b a : ℚ} (hb : 0 ≤ b) (ha : 0 ≤ a) (h : 0 < b + a)
    (hbid : 0 ≤ bid) (hspread : 1 ≤ ask - bid) (hask : ask ≤ 99999) :
    |microPriceSignal R bid ask b a - (b / (b + a) - 1 / 2)| ≤ 100001 / 2 ^ 52 ∧
      |microPriceSignal R bid ask b a| ≤ 1 := by
  unfold microPriceSignal
  rw [microPrice_eq h]
  have h0 : 0 ≤ b / (b + a) := div_nonneg hb h.le
  have h1 : b / (b + a) ≤ 1 := (div_le_one h).mpr (by linarith)
  generalize b / (b + a) = share at h0 h1
  generalize hs : ask - bid = spread at hspread
  have hmul0 : 0 ≤ spread * share := mul_nonneg (by linarith) h0
  have hmul1 : spread * share ≤ spread := mul_le_of_le_one_right (by linarith) h1
  -- the micro price is off by the size of a price
  have hmicro : |R.round (bid + spread * share) - (bid + spread * share)| ≤
      (0 + 99999) / 2 ^ 52 :=
    near (by rw [sub_self, abs_zero]; norm_num) (abs_le.mpr ⟨by linarith, by linarith⟩)
  generalize R.round (bid + spread * share) = micro at hmicro
  have hhalf : |spread * (share - 1 / 2)| ≤ spread / 2 := by
    rw [abs_le]
    constructor <;> linarith
  have hdist : |micro - (bid + ask) / 2 - spread * (share - 1 / 2)| ≤ 99999 / 2 ^ 52 := by
    have heq : micro - (bid + ask) / 2 - spread * (share - 1 / 2) =
        micro - (bid + spread * share) := by
      rw [← hs]
      ring
    rw [heq]
    norm_num at hmicro ⊢
    exact hmicro
  have hsize : |micro - (bid + ask) / 2| ≤ spread := by
    have htri := abs_sub_abs_le_abs_sub (micro - (bid + ask) / 2) (spread * (share - 1 / 2))
    norm_num at hdist
    linarith
  have hdiff := near (R := R) hdist hsize
  generalize R.round (micro - (bid + ask) / 2) = diff at hdiff
  have hpos : 0 < spread := by linarith
  -- and the division by the spread does not enlarge the error
  have hquot : |diff / spread - (share - 1 / 2)| ≤ 100000 / 2 ^ 52 := by
    have heq : diff / spread - (share - 1 / 2) = (diff - spread * (share - 1 / 2)) / spread := by
      field_simp
    rw [heq, abs_div, abs_of_pos hpos, div_le_iff₀ hpos]
    norm_num at hdiff ⊢
    linarith
  have hquotSize : |diff / spread| ≤ 1 := by
    have htri := abs_sub_abs_le_abs_sub (diff / spread) (share - 1 / 2)
    have hshare : |share - 1 / 2| ≤ 1 / 2 := abs_le.mpr ⟨by linarith, by linarith⟩
    norm_num at hquot
    linarith
  refine ⟨?_, abs_round_le_one hquotSize⟩
  have hnear := near (R := R) hquot hquotSize
  norm_num at hnear ⊢
  linarith

theorem round_near {x b : ℚ} (h : |x| ≤ b) : |R.round x - x| ≤ b / 2 ^ 52 := by
  have hnear : |R.round x - x| ≤ (0 + b) / 2 ^ 52 :=
    near (by rw [sub_self, abs_zero]; norm_num) h
  rwa [zero_add] at hnear

/-- A signal under a weight, both of size at most 1. -/
theorem product_near {w v z e : ℚ} (hw0 : 0 ≤ w) (hw1 : w ≤ 1) (hv : |v| ≤ 1)
    (he : |v - z| ≤ e / 2 ^ 52) :
    |R.round (R.round w * v) - w * z| ≤ (2 + w * e) / 2 ^ 52 ∧
      |R.round (R.round w * v)| ≤ 1 := by
  have hw : |w| ≤ 1 := abs_le.mpr ⟨by linarith, hw1⟩
  have hsize : |R.round w * v| ≤ 1 := by
    rw [abs_mul]
    exact mul_le_one₀ (abs_round_le_one hw) (abs_nonneg _) hv
  refine ⟨?_, abs_round_le_one hsize⟩
  have hmul := abs_mul_sub_mul_le (R.round w) v w z
  rw [abs_of_nonneg hw0] at hmul
  have hfirst : |R.round w - w| * |v| ≤ 1 / 2 ^ 52 := by
    have hle := mul_le_mul (round_near (R := R) hw) hv (abs_nonneg v) (by norm_num)
    rwa [mul_one] at hle
  have hsecond : w * |v - z| ≤ w * (e / 2 ^ 52) := mul_le_mul_of_nonneg_left he hw0
  have herr : |R.round w * v - w * z| ≤ (1 + w * e) / 2 ^ 52 := by
    rw [add_div, mul_div_assoc]
    linarith
  have hnear := near (R := R) herr hsize
  linarith

theorem weighted_near {s t x y : ℚ} (hs : |s - x| ≤ 4 / 2 ^ 52) (hs1 : |s| ≤ 1)
    (ht : |t - y| ≤ 100001 / 2 ^ 52) (ht1 : |t| ≤ 1) :
    |weighted R s t - (3 / 5 * x + 2 / 5 * y)| ≤ 40020 / 2 ^ 52 := by
  unfold weighted
  obtain ⟨hfirst, hfirst1⟩ := product_near (R := R) (w := 3 / 5) (by norm_num) (by norm_num) hs1 hs
  obtain ⟨hsecond, hsecond1⟩ :=
    product_near (R := R) (w := 2 / 5) (by norm_num) (by norm_num) ht1 ht
  generalize R.round (R.round (3 / 5) * s) = f at hfirst hfirst1
  generalize R.round (R.round (2 / 5) * t) = g at hsecond hsecond1
  have hsize : |f + g| ≤ 2 := by linarith [abs_add_le f g]
  have hsum : |f + g - (3 / 5 * x + 2 / 5 * y)| ≤ 40007 / 2 ^ 52 := by
    have heq : f + g - (3 / 5 * x + 2 / 5 * y) = (f - 3 / 5 * x) + (g - 2 / 5 * y) := by ring
    rw [heq]
    have htri := abs_add_le (f - 3 / 5 * x) (g - 2 / 5 * y)
    norm_num at hfirst hsecond ⊢
    linarith
  have htwo : Representable 53 (2 : ℚ) := ⟨2, 0, by norm_num, by norm_num⟩
  have hround := near (R := R) hsum hsize
  have hround1 := R.abs_le_of_abs_le htwo hsize
  have hagain := near (R := R) hround hround1
  norm_num at hagain ⊢
  linarith

/-! ## Against the thresholds -/

section Thresholds

variable {bid ask : ℤ} {b a : ℕ}

/-- The score, on integers. -/
def runtimeScore (R : Rounding 53) (bid ask : ℤ) (b a : ℕ) : ℚ :=
  weighted R (imbalanceSignal R (b / (b + a)))
    (if bid < ask then microPriceSignal R bid ask b a else 0)

/-- The signals are proportional: with a spread, the second is half the first. -/
def exactScore (bid ask : ℤ) (b a : ℕ) : ℚ :=
  (if bid < ask then 4 / 5 else 3 / 5) * ((b - a) / (b + a))

theorem runtimeScore_near (h : 0 < b + a) (hbid : 0 ≤ bid) (hask : ask ≤ 99999) :
    |runtimeScore R bid ask b a - exactScore bid ask b a| ≤ 40020 / 2 ^ 52 := by
  have hb : (0 : ℚ) ≤ b := Nat.cast_nonneg b
  have ha : (0 : ℚ) ≤ a := Nat.cast_nonneg a
  have hsum : (0 : ℚ) < b + a := by exact_mod_cast h
  have hshare1 : (b : ℚ) / (b + a) ≤ 1 := (div_le_one hsum).mpr (by linarith)
  obtain ⟨hs, hs1⟩ := imbalanceSignal_near (R := R) (div_nonneg hb hsum.le) hshare1
  have hsplit : (b - a : ℚ) / (b + a) = 2 * (b / (b + a)) - 1 := by
    field_simp
    ring
  unfold runtimeScore exactScore
  rw [hsplit]
  split_ifs with hspread
  · have hspreadQ : (1 : ℚ) ≤ ask - bid := by
      have : (1 : ℤ) ≤ ask - bid := by omega
      exact_mod_cast this
    obtain ⟨ht, ht1⟩ := microPriceSignal_near (R := R) hb ha hsum (by exact_mod_cast hbid)
      hspreadQ (by exact_mod_cast hask)
    have hnear := weighted_near (R := R) hs hs1 ht ht1
    refine le_of_eq_of_le ?_ hnear
    congr 1
    ring
  · have hzero : |(0 : ℚ) - 0| ≤ 100001 / 2 ^ 52 := by norm_num
    have hnear := weighted_near (R := R) hs hs1 hzero (by norm_num)
    rw [mul_zero, add_zero] at hnear
    exact hnear

/-- How far the quantities are beyond the threshold of `t` fifths. -/
def excess (bid ask : ℤ) (b a : ℕ) (t : ℤ) : ℤ :=
  (if bid < ask then 4 else 3) * (b - a) - t * (b + a)

theorem exactScore_sub (bid ask : ℤ) (h : 0 < b + a) (t : ℤ) :
    exactScore bid ask b a - t / 5 = excess bid ask b a t / (5 * (b + a)) := by
  have hsum : (b + a : ℚ) ≠ 0 := by exact_mod_cast h.ne'
  unfold exactScore excess
  split_ifs
  · push_cast
    field_simp
  · push_cast
    field_simp

/-- Off the threshold the rounded score is on the side of the exact one. -/
theorem runtimeScore_compare (h : 0 < b + a) (hsize : b + a < 2 ^ 33) (hbid : 0 ≤ bid)
    (hask : ask ≤ 99999) {t : ℤ} {threshold : ℚ} (ht : |threshold - t / 5| ≤ 1 / 2 ^ 52) :
    (0 < excess bid ask b a t → threshold < runtimeScore R bid ask b a) ∧
      (excess bid ask b a t < 0 → runtimeScore R bid ask b a < threshold) := by
  have hsub := exactScore_sub bid ask h t
  have hnear := abs_le.mp (runtimeScore_near (R := R) h hbid hask)
  have ht' := abs_le.mp ht
  have hsumQ : (0 : ℚ) < 5 * (b + a) := by
    have : (0 : ℚ) < b + a := by exact_mod_cast h
    linarith
  have hsizeQ : (b + a : ℚ) ≤ 2 ^ 33 := by exact_mod_cast hsize.le
  have hgap : 1 / (5 * 2 ^ 33 : ℚ) ≤ 1 / (5 * (b + a)) :=
    one_div_le_one_div_of_le hsumQ (by linarith)
  generalize excess bid ask b a t = n at hsub
  constructor
  · intro hn
    have hnQ : (1 : ℚ) ≤ n := by exact_mod_cast hn
    have hdiv : 1 / (5 * (b + a : ℚ)) ≤ n / (5 * (b + a)) :=
      div_le_div_of_nonneg_right hnQ hsumQ.le
    linarith
  · intro hn
    have hnQ : (n : ℚ) ≤ -1 := by exact_mod_cast Int.le_sub_one_of_lt hn
    have hdiv : (n : ℚ) / (5 * (b + a)) ≤ -1 / (5 * (b + a)) :=
      div_le_div_of_nonneg_right hnQ hsumQ.le
    rw [neg_div] at hdiv
    linarith

end Thresholds

/-! ## At the thresholds -/

section Ties

theorem toNearest_eq {x : ℚ} (n e : ℤ) (hlow : (2 : ℚ) ^ e ≤ |x|) (hhigh : |x| < 2 ^ (e + 1))
    (hn : |x / 2 ^ (e - 52) - n| < 1 / 2 ∨ |x / 2 ^ (e - 52) - n| = 1 / 2 ∧ n % 2 = 0) :
    toNearest.round x = n * 2 ^ (e - 52) := by
  have hexp : e + 1 - ((53 : ℕ) : ℤ) = e - 52 := by omega
  have h := NearestEven.round_eq (p := 53) hlow hhigh (by rw [hexp]; exact hn)
  rw [hexp] at h
  exact h

theorem toNearest_neg (x : ℚ) : toNearest.round (-x) = -toNearest.round x :=
  NearestEven.round_neg 53 x

theorem toNearest_fifth : toNearest.round (1 / 5) = 7205759403792794 / 2 ^ 55 := by
  rw [toNearest_eq 7205759403792794 (-3) (by norm_num) (by norm_num) (.inl (by norm_num))]
  norm_num

theorem toNearest_two_fifths : toNearest.round (2 / 5) = 7205759403792794 / 2 ^ 54 := by
  rw [toNearest_eq 7205759403792794 (-2) (by norm_num) (by norm_num) (.inl (by norm_num))]
  norm_num

theorem toNearest_three_fifths : toNearest.round (3 / 5) = 5404319552844595 / 2 ^ 53 := by
  rw [toNearest_eq 5404319552844595 (-1) (by norm_num) (by norm_num) (.inl (by norm_num))]
  norm_num

theorem toNearest_third : toNearest.round (1 / 3) = 6004799503160661 / 2 ^ 54 := by
  rw [toNearest_eq 6004799503160661 (-2) (by norm_num) (by norm_num) (.inl (by norm_num))]
  norm_num

theorem toNearest_two_thirds : toNearest.round (2 / 3) = 6004799503160661 / 2 ^ 53 := by
  rw [toNearest_eq 6004799503160661 (-1) (by norm_num) (by norm_num) (.inl (by norm_num))]
  norm_num

/-- A share in eighths is exact all the way. -/
theorem imbalanceSignal_eighths {n : ℤ} (h : |n| ≤ 8) :
    imbalanceSignal R (n / 8) = (n - 4) / 4 := by
  have hn := abs_le.mp h
  unfold imbalanceSignal
  rw [round_dyadic (x := n / 8) n 3 (by norm_num) (abs_le.mpr ⟨by omega, by omega⟩)]
  rw [round_dyadic (x := n / 8 - 1 / 2) (n - 4) 3 (by push_cast; ring)
    (abs_le.mpr ⟨by omega, by omega⟩)]
  rw [round_dyadic (n - 4) 2 (by push_cast; ring) (abs_le.mpr ⟨by omega, by omega⟩)]
  ring

theorem microPriceSignal_eighths {n bid ask : ℤ} {b a : ℚ} (hn0 : 0 ≤ n) (hn : n ≤ 8)
    (h : 0 < b + a) (hshare : b / (b + a) = n / 8) (hbid : 0 ≤ bid) (hspread : bid < ask)
    (hask : ask ≤ 99999) : microPriceSignal R bid ask b a = (n - 4) / 8 := by
  have hspreadQ : (ask - bid : ℚ) ≠ 0 := by
    have hlt : (bid : ℚ) < ask := by exact_mod_cast hspread
    linarith
  have hpos : 0 ≤ (ask - bid) * n := mul_nonneg (by omega) hn0
  have hle : (ask - bid) * n ≤ (ask - bid) * 8 := mul_le_mul_of_nonneg_left hn (by omega)
  unfold microPriceSignal
  rw [microPrice_eq h, hshare]
  rw [round_dyadic (x := bid + (ask - bid) * (n / 8)) (8 * bid + (ask - bid) * n) 3
    (by push_cast; ring) (abs_le.mpr ⟨by omega, by omega⟩)]
  have hdiff : (bid + (ask - bid) * (n / 8) - (bid + ask) / 2 : ℚ) =
      (ask - bid) * ((n - 4) / 8) := by ring
  rw [hdiff, round_dyadic (x := (ask - bid) * ((n - 4) / 8)) ((ask - bid) * n - (ask - bid) * 4) 3
    (by push_cast; ring) (abs_le.mpr ⟨by omega, by omega⟩), mul_div_cancel_left₀ _ hspreadQ]
  exact round_dyadic (n - 4) 3 (by push_cast; ring) (abs_le.mpr ⟨by omega, by omega⟩)

theorem weighted_neg (s t : ℚ) : weighted toNearest (-s) (-t) = -weighted toNearest s t := by
  unfold weighted
  rw [mul_neg, mul_neg, toNearest_neg, toNearest_neg, ← neg_add, toNearest_neg, toNearest_neg]

/-- With a spread the score at the threshold is the threshold: the sum lies in the middle of
two neighbours, and the even one is above. -/
theorem weighted_tie : weighted toNearest (1 / 4) (1 / 8) = toNearest.round (1 / 5) := by
  unfold weighted
  rw [toNearest_two_fifths, toNearest_three_fifths, toNearest_fifth]
  rw [round_dyadic (x := 5404319552844595 / 2 ^ 53 * (1 / 4)) 5404319552844595 55
    (by norm_num) (by norm_num)]
  rw [round_dyadic (x := 7205759403792794 / 2 ^ 54 * (1 / 8)) 7205759403792794 57
    (by norm_num) (by norm_num)]
  have hsum : toNearest.round (5404319552844595 / 2 ^ 53 * (1 / 4) +
      7205759403792794 / 2 ^ 54 * (1 / 8)) = 7205759403792794 / 2 ^ 55 := by
    rw [toNearest_eq 7205759403792794 (-3) (by norm_num) (by norm_num) (.inr (by norm_num))]
    norm_num
  rw [hsum]
  exact round_dyadic 7205759403792794 55 (by norm_num) (by norm_num)

/-- Without a spread, a bid of twice the offer falls short of the threshold. -/
theorem weighted_two_thirds :
    weighted toNearest (imbalanceSignal toNearest (2 / 3)) 0 < toNearest.round (1 / 5) := by
  unfold weighted imbalanceSignal
  rw [toNearest_two_thirds, toNearest_three_fifths, toNearest_fifth, mul_zero,
    toNearest.round_zero, add_zero]
  rw [round_dyadic (x := 6004799503160661 / 2 ^ 53 - 1 / 2) 1501199875790165 53
    (by norm_num) (by norm_num)]
  rw [round_dyadic (x := (6004799503160661 / 2 ^ 53 - 1 / 2) * 2) 1501199875790165 52
    (by norm_num) (by norm_num)]
  have hproduct : toNearest.round (5404319552844595 / 2 ^ 53 *
      ((6004799503160661 / 2 ^ 53 - 1 / 2) * 2)) = 7205759403792792 / 2 ^ 55 := by
    rw [toNearest_eq 7205759403792792 (-3) (by norm_num) (by norm_num) (.inl (by norm_num))]
    norm_num
  have hexact : toNearest.round (7205759403792792 / 2 ^ 55) = 7205759403792792 / 2 ^ 55 :=
    round_dyadic 7205759403792792 55 (by norm_num) (by norm_num)
  rw [hproduct, hexact, hexact]
  norm_num

/-- An offer of twice the bid does not. -/
theorem weighted_third :
    weighted toNearest (imbalanceSignal toNearest (1 / 3)) 0 = -toNearest.round (1 / 5) := by
  unfold weighted imbalanceSignal
  rw [toNearest_third, toNearest_three_fifths, toNearest_fifth, mul_zero,
    toNearest.round_zero, add_zero]
  rw [round_dyadic (x := 6004799503160661 / 2 ^ 54 - 1 / 2) (-3002399751580331) 54
    (by norm_num) (by norm_num)]
  rw [round_dyadic (x := (6004799503160661 / 2 ^ 54 - 1 / 2) * 2) (-3002399751580331) 53
    (by norm_num) (by norm_num)]
  have hproduct : toNearest.round (5404319552844595 / 2 ^ 53 *
      ((6004799503160661 / 2 ^ 54 - 1 / 2) * 2)) = -(7205759403792794 / 2 ^ 55) := by
    rw [toNearest_eq (-7205759403792794) (-3) (by norm_num) (by norm_num) (.inl (by norm_num))]
    norm_num
  have hexact : toNearest.round (-(7205759403792794 / 2 ^ 55)) = -(7205759403792794 / 2 ^ 55) :=
    round_dyadic (-7205759403792794) 55 (by norm_num) (by norm_num)
  rw [hproduct, hexact, hexact]

variable {bid ask : ℤ} {b a : ℕ}

/-- Where the quantities are at a threshold, the share of the bid is a fixed number. -/
theorem share_of_tie (h : 0 < b + a) {n d : ℕ} (hd : 0 < d) (heq : d * b = n * (b + a)) :
    (b : ℚ) / (b + a) = n / d := by
  have hsum : (b + a : ℚ) ≠ 0 := by exact_mod_cast h.ne'
  have hdQ : (d : ℚ) ≠ 0 := by exact_mod_cast hd.ne'
  have heqQ : (d * b : ℚ) = n * (b + a) := by exact_mod_cast heq
  rw [div_eq_div_iff hsum hdQ]
  linarith

theorem runtimeScore_spread_tie (h : 0 < b + a) (hbid : 0 ≤ bid) (hspread : bid < ask)
    (hask : ask ≤ 99999) {n : ℕ} (hn : n ≤ 8) (heq : 8 * b = n * (b + a)) :
    runtimeScore toNearest bid ask b a = weighted toNearest ((n - 4) / 4) ((n - 4) / 8) := by
  have hsum : (0 : ℚ) < b + a := by exact_mod_cast h
  have hshare : (b : ℚ) / (b + a) = ((n : ℤ) : ℚ) / 8 := by
    rw [share_of_tie h (by omega) heq]
    push_cast
    rfl
  have hmicro := microPriceSignal_eighths (R := toNearest) (Int.natCast_nonneg n)
    (by exact_mod_cast hn) hsum hshare hbid hspread hask
  have himbalance := imbalanceSignal_eighths (R := toNearest) (n := n) (by
    rw [Nat.abs_cast]
    exact_mod_cast hn)
  unfold runtimeScore
  rw [if_pos hspread, hmicro, hshare, himbalance]
  norm_cast

/-- The score reaches the threshold for buying. -/
theorem buys_iff (h : 0 < b + a) (hsize : b + a < 2 ^ 33) (hbid : 0 ≤ bid) (hask : ask ≤ 99999) :
    toNearest.round (1 / 5) ≤ runtimeScore toNearest bid ask b a ↔
      if bid < ask then 5 * a ≤ 3 * b else 2 * a < b := by
  have hthreshold : |toNearest.round (1 / 5) - ((1 : ℤ) : ℚ) / 5| ≤ 1 / 2 ^ 52 := by
    rw [Int.cast_one]
    exact round_near (by norm_num)
  obtain ⟨habove, hbelow⟩ := runtimeScore_compare (R := toNearest) h hsize hbid hask hthreshold
  rw [excess] at habove hbelow
  by_cases hspread : bid < ask
  · rw [if_pos hspread] at habove hbelow ⊢
    rcases Nat.lt_trichotomy (5 * a) (3 * b) with hlt | heq | hgt
    · exact iff_of_true (habove (by omega)).le hlt.le
    · have hscore := runtimeScore_spread_tie h hbid hspread hask (n := 5) (by omega) (by omega)
      norm_num at hscore
      rw [hscore, weighted_tie]
      exact iff_of_true le_rfl heq.le
    · exact iff_of_false (hbelow (by omega)).not_ge hgt.not_ge
  · rw [if_neg hspread] at habove hbelow ⊢
    rcases Nat.lt_trichotomy (2 * a) b with hlt | heq | hgt
    · exact iff_of_true (habove (by omega)).le hlt
    · have hshare := share_of_tie h (n := 2) (d := 3) (by omega) (by omega)
      have hscore : runtimeScore toNearest bid ask b a < toNearest.round (1 / 5) := by
        rw [runtimeScore, if_neg hspread, hshare]
        exact weighted_two_thirds
      exact iff_of_false hscore.not_ge heq.not_lt
    · exact iff_of_false (hbelow (by omega)).not_ge (by omega)

theorem sells_iff (h : 0 < b + a) (hsize : b + a < 2 ^ 33) (hbid : 0 ≤ bid)
    (hask : ask ≤ 99999) :
    runtimeScore toNearest bid ask b a ≤ -toNearest.round (1 / 5) ↔
      if bid < ask then 5 * b ≤ 3 * a else 2 * b ≤ a := by
  have hthreshold : |-toNearest.round (1 / 5) - ((-1 : ℤ) : ℚ) / 5| ≤ 1 / 2 ^ 52 := by
    rw [← toNearest_neg]
    push_cast
    rw [neg_div]
    exact round_near (by norm_num)
  obtain ⟨habove, hbelow⟩ := runtimeScore_compare (R := toNearest) h hsize hbid hask hthreshold
  rw [excess] at habove hbelow
  by_cases hspread : bid < ask
  · rw [if_pos hspread] at habove hbelow ⊢
    rcases Nat.lt_trichotomy (5 * b) (3 * a) with hlt | heq | hgt
    · exact iff_of_true (hbelow (by omega)).le hlt.le
    · have hscore := runtimeScore_spread_tie h hbid hspread hask (n := 3) (by omega) (by omega)
      norm_num at hscore
      rw [hscore, weighted_neg, weighted_tie]
      exact iff_of_true le_rfl heq.le
    · exact iff_of_false (habove (by omega)).not_ge hgt.not_ge
  · rw [if_neg hspread] at habove hbelow ⊢
    rcases Nat.lt_trichotomy (2 * b) a with hlt | heq | hgt
    · exact iff_of_true (hbelow (by omega)).le hlt.le
    · have hshare := share_of_tie h (n := 1) (d := 3) (by omega) (by omega)
      rw [Nat.cast_one] at hshare
      have hscore : runtimeScore toNearest bid ask b a = -toNearest.round (1 / 5) := by
        rw [runtimeScore, if_neg hspread, hshare]
        exact weighted_third
      exact iff_of_true hscore.le heq.le
    · exact iff_of_false (habove (by omega)).not_ge hgt.not_ge

end Ties

/-! ## The strategy -/

section Values

@[simp] theorem add_val (x y : Rounded R) : (x + y).val = R.round (x.val + y.val) := rfl

@[simp] theorem sub_val (x y : Rounded R) : (x - y).val = R.round (x.val - y.val) := rfl

@[simp] theorem mul_val (x y : Rounded R) : (x * y).val = R.round (x.val * y.val) := rfl

@[simp] theorem div_val (x y : Rounded R) : (x / y).val = R.round (x.val / y.val) := rfl

@[simp] theorem neg_val (x : Rounded R) : (-x).val = -x.val := rfl

theorem le_iff (x y : Rounded R) : x ≤ y ↔ x.val ≤ y.val := Iff.rfl

theorem literal_val (m : ℕ) (s : Bool) (e : ℕ) {x : ℚ}
    (hx : OfScientific.ofScientific m s e = x) :
    (OfScientific.ofScientific m s e : Rounded R).val = R.round x := by
  rw [← hx]
  rfl

@[simp] theorem zero_val : (0.0 : Rounded R).val = 0 := by
  rw [literal_val 0 true 1 (x := 0) (by norm_num), R.round_zero]

@[simp] theorem half_val : (0.5 : Rounded R).val = 1 / 2 := by
  rw [literal_val 5 true 1 (x := 1 / 2) (by norm_num)]
  exact round_dyadic 1 1 (by norm_num) (by norm_num)

@[simp] theorem two_val : (2.0 : Rounded R).val = 2 := by
  rw [literal_val 20 true 1 (x := 2) (by norm_num)]
  exact round_dyadic 2 0 (by norm_num) (by norm_num)

end Values

open MarketDataStrategyConsumer in
theorem signalModel_val {features : MarketFeatures (Rounded R)} {bid ask : ℤ} {b a : ℕ}
    (hspread : features.spread.val = ask - bid)
    (hmid : features.midPrice.val = (bid + ask) / 2)
    (himbalance : features.imbalance.val = R.round (b / (b + a)))
    (hmicro : features.microPrice.val = R.round ((ask * b + bid * a) / (b + a))) :
    ((runtimeStrategy (Rounded R)).signalModel features).val = runtimeScore R bid ask b a := by
  have h6 : (0.6 : Rounded R).val = R.round (3 / 5) := literal_val 6 true 1 (by norm_num)
  have h4 : (0.4 : Rounded R).val = R.round (2 / 5) := literal_val 4 true 1 (by norm_num)
  have hpositive : (features.spread > 0.0) ↔ bid < ask := by
    have hval : (features.spread > 0.0) ↔ (0.0 : Rounded R).val < features.spread.val := Iff.rfl
    rw [hval, hspread, zero_val, sub_pos]
    exact_mod_cast Iff.rfl
  unfold runtimeStrategy LinearSignalModel.predict runtimeScore weighted imbalanceSignal
    microPriceSignal
  simp only [hpositive]
  split_ifs with h
  · simp only [add_val, sub_val, mul_val, div_val, zero_val, half_val, two_val, h6, h4, hspread,
      hmid, himbalance, hmicro, zero_mul, R.round_zero, add_zero]
  · simp only [add_val, sub_val, mul_val, zero_val, half_val, two_val, h6, h4, hspread,
      himbalance, zero_mul, mul_zero, R.round_zero, add_zero]

section Features

open DoubleArith

variable {m : Market} {bid ask : Price}

theorem ofPrice_val {price : Price} (h : ValidPrice price) :
    (ofPrice price : Rounded R).val = price.toInt := by
  have hrange := h.toInt_range
  exact round_int (abs_le.mpr ⟨by omega, by omega⟩)

theorem ofQuantity_val (quantity : Quantity) :
    (ofQuantity quantity : Rounded R).val = quantity.toNat :=
  round_nat (by have := quantity.toNat_lt; omega)

/-- A price times a quantity has 49 bits. -/
theorem notional_range {price : Price} (h : ValidPrice price) (quantity : Quantity) :
    0 ≤ price.toInt * quantity.toNat ∧ price.toInt * quantity.toNat ≤ 99999 * 2 ^ 32 := by
  have hrange := h.toInt_range
  have hlt := quantity.toNat_lt
  exact ⟨mul_nonneg (by omega) (by omega), mul_le_mul hrange.2 (by omega) (by omega) (by omega)⟩

theorem product_val {price : Price} (h : ValidPrice price) (quantity : Quantity) :
    ((ofPrice price : Rounded R) * ofQuantity quantity).val =
      ((price.toInt * quantity.toNat : ℤ) : ℚ) := by
  obtain ⟨hpos, hle⟩ := notional_range h quantity
  have hround := round_int (R := R) (n := price.toInt * quantity.toNat)
    (abs_le.mpr ⟨by omega, by omega⟩)
  rw [mul_val, ofPrice_val h, ofQuantity_val]
  push_cast at hround ⊢
  exact hround

theorem totalQuantity_val (b a : Quantity) :
    ((ofQuantity b : Rounded R) + ofQuantity a).val = b.toNat + a.toNat := by
  have hb := b.toNat_lt
  have ha := a.toNat_lt
  have hround := round_nat (R := R) (n := b.toNat + a.toNat) (by omega)
  rw [add_val, ofQuantity_val, ofQuantity_val]
  push_cast at hround
  exact hround

theorem totalQuantity_eq_zero (b a : Quantity) :
    ((ofQuantity b : Rounded R) + ofQuantity a == 0.0) = true ↔ b.toNat + a.toNat = 0 := by
  have hbeq : ((ofQuantity b : Rounded R) + ofQuantity a == 0.0) =
      (((ofQuantity b : Rounded R) + ofQuantity a).val == (0.0 : Rounded R).val) := rfl
  rw [hbeq, totalQuantity_val, zero_val, beq_iff_eq]
  exact_mod_cast Iff.rfl

open MarketDataStrategyConsumer in
/-- The features of a market with something at its best prices, and their score. -/
theorem features_val (hbid : m.best .buy = some bid) (hask : m.best .sell = some ask)
    (hvb : ValidPrice bid) (hva : ValidPrice ask)
    (h : (m.shown .buy bid).toNat + (m.shown .sell ask).toNat ≠ 0) :
    ∃ features, m.features (Rounded R) = some features ∧ features.bestBidPrice = bid ∧
      features.bestAskPrice = ask ∧
      ((runtimeStrategy (Rounded R)).signalModel features).val =
        runtimeScore R bid.toInt ask.toInt (m.shown .buy bid).toNat (m.shown .sell ask).toNat := by
  have hrb := hvb.toInt_range
  have hra := hva.toInt_range
  unfold Market.features
  rw [hbid, hask]
  dsimp only
  generalize m.shown .buy bid = b at h
  generalize m.shown .sell ask = a at h
  have hb := b.toNat_lt
  have ha := a.toNat_lt
  rw [if_neg (mt (totalQuantity_eq_zero b a).mp h)]
  refine ⟨_, rfl, rfl, rfl, signalModel_val ?_ ?_ ?_ ?_⟩
  · rw [sub_val, ofPrice_val hvb, ofPrice_val hva]
    exact round_dyadic (ask.toInt - bid.toInt) 0 (by push_cast; ring)
      (abs_le.mpr ⟨by omega, by omega⟩)
  · rw [div_val, add_val, ofPrice_val hvb, ofPrice_val hva, two_val,
      round_dyadic (x := bid.toInt + ask.toInt) (bid.toInt + ask.toInt) 0 (by push_cast; ring)
        (abs_le.mpr ⟨by omega, by omega⟩)]
    exact round_dyadic (bid.toInt + ask.toInt) 1 (by push_cast; ring)
      (abs_le.mpr ⟨by omega, by omega⟩)
  · rw [div_val, totalQuantity_val, ofQuantity_val]
  · have hab := notional_range hva b
    have hba := notional_range hvb a
    rw [div_val, add_val, totalQuantity_val, product_val hva, product_val hvb,
      round_dyadic (x := ((ask.toInt * b.toNat : ℤ) : ℚ) + ((bid.toInt * a.toNat : ℤ) : ℚ))
        (ask.toInt * b.toNat + bid.toInt * a.toNat) 0 (by push_cast; ring)
        (abs_le.mpr ⟨by omega, by omega⟩)]
    push_cast
    rfl

/-- Nothing shown on either side. -/
theorem features_none (hbid : m.best .buy = some bid) (hask : m.best .sell = some ask)
    (h : (m.shown .buy bid).toNat + (m.shown .sell ask).toNat = 0) :
    m.features (Rounded R) = none := by
  unfold Market.features
  rw [hbid, hask]
  dsimp only
  rw [if_pos ((totalQuantity_eq_zero _ _).mpr h)]

end Features

end Rounded

section Decision

variable {m : Market} {bid ask : Price}

theorem Market.features_one_sided {D : Type} [DoubleArith D]
    (h : m.best .buy = none ∨ m.best .sell = none) : m.features D = none := by
  unfold Market.features
  rcases h with h | h
  · rw [h]
  · rw [h]
    cases m.best .buy <;> rfl

theorem Market.pressure_one_sided (h : m.best .buy = none ∨ m.best .sell = none) :
    m.pressure = none := by
  unfold Market.pressure
  rcases h with h | h
  · rw [h]
    rfl
  · rw [h]
    cases m.best .buy <;> rfl

open Rounded MarketDataStrategyConsumer in
/-- The score of a market with two sides, against both thresholds. -/
theorem MicrostructureStrategy.decision_two_sided (event : MarketDataEvent)
    (hbid : m.best .buy = some bid) (hask : m.best .sell = some ask) (hvb : ValidPrice bid)
    (hva : ValidPrice ask) :
    (runtimeStrategy Double).decision m event = pressureDecision m event := by
  unfold MicrostructureStrategy.decision pressureDecision Market.pressure
  rw [hbid, hask]
  dsimp only [bind, Option.bind]
  by_cases hzero : (m.shown .buy bid).toNat + (m.shown .sell ask).toNat = 0
  · rw [features_none hbid hask hzero, if_pos hzero]
    rfl
  · obtain ⟨features, hfeatures, hfb, hfa, hscore⟩ :=
      features_val (R := toNearest) hbid hask hvb hva hzero
    have hrb := hvb.toInt_range
    have hra := hva.toInt_range
    have hsize : (m.shown .buy bid).toNat + (m.shown .sell ask).toNat < 2 ^ 33 := by
      have hb := (m.shown .buy bid).toNat_lt
      have ha := (m.shown .sell ask).toNat_lt
      omega
    have hpos := Nat.pos_of_ne_zero hzero
    have hthreshold : (0.20 : Double).val = toNearest.round (1 / 5) :=
      literal_val 20 true 2 (by norm_num)
    have hbuyThreshold : (runtimeStrategy Double).buyScoreThreshold.val =
        toNearest.round (1 / 5) := hthreshold
    have hsellThreshold : (runtimeStrategy Double).sellScoreThreshold.val =
        -toNearest.round (1 / 5) := congrArg Neg.neg hthreshold
    have hbid0 : 0 ≤ bid.toInt := by omega
    have hbuy := buys_iff hpos hsize hbid0 hra.2
    have hsell := sells_iff hpos hsize hbid0 hra.2
    rw [hfeatures, if_neg hzero]
    dsimp only
    simp only [ge_iff_le, le_iff, hbuyThreshold, hsellThreshold, hscore, hfb, hfa]
    by_cases hspread : bid < ask
    · rw [if_pos (Int64.lt_iff_toInt_lt.mp hspread)] at hbuy hsell
      simp only [hbuy, hsell, if_pos hspread]
      split_ifs <;> rfl
    · rw [if_neg (mt Int64.lt_iff_toInt_lt.mpr hspread)] at hbuy hsell
      simp only [hbuy, hsell, if_neg hspread]
      split_ifs <;> rfl

open MarketDataStrategyConsumer in
/-- In `double`, the strategy of the trading runtime decides by the pressure of the market. -/
theorem runtimeStrategy_sees : Sees (runtimeStrategy Double).onMarketData pressureDecision := by
  intro b m event h
  have hdecision : (runtimeStrategy Double).decision m event = pressureDecision m event := by
    cases hbid : m.best .buy with
    | none =>
        rw [MicrostructureStrategy.decision, pressureDecision,
          Market.pressure_one_sided (.inl hbid), Market.features_one_sided (.inl hbid)]
        rfl
    | some bid =>
        cases hask : m.best .sell with
        | none =>
            rw [MicrostructureStrategy.decision, pressureDecision,
              Market.pressure_one_sided (.inr hask), Market.features_one_sided (.inr hask)]
            rfl
        | some ask =>
            obtain ⟨hvb, -, -⟩ := h.some _ _ hbid
            obtain ⟨hva, -, -⟩ := h.some _ _ hask
            exact MicrostructureStrategy.decision_two_sided event hbid hask hvb hva
  have hsees := (runtimeStrategy Double).sees b m event h
  rwa [hdecision] at hsees

end Decision

open MarketDataBookConsumer MarketDataStrategyConsumer Replay in
/-- After every feed with prices in range, whose Add Orders are for ids that are not live, the
strategy of the trading runtime, computed in `double` from the consumer's book, answers every
event as the integers of the market say. -/
theorem double_decides_by_integers (stdHash : OrderId → Nat) (events : List MarketDataEvent)
    (hprices : ∀ event ∈ events, event.type = .addOrder ∨ event.type = .replaceOrder →
      ValidPrice event.price)
    (hfresh : addsFresh defaultOrderCapacity [] events = true) (event : MarketDataEvent) :
    ∃ c, (MarketDataBookConsumer.init stdHash).consumeAll events = .ok c ∧
      (runtimeStrategy Double).onMarketData c.book event =
        .ok (pressureDecision (Market.empty.run events) event) := by
  obtain ⟨c, Q, hok, h⟩ := (Shows.init stdHash).consumeAll events
    (fun event hmem hb => hprices event hmem (of_decide_eq_true hb)) hfresh
  exact ⟨c, hok, (runtimeStrategy_sees c.book _ event h.showsMarket).1⟩

/-- A locked market, with so many bid and so many offered. -/
def locked (bidQuantity askQuantity : Quantity) : List MarketDataEvent :=
  [{ orderId := 1, price := 100, quantity := bidQuantity },
    { orderId := 2, side := .sell, price := 100, quantity := askQuantity }]

open MarketDataStrategyConsumer in
/-- Twice as much offered as bid is sold to; twice as much bid as offered is left alone. -/
theorem double_decides_by_integers_locked :
    (∃ c, (MarketDataBookConsumer.init UInt64.toNat).consumeAll (locked 1 2) = .ok c ∧
      (runtimeStrategy Double).onMarketData c.book {} =
        .ok (some ⟨1001, .sell, ({} : MarketDataEvent).symbol, 100, 10⟩)) ∧
    ∃ c, (MarketDataBookConsumer.init UInt64.toNat).consumeAll (locked 2 1) = .ok c ∧
      (runtimeStrategy Double).onMarketData c.book {} = .ok none := by
  obtain ⟨c, hok, hanswer⟩ :=
    double_decides_by_integers UInt64.toNat (locked 1 2) (by decide) (by decide) {}
  obtain ⟨c', hok', hanswer'⟩ :=
    double_decides_by_integers UInt64.toNat (locked 2 1) (by decide) (by decide) {}
  exact ⟨⟨c, hok, hanswer.trans (by decide +kernel)⟩, c', hok', hanswer'.trans (by decide +kernel)⟩

end OpenHft
