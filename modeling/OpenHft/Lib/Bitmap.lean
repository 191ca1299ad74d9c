import Mathlib.Algebra.Ring.Int.Defs
import Mathlib.Algebra.Ring.Nat
import Mathlib.Data.Fin.Basic
import Mathlib.Logic.Function.Basic
import Mathlib.Order.Bounds.Defs

/-!
# A set of indices packed into words

`bitAt` reads the packed words as a predicate on indices; the two lemmas after
it say that or-ing in, and masking out, the bit of one index changes the
predicate there and nowhere else. `GreatestBelow` and `LeastAbove` are what a
search for a neighbouring index must answer, and `highest_bit`, `lowest_bit`
turn the leading and trailing zero counts of one word into such an answer.
-/

namespace OpenHft.Lib

variable {count w : Nat}

/-- Bit `i` of the packed words; an index past the last word is not set. -/
def bitAt (words : Fin count → BitVec w) (i : Nat) : Bool :=
  if h : i / w < count then (words ⟨i / w, h⟩).getLsbD (i % w) else false

theorem bitAt_of_lt (words : Fin count → BitVec w) {k b : Nat} (hk : k < count)
    (hb : b < w) : bitAt words (k * w + b) = (words ⟨k, hk⟩).getLsbD b := by
  have hdiv : (k * w + b) / w = k := by
    rw [Nat.mul_comm, Nat.mul_add_div (by omega), Nat.div_eq_of_lt hb,
      Nat.add_zero]
  have hmod : (k * w + b) % w = b := by
    rw [Nat.mul_comm, Nat.mul_add_mod, Nat.mod_eq_of_lt hb]
  simp only [bitAt, hdiv, hmod, hk, dif_pos]

/-- Two indices with the same word and the same bit are one index. -/
theorem eq_of_div_mod {i j : Nat} (hd : i / w = j / w) (hm : i % w = j % w) :
    i = j := by
  rw [← Nat.div_add_mod i w, ← Nat.div_add_mod j w, hd, hm]

/-- Rewriting one word changes the bits of that word and no others. -/
theorem bitAt_update (words : Fin count → BitVec w) {k : Nat} (hk : k < count)
    (word : BitVec w) (j : Nat) :
    bitAt (Function.update words ⟨k, hk⟩ word) j =
      if j / w = k then word.getLsbD (j % w) else bitAt words j := by
  by_cases hd : j / w = k
  · subst hd
    rw [if_pos rfl, bitAt, dif_pos hk, Function.update_self]
  · rw [if_neg hd]
    by_cases hj : j / w < count
    · rw [bitAt, bitAt, dif_pos hj, dif_pos hj,
        Function.update_of_ne fun e => hd (congrArg Fin.val e)]
    · rw [bitAt, bitAt, dif_neg hj, dif_neg hj]

theorem getLsbD_one_shiftLeft {a : Nat} (ha : a < w) (b : Nat) :
    ((1 : BitVec w) <<< a).getLsbD b = decide (b = a) := by
  rw [show (1 : BitVec w) <<< a = BitVec.twoPow w a from rfl,
    BitVec.getLsbD_twoPow, decide_eq_true ha, Bool.true_and]
  exact decide_eq_decide.mpr eq_comm

theorem bitAt_set (words : Fin count → BitVec w) (hw : 0 < w) {i : Nat}
    (hi : i / w < count) (j : Nat) :
    bitAt (Function.update words ⟨i / w, hi⟩
        (words ⟨i / w, hi⟩ ||| ((1 : BitVec w) <<< (i % w)))) j =
      (decide (j = i) || bitAt words j) := by
  rw [bitAt_update]
  split
  · next hd =>
      have hslot : bitAt words j = (words ⟨i / w, hi⟩).getLsbD (j % w) := by
        simp only [bitAt, hd, hi, dif_pos]
      have hji : j % w = i % w ↔ j = i :=
        ⟨eq_of_div_mod hd, fun e => by rw [e]⟩
      rw [BitVec.getLsbD_or, getLsbD_one_shiftLeft (Nat.mod_lt i hw), hslot,
        decide_eq_decide.mpr hji, Bool.or_comm]
  · next hd =>
      have hji : j ≠ i := fun e => hd (by rw [e])
      rw [decide_eq_false hji, Bool.false_or]

theorem bitAt_clear (words : Fin count → BitVec w) (hw : 0 < w) {i : Nat}
    (hi : i / w < count) (j : Nat) :
    bitAt (Function.update words ⟨i / w, hi⟩
        (words ⟨i / w, hi⟩ &&& ~~~((1 : BitVec w) <<< (i % w)))) j =
      (!decide (j = i) && bitAt words j) := by
  rw [bitAt_update]
  split
  · next hd =>
      have hslot : bitAt words j = (words ⟨i / w, hi⟩).getLsbD (j % w) := by
        simp only [bitAt, hd, hi, dif_pos]
      have hji : j % w = i % w ↔ j = i :=
        ⟨eq_of_div_mod hd, fun e => by rw [e]⟩
      rw [BitVec.getLsbD_and, BitVec.getLsbD_not,
        getLsbD_one_shiftLeft (Nat.mod_lt i hw), hslot,
        decide_eq_decide.mpr hji, decide_eq_true (Nat.mod_lt j hw),
        Bool.true_and, Bool.and_comm]
  · next hd =>
      have hji : j ≠ i := fun e => hd (by rw [e])
      rw [decide_eq_false hji, Bool.not_false, Bool.true_and]

/-! ## Searching -/

/-- `found` is the greatest index of the set below `p`, or that there is
none. -/
def GreatestBelow (P : Nat → Bool) (p : Nat) : Option Nat → Prop
  | none => ∀ i < p, P i = false
  | some i => i < p ∧ P i = true ∧ ∀ j, i < j → j < p → P j = false

/-- `found` is the least index of the set above `p`, or that there is none. -/
def LeastAbove (P : Nat → Bool) (p : Nat) : Option Nat → Prop
  | none => ∀ i, p < i → P i = false
  | some i => p < i ∧ P i = true ∧ ∀ j, p < j → j < i → P j = false

theorem GreatestBelow.isGreatest {P : Nat → Bool} {p i : Nat}
    (h : GreatestBelow P p (some i)) : IsGreatest { j | j < p ∧ P j = true } i := by
  obtain ⟨hlt, hset, hgap⟩ := h
  refine ⟨⟨hlt, hset⟩, ?_⟩
  rintro j ⟨hjp, hj⟩
  refine Nat.le_of_not_lt fun hij => ?_
  rw [hgap j hij hjp] at hj
  cases hj

theorem LeastAbove.isLeast {P : Nat → Bool} {p i : Nat}
    (h : LeastAbove P p (some i)) : IsLeast { j | p < j ∧ P j = true } i := by
  obtain ⟨hlt, hset, hgap⟩ := h
  refine ⟨⟨hlt, hset⟩, ?_⟩
  rintro j ⟨hpj, hj⟩
  refine Nat.le_of_not_lt fun hji => ?_
  rw [hgap j hpj hji] at hj
  cases hj

theorem highest_bit {word : BitVec w} (h : word ≠ 0) :
    word.getLsbD (w - 1 - word.clz.toNat) = true ∧
      ∀ j, w - 1 - word.clz.toNat < j → word.getLsbD j = false := by
  have hw : 0 < w := by
    rcases Nat.eq_zero_or_pos w with rfl | hw
    · exact absurd (BitVec.eq_nil word) (by simpa using h)
    · exact hw
  refine ⟨BitVec.getLsbD_true_clz_of_ne_zero hw h, fun j hj => ?_⟩
  have hclz := BitVec.getLsbD_false_of_clzAuxRec (x := word) (n := w - 1)
    (fun i hi => BitVec.getLsbD_of_ge word i (by omega)) (j - (w - word.clz.toNat))
  have hlt : word.clz.toNat < w := by
    have := BitVec.clz_lt_iff_ne_zero.mpr h
    rw [BitVec.lt_def, BitVec.natCast_eq_ofNat, BitVec.toNat_ofNat,
      Nat.mod_eq_of_lt Nat.lt_two_pow_self] at this
    exact this
  rwa [show w - (word.clzAuxRec (w - 1)).toNat + (j - (w - word.clz.toNat)) = j
    by rw [← BitVec.clz]; omega] at hclz

theorem lowest_bit {word : BitVec w} (h : word ≠ 0) :
    word.getLsbD word.ctz.toNat = true ∧
      ∀ j, j < word.ctz.toNat → word.getLsbD j = false :=
  ⟨BitVec.getLsbD_true_ctz_of_ne_zero h,
    fun _ hj => BitVec.getLsbD_false_of_lt_ctz hj⟩

end OpenHft.Lib
