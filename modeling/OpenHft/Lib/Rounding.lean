import Mathlib.Data.Int.Log
import Mathlib.Data.Rat.Floor
import Mathlib.Algebra.Order.Field.Power
import Mathlib.Tactic.FieldSimp
import Mathlib.Tactic.Linarith
import Mathlib.Tactic.Positivity
import Mathlib.Tactic.Ring

/-!
# Rounding to so many bits

The numbers of a binary floating-point format, away from its largest and smallest, are
those with a significand of `p` bits. A rounding maps every rational to one of the numbers
around it: it is monotone and leaves the numbers of the format alone. Nothing else is asked
of it, so that rounding to nearest, up, down and towards zero are all roundings, and what is
proved of one is proved of the four. Monotone and exact is enough for an error bound: a
rational lies between two neighbours of the format, and so does its rounding.

`nearestEven` is the usual one, with the proof that it is a rounding.
-/

namespace OpenHft.Lib

/-- A number with a significand of `p` bits, up to `2 ^ p` itself. -/
def Representable (p : ℕ) (x : ℚ) : Prop := ∃ m e : ℤ, |m| ≤ 2 ^ p ∧ x = m * 2 ^ e

/-- A rounding to numbers of `p` bits: it keeps the order, and the numbers it rounds to. -/
structure Rounding (p : ℕ) where
  round : ℚ → ℚ
  mono : Monotone round
  exact : ∀ x, Representable p x → round x = x

section Binade

variable {p : ℕ} {x y : ℚ}

theorem representable_int {n : ℤ} (h : |n| ≤ 2 ^ p) : Representable p n :=
  ⟨n, 0, h, by simp⟩

theorem Representable.neg (h : Representable p x) : Representable p (-x) := by
  obtain ⟨m, e, hm, rfl⟩ := h
  exact ⟨-m, e, by rwa [abs_neg], by push_cast; ring⟩

theorem two_zpow_pos (k : ℤ) : (0 : ℚ) < 2 ^ k := zpow_pos (by norm_num) k

/-- The distance of two neighbours of the format around a number. -/
def spacing (p : ℕ) (x : ℚ) : ℚ := 2 ^ (Int.log 2 |x| + 1 - p)

theorem spacing_pos (p : ℕ) (x : ℚ) : 0 < spacing p x := two_zpow_pos _

theorem two_pow_mul_spacing (p : ℕ) (x : ℚ) : 2 ^ p * spacing p x = 2 ^ (Int.log 2 |x| + 1) := by
  rw [spacing, ← zpow_natCast, ← zpow_add₀ (by norm_num)]
  congr 1
  omega

/-- A number is less than `2 ^ p` times its spacing. -/
theorem abs_div_spacing_lt (p : ℕ) (x : ℚ) : |x / spacing p x| < 2 ^ p := by
  have hlt : |x| < 2 ^ (Int.log 2 |x| + 1) := by
    exact_mod_cast Int.lt_zpow_succ_log_self (by norm_num : 1 < 2) |x|
  rw [abs_div, abs_of_pos (spacing_pos p x), div_lt_iff₀ (spacing_pos p x), two_pow_mul_spacing]
  exact hlt

/-- The spacing is a small part of the number. -/
theorem spacing_le (p : ℕ) (hx : x ≠ 0) : spacing p x ≤ 2 ^ (1 - p : ℤ) * |x| := by
  have hle : (2 : ℚ) ^ Int.log 2 |x| ≤ |x| := by
    exact_mod_cast Int.zpow_log_le_self (by norm_num : 1 < 2) (abs_pos.mpr hx)
  have hsplit : spacing p x = 2 ^ (1 - p : ℤ) * 2 ^ Int.log 2 |x| := by
    rw [spacing, ← zpow_add₀ (by norm_num)]
    congr 1
    omega
  rw [hsplit]
  exact mul_le_mul_of_nonneg_left hle (two_zpow_pos _).le

/-- Multiples of a spacing, up to `2 ^ p`, are in the format. -/
theorem representable_mul_spacing {n : ℤ} (h : |n| ≤ 2 ^ p) : Representable p (n * spacing p x) :=
  ⟨n, _, h, rfl⟩

end Binade

namespace Rounding

variable {p : ℕ} (R : Rounding p) {x y : ℚ}

theorem round_zero : R.round 0 = 0 := by
  have h := R.exact (0 : ℤ) (representable_int (by simp))
  simpa using h

theorem nonneg (h : 0 ≤ x) : 0 ≤ R.round x := by
  have hmono := R.mono h
  rwa [R.round_zero] at hmono

/-- What is below a number of the format is not rounded above it. -/
theorem le_of_le (hy : Representable p y) (h : x ≤ y) : R.round x ≤ y := by
  have hmono := R.mono h
  rwa [R.exact y hy] at hmono

theorem le_of_ge (hy : Representable p y) (h : y ≤ x) : y ≤ R.round x := by
  have hmono := R.mono h
  rwa [R.exact y hy] at hmono

/-- The error of a rounding is at most the spacing, which is a small part of the number. -/
theorem error_le (x : ℚ) : |R.round x - x| ≤ 2 ^ (1 - p : ℤ) * |x| := by
  by_cases hx : x = 0
  · rw [hx, R.round_zero]
    simp
  have hpos := spacing_pos p x
  have hlt := abs_lt.mp (abs_div_spacing_lt p x)
  have hfloor := Int.floor_le (x / spacing p x)
  have hceil := Int.lt_floor_add_one (x / spacing p x)
  generalize hn : ⌊x / spacing p x⌋ = n at hfloor hceil
  -- the neighbours below and above are `n` and `n + 1` spacings
  have hlow : -(2 ^ p : ℤ) ≤ n := by
    rw [← hn, Int.le_floor]
    push_cast
    exact hlt.1.le
  have hhigh : n + 1 ≤ 2 ^ p := by
    have hcast : ((n : ℤ) : ℚ) < ((2 ^ p : ℤ) : ℚ) := by
      push_cast
      exact lt_of_le_of_lt hfloor hlt.2
    exact_mod_cast hcast
  have hbelow : (n : ℚ) * spacing p x ≤ x := (le_div_iff₀ hpos).mp hfloor
  have habove : x ≤ ((n + 1 : ℤ) : ℚ) * spacing p x := by
    have hle := (div_le_iff₀ hpos).mp hceil.le
    push_cast
    exact hle
  have hleft := R.le_of_ge (representable_mul_spacing (abs_le.mpr ⟨by omega, by omega⟩)) hbelow
  have hright := R.le_of_le (representable_mul_spacing (abs_le.mpr ⟨by omega, by omega⟩)) habove
  have hspacing := spacing_le p hx
  push_cast at habove hright
  rw [abs_le]
  constructor
  · linarith
  · linarith

/-- What is within the size of a number of the format stays within it. -/
theorem abs_le_of_abs_le (hy : Representable p y) (h : |x| ≤ y) : |R.round x| ≤ y :=
  abs_le.mpr ⟨R.le_of_ge hy.neg (abs_le.mp h).1, R.le_of_le hy (abs_le.mp h).2⟩

/-- The errors of a chain of operations add up: a number `e` away from the exact `y`, of a
size of at most `b`, is rounded to one not much further away. -/
theorem near {e b : ℚ} (h : |x - y| ≤ e) (hb : |x| ≤ b) :
    |R.round x - y| ≤ e + 2 ^ (1 - p : ℤ) * b := by
  have hround : |R.round x - x| ≤ 2 ^ (1 - p : ℤ) * b :=
    (R.error_le x).trans (mul_le_mul_of_nonneg_left hb (two_zpow_pos _).le)
  linarith [abs_sub_le (R.round x) x y]

end Rounding

/-- The error of a product, by the errors of its factors. -/
theorem abs_mul_sub_mul_le (a b a' b' : ℚ) :
    |a * b - a' * b'| ≤ |a - a'| * |b| + |a'| * |b - b'| := by
  calc |a * b - a' * b'| = |(a - a') * b + a' * (b - b')| := by ring_nf
    _ ≤ |(a - a') * b| + |a' * (b - b')| := abs_add_le _ _
    _ = |a - a'| * |b| + |a'| * |b - b'| := by rw [abs_mul, abs_mul]

/-! ## To nearest, ties to even -/

/-- The nearest integer, and the even one of two that are as near. -/
def roundEven (z : ℚ) : ℤ :=
  if z - ⌊z⌋ < 1 / 2 then ⌊z⌋
  else if 1 / 2 < z - ⌊z⌋ then ⌊z⌋ + 1
  else if ⌊z⌋ % 2 = 0 then ⌊z⌋ else ⌊z⌋ + 1

theorem floor_le_roundEven (z : ℚ) : ⌊z⌋ ≤ roundEven z := by
  unfold roundEven
  split_ifs <;> omega

theorem roundEven_le_floor (z : ℚ) : roundEven z ≤ ⌊z⌋ + 1 := by
  unfold roundEven
  split_ifs <;> omega

/-- The nearest integer is that within a half. -/
theorem roundEven_eq {z : ℚ} {n : ℤ} (h : |z - n| < 1 / 2 ∨ |z - n| = 1 / 2 ∧ n % 2 = 0) :
    roundEven z = n := by
  have hfloor := Int.floor_le z
  have hceil := Int.lt_floor_add_one z
  have hnear : |z - n| ≤ 1 / 2 := h.elim le_of_lt fun h => h.1.le
  obtain ⟨hleft, hright⟩ := abs_le.mp hnear
  have hlow : (n : ℚ) < ⌊z⌋ + 2 := by linarith
  have hhigh : (⌊z⌋ : ℚ) < n + 1 := by linarith
  have hcases : n = ⌊z⌋ ∨ n = ⌊z⌋ + 1 := by
    have hlow' : n < ⌊z⌋ + 2 := by exact_mod_cast hlow
    have hhigh' : ⌊z⌋ < n + 1 := by exact_mod_cast hhigh
    omega
  unfold roundEven
  rcases hcases with hn | hn
  · rw [hn] at h hright
    split_ifs with h₁ h₂ h₃
    · exact hn.symm
    · linarith
    · exact hn.symm
    · rcases h with h | h
      · exact absurd (abs_lt.mp h).2 h₁
      · exact absurd h.2 h₃
  · have hcast : (n : ℚ) = ⌊z⌋ + 1 := by exact_mod_cast hn
    rw [hcast] at h hleft
    split_ifs with h₁ h₂ h₃
    · linarith
    · exact hn.symm
    · rcases h with h | h
      · have := (abs_lt.mp h).1
        linarith
      · omega
    · exact hn.symm

theorem roundEven_int (n : ℤ) : roundEven n = n := by
  unfold roundEven
  rw [Int.floor_intCast, sub_self, if_pos (by norm_num)]

theorem roundEven_mono {z w : ℚ} (h : z ≤ w) : roundEven z ≤ roundEven w := by
  rcases lt_or_eq_of_le (Int.floor_mono h) with hlt | heq
  · calc roundEven z ≤ ⌊z⌋ + 1 := roundEven_le_floor z
      _ ≤ ⌊w⌋ := hlt
      _ ≤ roundEven w := floor_le_roundEven w
  · -- in one interval of length 1 the distance to its lower end decides
    unfold roundEven
    rw [heq]
    have hfrac : z - ⌊w⌋ ≤ w - ⌊w⌋ := by linarith
    split_ifs with h₁ h₂ h₃ h₄ h₅ h₆ h₇
    all_goals first | omega | (exfalso; linarith)

theorem roundEven_neg (z : ℚ) : roundEven (-z) = -roundEven z := by
  by_cases hint : (⌊z⌋ : ℚ) = z
  · have hz := roundEven_int ⌊z⌋
    have hneg := roundEven_int (-⌊z⌋)
    push_cast at hneg
    rw [hint] at hz hneg
    rw [hz, hneg]
  · have hlow : (⌊z⌋ : ℚ) < z := lt_of_le_of_ne (Int.floor_le z) hint
    have hhigh := Int.lt_floor_add_one z
    have hfloor : ⌊-z⌋ = -⌊z⌋ - 1 := by
      rw [Int.floor_eq_iff]
      push_cast
      constructor <;> linarith
    have hfrac : -z - (⌊-z⌋ : ℚ) = 1 - (z - ⌊z⌋) := by
      rw [hfloor]
      push_cast
      ring
    unfold roundEven
    rw [hfrac, hfloor]
    split_ifs with h₁ h₂ h₃ h₄ h₅ h₆ h₇
    all_goals first | omega | (exfalso; linarith)

namespace NearestEven

variable {p : ℕ} {x y : ℚ}

/-- To the nearest multiple of the spacing at `x`. -/
def round (p : ℕ) (x : ℚ) : ℚ := roundEven (x / spacing p x) * spacing p x

theorem spacing_neg (p : ℕ) (x : ℚ) : spacing p (-x) = spacing p x := by
  rw [spacing, spacing, abs_neg]

/-- The rounding of a number whose binade is known. -/
theorem round_eq {n e : ℤ} (hlow : (2 : ℚ) ^ e ≤ |x|) (hhigh : |x| < 2 ^ (e + 1))
    (hn : |x / 2 ^ (e + 1 - p) - n| < 1 / 2 ∨ |x / 2 ^ (e + 1 - p) - n| = 1 / 2 ∧ n % 2 = 0) :
    round p x = n * 2 ^ (e + 1 - p) := by
  have hpos : 0 < |x| := lt_of_lt_of_le (two_zpow_pos e) hlow
  have hle : e ≤ Int.log 2 |x| :=
    (Int.zpow_le_iff_le_log (by norm_num) hpos).mp (by simpa using hlow)
  have hlt : Int.log 2 |x| < e + 1 :=
    (Int.lt_zpow_iff_log_lt (by norm_num) hpos).mp (by simpa using hhigh)
  have hlog : Int.log 2 |x| = e := by omega
  rw [round, spacing, hlog, roundEven_eq hn]

theorem round_neg (p : ℕ) (x : ℚ) : round p (-x) = -round p x := by
  rw [round, round, spacing_neg, neg_div, roundEven_neg]
  push_cast
  ring

theorem round_nonneg (p : ℕ) (hx : 0 ≤ x) : 0 ≤ round p x := by
  have hfloor : 0 ≤ ⌊x / spacing p x⌋ := Int.floor_nonneg.mpr (div_nonneg hx (spacing_pos p x).le)
  have hround := hfloor.trans (floor_le_roundEven _)
  exact mul_nonneg (by exact_mod_cast hround) (spacing_pos p x).le

/-- A positive number is rounded within its binade. -/
theorem round_bounds (hp : 1 ≤ p) (hx : 0 < x) :
    (2 : ℚ) ^ Int.log 2 x ≤ round p x ∧ round p x ≤ 2 ^ (Int.log 2 x + 1) := by
  have hlog : (2 : ℚ) ^ Int.log 2 x ≤ x := by
    exact_mod_cast Int.zpow_log_le_self (by norm_num : 1 < 2) hx
  have hpos := spacing_pos p x
  have hfull := two_pow_mul_spacing p x
  rw [abs_of_pos hx] at hfull
  have hhalf : ((2 ^ (p - 1) : ℤ) : ℚ) * spacing p x = 2 ^ Int.log 2 x := by
    have htwo : (2 : ℚ) ^ p = 2 * 2 ^ (p - 1) := by
      rw [← pow_succ', Nat.sub_add_cancel hp]
    rw [htwo, zpow_add_one₀ (by norm_num)] at hfull
    push_cast
    linarith
  constructor
  · have hle : 2 ^ (p - 1) ≤ ⌊x / spacing p x⌋ := by
      rw [Int.le_floor, le_div_iff₀ hpos, hhalf]
      exact hlog
    rw [← hhalf]
    exact mul_le_mul_of_nonneg_right
      (by exact_mod_cast hle.trans (floor_le_roundEven _)) hpos.le
  · have hlt : ⌊x / spacing p x⌋ < 2 ^ p := by
      have habs := (abs_lt.mp (abs_div_spacing_lt p x)).2
      rw [Int.floor_lt]
      push_cast
      exact habs
    have hround : roundEven (x / spacing p x) ≤ 2 ^ p :=
      (roundEven_le_floor _).trans (by omega)
    rw [← hfull]
    exact mul_le_mul_of_nonneg_right (by exact_mod_cast hround) hpos.le

theorem round_mono_pos (hp : 1 ≤ p) (hx : 0 < x) (h : x ≤ y) : round p x ≤ round p y := by
  have hy := lt_of_lt_of_le hx h
  rcases lt_or_eq_of_le (Int.log_mono_right (b := 2) hx h) with hlt | heq
  · calc round p x ≤ 2 ^ (Int.log 2 x + 1) := (round_bounds hp hx).2
      _ ≤ 2 ^ Int.log 2 y := zpow_le_zpow_right₀ (by norm_num) hlt
      _ ≤ round p y := (round_bounds hp hy).1
  · have hspacing : spacing p x = spacing p y := by
      rw [spacing, spacing, abs_of_pos hx, abs_of_pos hy, heq]
    rw [round, round, hspacing]
    have hdiv : x / spacing p y ≤ y / spacing p y :=
      div_le_div_of_nonneg_right h (spacing_pos p y).le
    exact mul_le_mul_of_nonneg_right (by exact_mod_cast roundEven_mono hdiv) (spacing_pos p y).le

theorem round_mono (hp : 1 ≤ p) : Monotone (round p) := by
  intro x y h
  rcases lt_or_ge 0 x with hx | hx
  · exact round_mono_pos hp hx h
  · rcases lt_or_ge y 0 with hy | hy
    · have hneg := round_mono_pos hp (x := -y) (y := -x) (by linarith) (by linarith)
      rw [round_neg, round_neg] at hneg
      linarith
    · have hx' := round_nonneg p (x := -x) (by linarith)
      rw [round_neg] at hx'
      have hy' := round_nonneg p hy
      linarith

/-- A number of the format is a multiple of its spacing. -/
theorem div_spacing_int (hp : 1 ≤ p) (hx : Representable p x) :
    ∃ n : ℤ, x / spacing p x = n := by
  obtain ⟨m, e, hm, rfl⟩ := hx
  by_cases hzero : (m : ℚ) * 2 ^ e = 0
  · exact ⟨0, by rw [hzero]; simp⟩
  have hm0 : (m : ℚ) ≠ 0 := left_ne_zero_of_mul hzero
  have habs : |(m : ℚ) * 2 ^ e| = |m| * 2 ^ e := by
    rw [abs_mul, abs_of_pos (two_zpow_pos e)]
    push_cast
    rfl
  have hlog := Int.zpow_log_le_self (by norm_num : 1 < 2) (abs_pos.mpr hzero)
  push_cast at hlog
  generalize hk : Int.log 2 |(m : ℚ) * 2 ^ e| = k at hlog
  have hdiv : (m : ℚ) * 2 ^ e / spacing p (m * 2 ^ e) = m * 2 ^ (e - k - 1 + p) := by
    rw [spacing, hk, mul_div_assoc, ← zpow_sub₀ (by norm_num)]
    congr 2
    omega
  have hmQ : ((|m| : ℤ) : ℚ) ≤ 2 ^ p := by exact_mod_cast hm
  have hle : (2 : ℚ) ^ k ≤ 2 ^ (e + p) := by
    refine hlog.trans ?_
    rw [habs, zpow_add₀ (by norm_num), mul_comm]
    exact mul_le_mul_of_nonneg_left (by exact_mod_cast hmQ) (two_zpow_pos e).le
  have hexp : k ≤ e + p := (zpow_le_zpow_iff_right₀ (by norm_num : (1 : ℚ) < 2)).mp hle
  rw [hdiv]
  rcases lt_or_eq_of_le hexp with hlt | heq
  · obtain ⟨n, hn⟩ := Int.eq_ofNat_of_zero_le (show 0 ≤ e - k - 1 + p by omega)
    refine ⟨m * 2 ^ n, ?_⟩
    rw [hn]
    push_cast
    rfl
  · -- the number is a power of two, `2 ^ p` of the smaller spacing
    have hge : (2 : ℚ) ^ p ≤ |(m : ℚ)| := by
      rw [habs, heq, zpow_add₀ (by norm_num), mul_comm] at hlog
      have hcancel := le_of_mul_le_mul_right hlog (two_zpow_pos e)
      push_cast at hcancel
      exact_mod_cast hcancel
    have hexpo : e - k - 1 + p = -1 := by omega
    have hpow : (2 : ℚ) ^ p = 2 * 2 ^ (p - 1) := by rw [← pow_succ', Nat.sub_add_cancel hp]
    have hmabs : |(m : ℚ)| = 2 ^ p := le_antisymm (by push_cast at hmQ; exact hmQ) hge
    rw [hexpo]
    rcases abs_choice (m : ℚ) with hsign | hsign
    · refine ⟨2 ^ (p - 1), ?_⟩
      rw [hsign] at hmabs
      rw [hmabs, hpow]
      push_cast
      rw [zpow_neg_one]
      ring
    · refine ⟨-2 ^ (p - 1), ?_⟩
      rw [hsign] at hmabs
      have hneg : (m : ℚ) = -2 ^ p := by linarith
      rw [hneg, hpow]
      push_cast
      rw [zpow_neg_one]
      ring

theorem round_exact (hp : 1 ≤ p) (hx : Representable p x) : round p x = x := by
  obtain ⟨n, hn⟩ := div_spacing_int hp hx
  rw [round, hn, roundEven_int, ← hn]
  exact div_mul_cancel₀ x (spacing_pos p x).ne'

end NearestEven

/-- Rounding to nearest with ties to even, as it is the default of binary formats. -/
def nearestEven (p : ℕ) (hp : 1 ≤ p) : Rounding p where
  round := NearestEven.round p
  mono := NearestEven.round_mono hp
  exact := fun _ hx => NearestEven.round_exact hp hx

end OpenHft.Lib
