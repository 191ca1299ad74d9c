import Mathlib.Algebra.Ring.Int.Defs
import Mathlib.Algebra.Ring.Nat
import Mathlib.Data.Fin.Basic

/-!
# Indices that wrap

A ring of `n` slots walked one at a time from some start. Two facts carry
everything built on such a walk: no slot is met twice inside a window of `n`
steps, and a walk of `n` steps meets every slot.
-/

namespace OpenHft.Lib

/-- Two positions less than a full turn apart sit in different slots. -/
theorem mod_inj_of_window {n a b : Nat} (hab : a ≤ b) (hlt : b < a + n)
    (h : a % n = b % n) : a = b := by
  have hd : n ∣ b - a :=
    Nat.dvd_of_mod_eq_zero (Nat.sub_mod_eq_zero_of_mod_eq h.symm)
  have hz : b - a = 0 := Nat.eq_zero_of_dvd_of_lt hd (by omega)
  omega

section Walk

variable {n : Nat} [NeZero n]

/-- The slot `i` steps after `start`. -/
def walk (start : Fin n) (i : Nat) : Fin n :=
  ⟨(start.val + i) % n, Nat.mod_lt _ (Nat.pos_of_neZero n)⟩

@[simp] theorem walk_zero (start : Fin n) : walk start 0 = start := by
  apply Fin.ext
  show (start.val + 0) % n = start.val
  rw [Nat.add_zero, Nat.mod_eq_of_lt start.isLt]

theorem walk_succ (start : Fin n) (i : Nat) :
    walk start (i + 1) =
      ⟨((walk start i).val + 1) % n, Nat.mod_lt _ (Nat.pos_of_neZero n)⟩ := by
  apply Fin.ext
  show (start.val + (i + 1)) % n = ((start.val + i) % n + 1) % n
  rw [Nat.mod_add_mod]
  rfl

/-- A walk of `n` steps meets every slot. -/
theorem exists_walk (start slot : Fin n) : ∃ i < n, walk start i = slot := by
  have hs := start.isLt
  have ht := slot.isLt
  rcases Nat.le_total start.val slot.val with hle | hle
  · refine ⟨slot.val - start.val, by omega, Fin.ext ?_⟩
    show (start.val + (slot.val - start.val)) % n = slot.val
    rw [Nat.add_sub_cancel' hle, Nat.mod_eq_of_lt ht]
  · rcases Nat.eq_or_lt_of_le hle with heq | hlt
    · exact ⟨0, by omega, by rw [walk_zero]; exact Fin.ext heq.symm⟩
    · refine ⟨n - start.val + slot.val, by omega, Fin.ext ?_⟩
      show (start.val + (n - start.val + slot.val)) % n = slot.val
      rw [show start.val + (n - start.val + slot.val) = slot.val + n by omega,
        Nat.add_mod_right, Nat.mod_eq_of_lt ht]

end Walk

end OpenHft.Lib
