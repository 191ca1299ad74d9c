import Mathlib.Data.List.Nodup
import OpenHft.Model.OrderPool

/-!
# The order pool

A pool is well formed when its free list names each free object once and
nothing else, and `inUse` is set only for objects the pool owns. `acquire` and
`release` keep that for any sequence of calls: `release` itself refuses a null
pointer, a foreign object and an object that is not in use.
-/

namespace OpenHft

namespace OrderPool

/-- The free list has every order that is not in use, once. -/
structure Wf (pool : OrderPool) : Prop where
  nodup : pool.freeList.Nodup
  free : ∀ p, p ∈ pool.freeList ↔ p < pool.capacity ∧ pool.inUse p = false
  owned : ∀ p, pool.inUse p = true → p < pool.capacity

variable {pool : OrderPool} {p : OrderPtr}

theorem mem_freshList {n : Nat} : p ∈ freshList n ↔ p < n := by
  induction n with
  | zero => simp [freshList]
  | succ n ih =>
      rw [freshList, List.mem_cons, ih, or_comm]
      exact Nat.lt_succ_iff_lt_or_eq.symm

theorem freshList_nodup (n : Nat) : (freshList n).Nodup := by
  induction n with
  | zero => exact List.nodup_nil
  | succ n ih =>
      rw [freshList, List.nodup_cons, mem_freshList]
      exact ⟨Nat.lt_irrefl n, ih⟩

theorem length_freshList (n : Nat) : (freshList n).length = n := by
  induction n with
  | zero => rfl
  | succ n ih => rw [freshList, List.length_cons, ih]

theorem init_wf (capacity : Nat) : (init capacity).Wf where
  nodup := freshList_nodup capacity
  free := fun _ => mem_freshList.trans ⟨fun h => ⟨h, rfl⟩, fun h => h.1⟩
  owned := fun _ h => Bool.noConfusion h

/-- The pool once `acquire` has handed out the object at the back. -/
def lend (pool : OrderPool) (p : OrderPtr) (rest : List OrderPtr) : OrderPool :=
  { pool with freeList := rest, inUse := Function.update pool.inUse p true }

/-- The pool once `release` has taken an object back. -/
def takeBack (pool : OrderPool) (p : OrderPtr) : OrderPool :=
  { pool with
    inUse := Function.update pool.inUse p false
    freeList := p :: pool.freeList }

theorem acquire_none (h : pool.freeList = []) : pool.acquire = (none, pool) := by
  rw [acquire, h]

theorem acquire_some {rest : List OrderPtr} (h : pool.freeList = p :: rest) :
    pool.acquire = (some p, pool.lend p rest) := by
  rw [acquire, h]
  rfl

theorem lend_wf {rest : List OrderPtr} (hw : pool.Wf)
    (h : pool.freeList = p :: rest) : (pool.lend p rest).Wf := by
  have hnd := hw.nodup
  rw [h, List.nodup_cons] at hnd
  refine ⟨hnd.2, fun q => ?_, fun q hq => ?_⟩
  · show q ∈ rest ↔ q < pool.capacity ∧ Function.update pool.inUse p true q = false
    by_cases hqp : q = p
    · subst hqp
      rw [Function.update_self]
      exact ⟨fun hmem => absurd hmem hnd.1, fun hq => Bool.noConfusion hq.2⟩
    · rw [Function.update_of_ne hqp, ← hw.free, h, List.mem_cons]
      exact ⟨Or.inr, fun hor => hor.resolve_left hqp⟩
  · have hq' : Function.update pool.inUse p true q = true := hq
    by_cases hqp : q = p
    · subst hqp
      exact ((hw.free q).mp (by rw [h]; exact List.mem_cons_self)).1
    · rw [Function.update_of_ne hqp] at hq'
      exact hw.owned q hq'

theorem release_some (hw : pool.Wf) (h : pool.inUse p = true) :
    pool.release (some p) = pool.takeBack p := by
  have howns : pool.owns (some p) = true := decide_eq_true (hw.owned p h)
  rw [release, howns, h]
  rfl

theorem releaseIfOwned_some (hw : pool.Wf) (h : pool.inUse p = true) :
    pool.releaseIfOwned (some p) = pool.takeBack p := by
  have howns : pool.owns (some p) = true := decide_eq_true (hw.owned p h)
  rw [releaseIfOwned, howns, release_some hw h]
  rfl

theorem takeBack_wf (hw : pool.Wf) (h : pool.inUse p = true) :
    (pool.takeBack p).Wf := by
  refine ⟨?_, fun q => ?_, fun q hq => ?_⟩
  · refine List.nodup_cons.mpr ⟨fun hmem => ?_, hw.nodup⟩
    rw [((hw.free p).mp hmem).2] at h
    cases h
  · show q ∈ p :: pool.freeList ↔
      q < pool.capacity ∧ Function.update pool.inUse p false q = false
    by_cases hqp : q = p
    · subst hqp
      rw [Function.update_self]
      exact ⟨fun _ => ⟨hw.owned q h, rfl⟩, fun _ => List.mem_cons_self⟩
    · rw [Function.update_of_ne hqp, ← hw.free, List.mem_cons]
      exact ⟨fun hor => hor.resolve_left hqp, Or.inr⟩
  · have hq' : Function.update pool.inUse p false q = true := hq
    by_cases hqp : q = p
    · subst hqp
      exact hw.owned q h
    · rw [Function.update_of_ne hqp] at hq'
      exact hw.owned q hq'

end OrderPool

end OpenHft
