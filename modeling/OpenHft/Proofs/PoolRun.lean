import Mathlib.Data.List.Infix
import OpenHft.Proofs.OrderPool

/-!
# Every order is handed out once

`acquire` and `release` called in any order and with any pointer. What the caller may think
is its own is kept beside the pool: an order is held from the `acquire` that returned it to
the first `release` of it, whatever the pool's flags say. The argument is that the two never
disagree. A `release` of anything that is not held is one of the cases the pool refuses, so
the free list gets an order back only when its last holder gives it up, and the orders given
back since the last `acquire` lie at its back in the order in which they came.
-/

namespace OpenHft

/-- The calls that change a pool. -/
inductive PoolCall where
  | acquire
  | release (order : Option OrderPtr)

/-- The pool, the orders that its callers hold, and those that they gave back since the last
`acquire`, the last of them first. -/
structure PoolUse where
  pool : OrderPool
  held : List OrderPtr
  givenBack : List OrderPtr

namespace PoolUse

/-- A new pool; nobody holds an order. -/
def init (capacity : Nat) : PoolUse where
  pool := .init capacity
  held := []
  givenBack := []

/-- A call, and what its caller then holds. -/
def call (u : PoolUse) : PoolCall → PoolUse
  | .acquire =>
      { pool := u.pool.acquire.2
        held := u.pool.acquire.1.toList ++ u.held
        givenBack := [] }
  | .release none => { u with pool := u.pool.release none }
  | .release (some p) =>
      { pool := u.pool.release (some p)
        held := u.held.erase p
        givenBack := if p ∈ u.held then p :: u.givenBack else u.givenBack }

/-- Calls one after the other. -/
def callAll (u : PoolUse) (calls : List PoolCall) : PoolUse := calls.foldl call u

variable {u : PoolUse} {capacity : Nat} {p : OrderPtr}

/-- The flags, the free list and the callers agree on who has what. -/
structure Inv (capacity : Nat) (u : PoolUse) : Prop where
  size : u.pool.capacity = capacity
  wf : u.pool.Wf
  inUse : ∀ p, u.pool.inUse p = true ↔ p ∈ u.held
  distinct : u.held.Nodup
  count : u.pool.freeList.length + u.held.length = capacity
  last : u.givenBack <+: u.pool.freeList

theorem inv_init (capacity : Nat) : Inv capacity (init capacity) where
  size := rfl
  wf := OrderPool.init_wf capacity
  inUse := by simp [init, OrderPool.init]
  distinct := List.nodup_nil
  count := by simp [init, OrderPool.init, OrderPool.length_freshList]
  last := List.nil_prefix

/-- An order on the free list is held by nobody. -/
theorem Inv.not_held (h : Inv capacity u) (hp : p ∈ u.pool.freeList) : p ∉ u.held := by
  intro hheld
  have hfree := ((h.wf.free p).mp hp).2
  rw [(h.inUse p).mpr hheld] at hfree
  cases hfree

theorem Inv.acquire (h : Inv capacity u) : Inv capacity (u.call .acquire) := by
  cases hfree : u.pool.freeList with
  | nil =>
      simp only [call, OrderPool.acquire_none hfree]
      exact ⟨h.size, h.wf, h.inUse, h.distinct, h.count, List.nil_prefix⟩
  | cons p rest =>
      simp only [call, OrderPool.acquire_some hfree]
      have hp : p ∉ u.held := h.not_held (by simp [hfree])
      have hcount := h.count
      refine ⟨h.size, OrderPool.lend_wf h.wf hfree, ?_, ?_, ?_, List.nil_prefix⟩
      · intro q
        show Function.update u.pool.inUse p true q = true ↔ q ∈ p :: u.held
        by_cases hq : q = p
        · simp [hq]
        · simp [hq, h.inUse]
      · exact List.nodup_cons.mpr ⟨hp, h.distinct⟩
      · rw [hfree] at hcount
        simp only [List.length_cons, OrderPool.lend, Option.toList_some,
          List.singleton_append] at hcount ⊢
        omega

/-- A pointer that nobody holds is refused, be it foreign or free already. -/
theorem Inv.release_unheld (h : Inv capacity u) (hp : p ∉ u.held) :
    u.pool.release (some p) = u.pool := by
  have hunused : u.pool.inUse p = false := by
    rw [← Bool.not_eq_true, h.inUse]
    exact hp
  simp [OrderPool.release, hunused]

theorem Inv.release (h : Inv capacity u) (p : OrderPtr) :
    Inv capacity (u.call (.release (some p))) := by
  by_cases hp : p ∈ u.held
  · have hused : u.pool.inUse p = true := (h.inUse p).mpr hp
    have hcount := h.count
    have hlength := List.length_pos_of_mem hp
    simp only [call, OrderPool.release_some h.wf hused, if_pos hp]
    refine ⟨h.size, OrderPool.takeBack_wf h.wf hused, ?_, h.distinct.erase p, ?_, ?_⟩
    · intro q
      show Function.update u.pool.inUse p false q = true ↔ q ∈ u.held.erase p
      by_cases hq : q = p
      · simp [hq, h.distinct.mem_erase_iff]
      · simp [hq, h.inUse, List.mem_erase_of_ne hq]
    · simp only [OrderPool.takeBack, List.length_cons, List.length_erase_of_mem hp]
      omega
    · exact (List.prefix_cons_inj p).mpr h.last
  · simp only [call, h.release_unheld hp, if_neg hp, List.erase_of_not_mem hp]
    exact h

theorem Inv.call (h : Inv capacity u) (c : PoolCall) : Inv capacity (u.call c) := by
  cases c with
  | acquire => exact h.acquire
  | release order =>
      cases order with
      | none => exact h
      | some p => exact h.release p

theorem Inv.callAll (h : Inv capacity u) (calls : List PoolCall) :
    Inv capacity (u.callAll calls) := by
  induction calls generalizing u with
  | nil => exact h
  | cons c calls ih => exact ih (h.call c)

/-- What the next `acquire` returns. -/
theorem Inv.acquire_eq_none_iff (h : Inv capacity u) :
    u.pool.acquire.1 = none ↔ ∀ p < capacity, u.pool.inUse p = true := by
  cases hfree : u.pool.freeList with
  | nil =>
      have hall : ∀ p < capacity, u.pool.inUse p = true := by
        intro p hp
        by_contra hunused
        have hmem := (h.wf.free p).mpr ⟨by rw [h.size]; exact hp, by simpa using hunused⟩
        simp [hfree] at hmem
      simpa [OrderPool.acquire_none hfree] using hall
  | cons p rest =>
      obtain ⟨hp, hunused⟩ := (h.wf.free p).mp (by simp [hfree])
      rw [h.size] at hp
      simp only [OrderPool.acquire_some hfree, reduceCtorEq, false_iff]
      intro hall
      rw [hall p hp] at hunused
      cases hunused

theorem Inv.acquire_free (h : Inv capacity u) (hp : u.pool.acquire.1 = some p) :
    p < capacity ∧ u.pool.inUse p = false ∧ p ∉ u.held := by
  cases hfree : u.pool.freeList with
  | nil => simp [OrderPool.acquire_none hfree] at hp
  | cons q rest =>
      simp only [OrderPool.acquire_some hfree, Option.some.injEq] at hp
      subst hp
      have hmem : q ∈ u.pool.freeList := by simp [hfree]
      obtain ⟨hlt, hunused⟩ := (h.wf.free q).mp hmem
      exact ⟨by rw [← h.size]; exact hlt, hunused, h.not_held hmem⟩

theorem Inv.acquire_last (h : Inv capacity u) (hp : u.givenBack.head? = some p) :
    u.pool.acquire.1 = some p := by
  obtain ⟨rest, hrest⟩ := h.last
  cases hback : u.givenBack with
  | nil => simp [hback] at hp
  | cons q more =>
      rw [hback] at hp hrest
      simp only [List.head?_cons, Option.some.injEq] at hp
      subst hp
      rw [OrderPool.acquire_some hrest.symm]

end PoolUse

/-- After any calls, the free list has every order of the pool once whose flag is not set;
with those that are held they make up the pool; and the next `acquire` finds an order that
nobody holds unless all are in use, the one that was given back last if one was. -/
theorem pool_hands_out_once (capacity : Nat) (calls : List PoolCall) :
    let u := (PoolUse.init capacity).callAll calls
    u.pool.capacity = capacity ∧ u.pool.freeList.Nodup ∧
      (∀ p, p ∈ u.pool.freeList ↔ p < capacity ∧ u.pool.inUse p = false) ∧
      u.held.Nodup ∧ (∀ p, p ∈ u.held ↔ p < capacity ∧ u.pool.inUse p = true) ∧
      u.pool.available + u.held.length = u.pool.capacity ∧
      (u.pool.acquire.1 = none ↔ ∀ p < capacity, u.pool.inUse p = true) ∧
      (∀ p, u.pool.acquire.1 = some p →
        p < capacity ∧ u.pool.inUse p = false ∧ p ∉ u.held) ∧
      ∀ p, u.givenBack.head? = some p → u.pool.acquire.1 = some p := by
  intro u
  have h : u.Inv capacity := (PoolUse.inv_init capacity).callAll calls
  have hheld : ∀ p, p ∈ u.held ↔ p < capacity ∧ u.pool.inUse p = true := by
    intro p
    rw [← h.inUse, ← h.size]
    exact ⟨fun hused => ⟨h.wf.owned p hused, hused⟩, And.right⟩
  refine ⟨h.size, h.wf.nodup, ?_, h.distinct, hheld, ?_, h.acquire_eq_none_iff,
    fun p => h.acquire_free, fun p => h.acquire_last⟩
  · rw [← h.size]
    exact h.wf.free
  · rw [h.size]
    exact h.count

end OpenHft
