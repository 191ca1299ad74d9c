import OpenHft.Model.Types

/-!
# `OrderPool`

The pool owns the orders at the addresses below its capacity (`storage_`); an
address at or above it is a foreign pointer. `free_list_` is kept with its
back first, so that `back()` and `pop_back()` are the head and the tail of the
list.
-/

namespace OpenHft

/-- `storage_` itself is the memory of the orders, addresses 0 to `capacity - 1`. -/
structure OrderPool where
  capacity : Nat
  freeList : List OrderPtr
  inUse : OrderPtr → Bool

namespace OrderPool

/-- The free list the constructor builds by pushing `&storage_[0]`,
`&storage_[1]`, … in turn. -/
def freshList : Nat → List OrderPtr
  | 0 => []
  | i + 1 => i :: freshList i

/-- All orders are free. -/
def init (capacity : Nat) : OrderPool where
  capacity := capacity
  freeList := freshList capacity
  inUse := fun _ => false

/-- The size of the free list. -/
def available (pool : OrderPool) : Nat := pool.freeList.length

/-- The order that was released last. Null for an exhausted pool. -/
def acquire (pool : OrderPool) : Option OrderPtr × OrderPool :=
  match pool.freeList with
  | [] => (none, pool)
  | order :: rest =>
      (some order,
        { pool with
          freeList := rest
          inUse := Function.update pool.inUse order true })

/-- Null is owned by no pool. -/
def owns (pool : OrderPool) (order : Option OrderPtr) : Bool :=
  match order with
  | none => false
  | some p => decide (p < pool.capacity)

/-- An order that is not the pool's, or that is not in use, is not taken. -/
def release (pool : OrderPool) (order : Option OrderPtr) : OrderPool :=
  match order with
  | none => pool
  | some p =>
      if pool.owns (some p) = false then pool
      else if pool.inUse p = false then pool
      else
        { pool with
          inUse := Function.update pool.inUse p false
          freeList := p :: pool.freeList }

/-- `releaseIfOwned`, which the engine and the market-data consumer each have for
their own pool. -/
def releaseIfOwned (pool : OrderPool) (order : Option OrderPtr) : OrderPool :=
  if order.isSome && pool.owns order then pool.release order else pool

end OrderPool

end OpenHft
