import OpenHft.Model.MatchingEngine
import OpenHft.Proofs.BestPrices
import OpenHft.Proofs.PooledBook

/-!
# The engine invariant

The engine's book over the engine's pool, and what `prepareOrder` and
`releaseIfOwned` do to them. During a call one order is lent: the one the call
is working on.

Nothing here rests on ids being distinct. When the sequencer has gone round
and an id is used twice, `matchOne` may cancel another order than the one it
filled; `RetireOutcome` has a case for each of the three ways that can end, and
the invariant survives all of them.
-/

namespace OpenHft

open OpenHft.Lib

/-- The engine's book is a book over the engine's pool. -/
abbrev EngineInv (e : MatchingEngine) (Q : Queues) (lent : List OrderPtr) : Prop :=
  PooledBook e.book e.orderPool Q lent

theorem engine_init_inv (stdHash : OrderId → Nat) :
    EngineInv (.init stdHash) (fun _ => []) [] := pooled_init stdHash

namespace EngineInv

variable {e : MatchingEngine} {Q : Queues} {lent rest : List OrderPtr} {p : OrderPtr}

/-! ### `prepareOrder` -/

/-- The order `prepareOrder` writes. -/
def newOrder (e : MatchingEngine) (accountId : AccountId) (side : Side)
    (price : Price) (quantity : Quantity) : Order :=
  { id := e.sequence + 1, accountId := accountId, side := side, price := price,
    quantity := quantity }

/-- The engine after `prepareOrder` has taken `p` from the pool. -/
def prepared (e : MatchingEngine) (p : OrderPtr) (rest : List OrderPtr) (o : Order) :
    MatchingEngine :=
  { e with
    orderPool := e.orderPool.lend p rest
    sequence := e.sequence + 1
    book := e.book.rewriteOrder p o }

@[simp] theorem prepared_self (e : MatchingEngine) (p : OrderPtr)
    (rest : List OrderPtr) (o : Order) : (prepared e p rest o).book.orders p = o :=
  ArrayOrderBook.rewriteOrder_self e.book p o

theorem prepared_of_ne (e : MatchingEngine) (rest : List OrderPtr) (o : Order)
    {q : OrderPtr} (h : q ≠ p) :
    (prepared e p rest o).book.orders q = e.book.orders q :=
  e.book.rewriteOrder_of_ne o h

theorem prepareOrder_none (hfree : e.orderPool.freeList = []) (accountId : AccountId)
    (side : Side) (price : Price) (quantity : Quantity) :
    e.prepareOrder accountId side price quantity = (none, e) := by
  rw [MatchingEngine.prepareOrder, OrderPool.acquire_none hfree]

theorem prepareOrder_some (hfree : e.orderPool.freeList = p :: rest)
    (accountId : AccountId) (side : Side) (price : Price) (quantity : Quantity) :
    e.prepareOrder accountId side price quantity =
      (some p, prepared e p rest (newOrder e accountId side price quantity)) := by
  rw [MatchingEngine.prepareOrder, OrderPool.acquire_some hfree]
  rfl

theorem prepare (h : EngineInv e Q lent) (hfree : e.orderPool.freeList = p :: rest)
    {o : Order} (ho : o.level = none) :
    EngineInv (prepared e p rest o) Q (p :: lent) :=
  (h.lend hfree).rewrite List.mem_cons_self ho

/-! ### Releasing -/

theorem releaseIfOwned_some (h : EngineInv e Q lent) (hp : e.orderPool.inUse p = true) :
    e.releaseIfOwned (some p) = { e with orderPool := e.orderPool.takeBack p } := by
  rw [MatchingEngine.releaseIfOwned, OrderPool.releaseIfOwned_some h.wf hp]

/-- An object that is not linked goes back to the pool. -/
theorem free (h : EngineInv e Q (p :: lent)) :
    EngineInv (e.releaseIfOwned (some p)) Q lent := by
  rw [h.releaseIfOwned_some ((h.inUse p).mpr (Or.inr List.mem_cons_self))]
  exact h.takeBack

end EngineInv

end OpenHft
