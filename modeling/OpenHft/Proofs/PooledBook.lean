import OpenHft.Proofs.BookContent
import OpenHft.Proofs.OrderPool

/-!
# A book over pooled orders

The matching engine and the market-data consumer each run a book over orders of
a pool of their own. `PooledBook b pool Q lent` is the discipline they share: the
book holds the queues `Q`, the pool is well formed, and the objects in use are
the linked ones and those in `lent`, which the owner has taken from the pool or
out of the book and is still working on. Every price the book was ever asked
about is in range. Nothing in it rests on ids being distinct.

An owner moves an object through four places: free, lent, linked, lent again and
free again. There is one lemma for each move; a call of either owner is a short
chain of moves.

`StoreHolds` adds the book's content as data, and counts: a pooled object is
free, lent, or in the index.
-/

namespace OpenHft

open OpenHft.Lib

/-- A book over a pool: in use are the orders that rest and those `lent` to the caller. -/
structure PooledBook (b : ArrayOrderBook) (pool : OrderPool) (Q : Queues)
    (lent : List OrderPtr) : Prop where
  book : BookInv b Q
  touched : ∀ price ∈ b.touched, ValidPrice price
  wf : pool.Wf
  capacity : pool.capacity = defaultOrderCapacity
  inUse : ∀ p, pool.inUse p = true ↔ (b.orders p).level ≠ none ∨ p ∈ lent
  idle : ∀ p ∈ lent, (b.orders p).level = none
  nodup : lent.Nodup

theorem pooled_init (stdHash : OrderId → Nat) :
    PooledBook (.init stdHash fun _ => default) (.init defaultOrderCapacity)
      (fun _ => []) [] where
  book := init_inv stdHash fun _ => rfl
  touched := fun _ h => absurd h List.not_mem_nil
  wf := OrderPool.init_wf _
  capacity := rfl
  inUse := fun _ => iff_of_false Bool.noConfusion (by
    rintro (h | h)
    · exact h rfl
    · cases h)
  idle := fun _ h => by cases h
  nodup := List.nodup_nil

namespace PooledBook

variable {b b' : ArrayOrderBook} {pool : OrderPool} {Q : Queues}
  {lent rest : List OrderPtr} {p q : OrderPtr} {lv : LevelPtr} {id : OrderId} {o : Order}

/-- Quantities may change freely. -/
theorem same_links (h : PooledBook b pool Q lent) (hs : SameLinks b b')
    (ht : b'.touched = b.touched) : PooledBook b' pool Q lent := by
  have hlev : ∀ p, (b'.orders p).level = (b.orders p).level := by
    intro p
    rw [hs.orders p]
  refine ⟨h.book.same_links hs, ?_, h.wf, h.capacity, ?_, ?_, h.nodup⟩
  · rw [ht]
    exact h.touched
  · intro p
    rw [hlev]
    exact h.inUse p
  · intro p hp
    rw [hlev]
    exact h.idle p hp

theorem linked_inUse (h : PooledBook b pool Q lent) (hp : p ∈ Q lv) :
    pool.inUse p = true := by
  refine (h.inUse p).mpr (Or.inl ?_)
  rw [h.book.mem_iff.mp hp]
  simp

/-- A linked object is not lent. -/
theorem ne_linked (h : PooledBook b pool Q lent) (hp : p ∈ lent) (hq : q ∈ Q lv) :
    p ≠ q := by
  rintro rfl
  exact h.book.not_mem_of_unlinked (h.idle p hp) lv hq

theorem free_not_inUse (h : PooledBook b pool Q lent) (hp : p ∈ pool.freeList) :
    (b.orders p).level = none ∧ p ∉ lent := by
  have hnot := ((h.wf.free p).mp hp).2
  have hneither : ¬ ((b.orders p).level ≠ none ∨ p ∈ lent) := by
    rw [← h.inUse p, hnot]
    exact Bool.noConfusion
  obtain ⟨hlev, hlent⟩ := not_or.mp hneither
  exact ⟨not_not.mp hlev, hlent⟩

/-- Writing all fields of a lent object. -/
theorem rewrite (h : PooledBook b pool Q lent) (hp : p ∈ lent) (ho : o.level = none) :
    PooledBook (b.rewriteOrder p o) pool Q lent := by
  have hun := h.idle p hp
  have hlev : ∀ q, ((b.rewriteOrder p o).orders q).level = (b.orders q).level := by
    intro q
    by_cases hqp : q = p
    · rw [hqp, b.rewriteOrder_self, ho, hun]
    · rw [b.rewriteOrder_of_ne o hqp]
  refine ⟨h.book.modify_unlinked hun ho, h.touched, h.wf, h.capacity, fun q => ?_,
    fun q hq => ?_, h.nodup⟩
  · rw [hlev]
    exact h.inUse q
  · rw [hlev]
    exact h.idle q hq

/-- `acquire`: from the pool to its owner. -/
theorem lend (h : PooledBook b pool Q lent) (hfree : pool.freeList = p :: rest) :
    PooledBook b (pool.lend p rest) Q (p :: lent) := by
  obtain ⟨hun, hnot⟩ := h.free_not_inUse (p := p) (by rw [hfree]; exact List.mem_cons_self)
  refine ⟨h.book, h.touched, OrderPool.lend_wf h.wf hfree, h.capacity, fun q => ?_,
    fun q hq => ?_, List.nodup_cons.mpr ⟨hnot, h.nodup⟩⟩
  · show Function.update pool.inUse p true q = true ↔ _
    rw [List.mem_cons]
    by_cases hqp : q = p
    · subst hqp
      rw [Function.update_self]
      exact iff_of_true rfl (Or.inr (Or.inl rfl))
    · rw [Function.update_of_ne hqp, h.inUse q]
      simp [hqp]
  · rcases List.mem_cons.mp hq with rfl | hq
    · exact hun
    · exact h.idle q hq

/-- `release`: from its owner to the pool. -/
theorem takeBack (h : PooledBook b pool Q (p :: lent)) :
    PooledBook b (pool.takeBack p) Q lent := by
  have hin : pool.inUse p = true := (h.inUse p).mpr (Or.inr List.mem_cons_self)
  have hun := h.idle p List.mem_cons_self
  obtain ⟨hnot, hnodup⟩ := List.nodup_cons.mp h.nodup
  refine ⟨h.book, h.touched, OrderPool.takeBack_wf h.wf hin, h.capacity, fun q => ?_,
    fun q hq => h.idle q (List.mem_cons_of_mem p hq), hnodup⟩
  show Function.update pool.inUse p false q = true ↔ _
  by_cases hqp : q = p
  · subst hqp
    rw [Function.update_self]
    refine iff_of_false Bool.noConfusion ?_
    rintro (hne | hq)
    · exact hne hun
    · exact hnot hq
  · rw [Function.update_of_ne hqp, h.inUse q, List.mem_cons]
    simp [hqp]

/-- `addOrder`: from its owner into the book. -/
theorem add_effect (h : PooledBook b pool Q (p :: lent)) {hv : ValidPrice o.price}
    (heff : ArrayOrderBook.AddEffect b b' p (levelAt o.side o.price hv))
    (ho : b.orders p = o) :
    PooledBook b' pool (Q.push (levelAt o.side o.price hv) p) lent := by
  subst ho
  have hun := h.idle p List.mem_cons_self
  obtain ⟨hnot, hnodup⟩ := List.nodup_cons.mp h.nodup
  refine ⟨heff.inv h.book hun hv rfl, ?_, h.wf, h.capacity, ?_, ?_, hnodup⟩
  · intro price hprice
    rcases heff.touched price hprice with hp | hp
    · rw [hp]
      exact hv
    · exact h.touched price hp
  · intro q
    rw [h.inUse q, heff.orderLevel, List.mem_cons]
    by_cases hqp : q = p
    · simp [hqp]
    · simp [hqp]
  · intro q hq
    rw [heff.orderLevel, if_neg]
    · exact h.idle q (List.mem_cons_of_mem p hq)
    · rintro rfl
      exact hnot hq

theorem add (h : PooledBook b pool Q (p :: lent)) (ho : b.orders p = o)
    (hv : ValidPrice o.price) :
    ∃ b', b.addOrder p = .ok b' ∧
      ArrayOrderBook.AddEffect b b' p (levelAt o.side o.price hv) ∧
      PooledBook b' pool (Q.push (levelAt o.side o.price hv) p) lent := by
  obtain ⟨b', hok, heff⟩ := ArrayOrderBook.addOrder_effect ho hv
  exact ⟨b', hok, heff, h.add_effect heff ho⟩

/-- `cancelOrder`: out of the book to its owner. -/
theorem cancel (h : PooledBook b pool Q lent)
    (heff : ArrayOrderBook.CancelEffect b b' id p lv)
    (hf : b.orderIndex.find id = some p) (hp : p ∈ Q lv) :
    PooledBook b' pool (Q.drop lv p) (p :: lent) := by
  have hlev := heff.orderLevel h.book hp
  have hin := h.linked_inUse hp
  have hnot : p ∉ lent := fun hmem => h.ne_linked hmem hp rfl
  refine ⟨heff.inv h.book hf hp, ?_, h.wf, h.capacity, fun q => ?_, fun q hq => ?_,
    List.nodup_cons.mpr ⟨hnot, h.nodup⟩⟩
  · intro price hprice
    rcases heff.touched price hprice with hprice | hprice
    · rw [hprice]
      exact h.book.validPrice hp
    · exact h.touched price hprice
  · rw [hlev, List.mem_cons]
    by_cases hqp : q = p
    · subst hqp
      exact iff_of_true hin (Or.inr (Or.inl rfl))
    · rw [if_neg hqp, h.inUse q]
      simp [hqp]
  · rw [hlev]
    split
    · rfl
    · next hqp =>
        exact h.idle q ((List.mem_cons.mp hq).resolve_left hqp)

/-- `cancelOrder` and `releaseIfOwned`: out of the book and back to the pool. -/
theorem retire (h : PooledBook b pool Q lent)
    (heff : ArrayOrderBook.CancelEffect b b' id p lv)
    (hf : b.orderIndex.find id = some p) (hp : p ∈ Q lv) :
    PooledBook b' (pool.releaseIfOwned (some p)) (Q.drop lv p) lent := by
  rw [OrderPool.releaseIfOwned_some h.wf (h.linked_inUse hp)]
  exact (h.cancel heff hf hp).takeBack

end PooledBook

/-- A pooled book in which every linked order is indexed, with its content. -/
structure StoreHolds (b : ArrayOrderBook) (pool : OrderPool) (Q : Queues)
    (lent : List OrderPtr) (C : Content) : Prop where
  pooled : PooledBook b pool Q lent
  holds : BookHolds b Q C
  room : pool.freeList.length + b.orderIndex.size + lent.length = defaultOrderCapacity

theorem store_init (stdHash : OrderId → Nat) :
    StoreHolds (.init stdHash fun _ => default) (.init defaultOrderCapacity)
      (fun _ => []) [] fun _ => [] where
  pooled := pooled_init stdHash
  holds := init_holds stdHash fun _ => rfl
  room := by
    show (OrderPool.freshList defaultOrderCapacity).length + 0 + 0 = _
    rw [OrderPool.length_freshList, Nat.add_zero]

namespace StoreHolds

variable {b b' : ArrayOrderBook} {pool : OrderPool} {Q : Queues}
  {lent rest : List OrderPtr} {C : Content} {p : OrderPtr} {lv : LevelPtr}
  {id : OrderId} {o : Order}

theorem same_links (h : StoreHolds b pool Q lent C) (hs : SameLinks b b')
    (ht : b'.touched = b.touched) (g : OrderData → OrderData)
    (hg : ∀ lv, ∀ q ∈ Q lv, (b'.orders q).data = g (b.orders q).data) :
    StoreHolds b' pool Q lent fun lv => (C lv).map g := by
  refine ⟨h.pooled.same_links hs ht, h.holds.same_links hs g hg, ?_⟩
  rw [hs.orderIndex]
  exact h.room

theorem rewrite (h : StoreHolds b pool Q lent C) (hp : p ∈ lent) (ho : o.level = none) :
    StoreHolds (b.rewriteOrder p o) pool Q lent C :=
  ⟨h.pooled.rewrite hp ho, h.holds.modify_unlinked (h.pooled.idle p hp) ho, h.room⟩

theorem lend (h : StoreHolds b pool Q lent C) (hfree : pool.freeList = p :: rest) :
    StoreHolds b (pool.lend p rest) Q (p :: lent) C := by
  refine ⟨h.pooled.lend hfree, h.holds, ?_⟩
  have hroom := h.room
  rw [hfree, List.length_cons] at hroom
  show rest.length + b.orderIndex.size + (p :: lent).length = _
  rw [List.length_cons]
  omega

theorem takeBack (h : StoreHolds b pool Q (p :: lent) C) :
    StoreHolds b (pool.takeBack p) Q lent C := by
  refine ⟨h.pooled.takeBack, h.holds, ?_⟩
  have hroom := h.room
  rw [List.length_cons] at hroom
  show (p :: pool.freeList).length + b.orderIndex.size + lent.length = _
  rw [List.length_cons]
  omega

theorem add_effect (h : StoreHolds b pool Q (p :: lent) C) {hv : ValidPrice o.price}
    (heff : ArrayOrderBook.AddEffect b b' p (levelAt o.side o.price hv))
    (ho : b.orders p = o) (hfresh : C.Fresh o.id) :
    StoreHolds b' pool (Q.push (levelAt o.side o.price hv) p) lent
        (C.push (levelAt o.side o.price hv) o.data) ∧
      b'.orderIndex.size = b.orderIndex.size + 1 := by
  subst ho
  have hroom := h.room
  rw [List.length_cons] at hroom
  obtain ⟨hholds, hsize⟩ := h.holds.add heff (h.pooled.idle p List.mem_cons_self) hv rfl
    hfresh (by omega)
  exact ⟨⟨h.pooled.add_effect heff rfl, hholds, by omega⟩, hsize⟩

theorem add (h : StoreHolds b pool Q (p :: lent) C) (ho : b.orders p = o)
    (hv : ValidPrice o.price) (hfresh : C.Fresh o.id) :
    ∃ b', b.addOrder p = .ok b' ∧
      StoreHolds b' pool (Q.push (levelAt o.side o.price hv) p) lent
        (C.push (levelAt o.side o.price hv) o.data) ∧
      b'.orderIndex.size = b.orderIndex.size + 1 := by
  obtain ⟨b', hok, heff⟩ := ArrayOrderBook.addOrder_effect ho hv
  exact ⟨b', hok, h.add_effect heff ho hfresh⟩

theorem cancel (h : StoreHolds b pool Q lent C)
    (heff : ArrayOrderBook.CancelEffect b b' id p lv)
    (hf : b.orderIndex.find id = some p) (hp : p ∈ Q lv) :
    StoreHolds b' pool (Q.drop lv p) (p :: lent) (C.remove id) ∧
      b'.orderIndex.size + 1 = b.orderIndex.size := by
  obtain ⟨hholds, hsize⟩ := h.holds.cancel heff hf hp
  have hroom := h.room
  refine ⟨⟨h.pooled.cancel heff hf hp, hholds, ?_⟩, hsize⟩
  rw [List.length_cons]
  omega

theorem retire (h : StoreHolds b pool Q lent C)
    (heff : ArrayOrderBook.CancelEffect b b' id p lv)
    (hf : b.orderIndex.find id = some p) (hp : p ∈ Q lv) :
    StoreHolds b' (pool.releaseIfOwned (some p)) (Q.drop lv p) lent (C.remove id) ∧
      b'.orderIndex.size + 1 = b.orderIndex.size := by
  obtain ⟨hstore, hsize⟩ := h.cancel heff hf hp
  rw [OrderPool.releaseIfOwned_some h.pooled.wf (h.pooled.linked_inUse hp)]
  exact ⟨hstore.takeBack, hsize⟩

/-- The pool is empty exactly if all its objects are in the book. -/
theorem free_nil_iff (h : StoreHolds b pool Q [] C) :
    pool.freeList = [] ↔ b.orderIndex.size = defaultOrderCapacity := by
  have hroom := h.room
  rw [List.length_nil, Nat.add_zero] at hroom
  rw [← List.length_eq_zero_iff]
  omega

end StoreHolds

end OpenHft
