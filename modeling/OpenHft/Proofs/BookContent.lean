import OpenHft.Proofs.BookUpdates

/-!
# What the book holds, as data

As long as every linked order is indexed under its own id, the pointers can be
forgotten: a book is its `Content`, a queue of order data for every level, and
an operation that names an id does the same to every queue. `BookHolds` ties
the two together. Cancelling an id filters it out of the content; lowering a
quantity maps over it; adding an order appends to one queue. The last one
needs an id that no resting order has, and an index that is not full.
-/

namespace OpenHft

open OpenHft.Lib

/-- The queues of a book as the data of their orders. -/
abbrev Content := LevelPtr → List OrderData

/-- The order goes to the end of a level. -/
def Content.push (C : Content) (lv : LevelPtr) (d : OrderData) : Content :=
  Function.update C lv (C lv ++ [d])

/-- Without the order with an id. -/
def Content.remove (C : Content) (id : OrderId) : Content := fun lv =>
  (C lv).filter fun o => o.id ≠ id

/-- No order of the content has this id. -/
def Content.Fresh (C : Content) (id : OrderId) : Prop :=
  ∀ lv, ∀ o ∈ C lv, o.id ≠ id

/-- The book is well formed, knows its orders by id, and holds these. -/
structure BookHolds (b : ArrayOrderBook) (Q : Queues) (C : Content) : Prop where
  inv : BookInv b Q
  indexed : ∀ lv, ∀ p ∈ Q lv, b.orderIndex.find (b.orders p).id = some p
  content : ∀ lv, C lv = (Q lv).map fun p => (b.orders p).data

theorem init_holds (stdHash : OrderId → Nat) {orders : Heap}
    (h : ∀ p, (orders p).level = none) :
    BookHolds (.init stdHash orders) (fun _ => []) fun _ => [] where
  inv := init_inv stdHash h
  indexed := fun _ _ hp => absurd hp List.not_mem_nil
  content := fun _ => rfl

namespace BookHolds

variable {b b' : ArrayOrderBook} {Q : Queues} {C : Content} {p q : OrderPtr}
  {lv lv' : LevelPtr} {id : OrderId}

theorem mem_content (h : BookHolds b Q C) (hp : p ∈ Q lv) :
    (b.orders p).data ∈ C lv := by
  rw [h.content lv]
  exact List.mem_map_of_mem hp

theorem exists_of_mem (h : BookHolds b Q C) {o : OrderData} (ho : o ∈ C lv) :
    ∃ p ∈ Q lv, (b.orders p).data = o := by
  rw [h.content lv] at ho
  exact List.mem_map.mp ho

/-- Orders of one id are one order. -/
theorem eq_of_id (h : BookHolds b Q C) (hp : p ∈ Q lv) (hq : q ∈ Q lv')
    (heq : (b.orders q).id = (b.orders p).id) : q = p := by
  have hq' := h.indexed lv' q hq
  rw [heq, h.indexed lv p hp] at hq'
  exact (Option.some.inj hq').symm

theorem find_iff (h : BookHolds b Q C) :
    b.orderIndex.find id = some p ↔ (∃ lv, p ∈ Q lv) ∧ (b.orders p).id = id := by
  constructor
  · intro hf
    exact ⟨ArrayOrderBook.find_linked h.inv hf, (h.inv.indexed id p hf).1⟩
  · rintro ⟨⟨lv, hp⟩, rfl⟩
    exact h.indexed lv p hp

theorem find_none_iff (h : BookHolds b Q C) :
    b.orderIndex.find id = none ↔ C.Fresh id := by
  constructor
  · rintro hf lv o ho rfl
    obtain ⟨p, hp, rfl⟩ := h.exists_of_mem ho
    have hp' := h.indexed lv p hp
    rw [Order.data_id, hp'] at hf
    cases hf
  · intro hfresh
    cases hf : b.orderIndex.find id with
    | none => rfl
    | some p =>
        obtain ⟨⟨lv, hp⟩, hid⟩ := h.find_iff.mp hf
        exact absurd hid (hfresh lv _ (h.mem_content hp))

/-- Two books with the same links, where the quantities of linked orders have
changed by a rule. -/
theorem same_links (h : BookHolds b Q C) (hs : SameLinks b b')
    (g : OrderData → OrderData)
    (hg : ∀ lv, ∀ q ∈ Q lv, (b'.orders q).data = g (b.orders q).data) :
    BookHolds b' Q fun lv => (C lv).map g := by
  refine ⟨h.inv.same_links hs, fun lv q hq => ?_, fun lv => ?_⟩
  · have hid : (b'.orders q).id = (b.orders q).id := by rw [hs.orders q]
    rw [hid, hs.orderIndex]
    exact h.indexed lv q hq
  · rw [h.content lv, List.map_map]
    exact List.map_congr_left fun q hq => (hg lv q hq).symm

/-- Writes to an order that is not linked. -/
theorem modify_unlinked (h : BookHolds b Q C) (hp : (b.orders p).level = none)
    {f : Order → Order} (hf : (f (b.orders p)).level = none) :
    BookHolds { b with orders := b.orders.modify p f } Q C := by
  have hsame : ∀ lv, ∀ q ∈ Q lv, b.orders.modify p f q = b.orders q := by
    intro lv q hq
    refine Heap.modify_of_ne _ _ ?_
    rintro rfl
    exact h.inv.not_mem_of_unlinked hp lv hq
  refine ⟨h.inv.modify_unlinked hp hf, fun lv q hq => ?_, fun lv => ?_⟩
  · show b.orderIndex.find (b.orders.modify p f q).id = some q
    rw [hsame lv q hq]
    exact h.indexed lv q hq
  · rw [h.content lv]
    refine List.map_congr_left fun q hq => ?_
    show _ = (b.orders.modify p f q).data
    rw [hsame lv q hq]

theorem add (h : BookHolds b Q C) (heff : ArrayOrderBook.AddEffect b b' p lv)
    (hun : (b.orders p).level = none) (hv : ValidPrice (b.orders p).price)
    (hlv : lv = levelAt (b.orders p).side (b.orders p).price hv)
    (hfresh : C.Fresh (b.orders p).id)
    (hroom : b.orderIndex.size < defaultOrderCapacity) :
    BookHolds b' (Q.push lv p) (C.push lv (b.orders p).data) ∧
      b'.orderIndex.size = b.orderIndex.size + 1 := by
  have hnone := h.find_none_iff.mpr hfresh
  have hins : (b.orderIndex.insert (b.orders p).id p).1 = true := by
    cases hi : (b.orderIndex.insert (b.orders p).id p).1 with
    | true => rfl
    | false =>
        have := ((FixedHashMap.insert_eq_false_iff h.inv.index).mp hi).2
        omega
  have hid : ∀ q, (b'.orders q).id = (b.orders q).id := fun q =>
    congrArg OrderData.id (heff.data q)
  refine ⟨⟨heff.inv h.inv hun hv hlv, fun lv' q hq => ?_, fun lv' => ?_⟩, ?_⟩
  · rw [heff.index, FixedHashMap.find_insert h.inv.index hins, hid]
    rcases (Queues.mem_push_iff Q).mp hq with hq | ⟨_, rfl⟩
    · have hne : (b.orders q).id ≠ (b.orders p).id :=
        hfresh lv' _ (h.mem_content hq)
      rw [if_neg hne]
      exact h.indexed lv' q hq
    · rw [if_pos rfl]
  · rw [List.map_congr_left fun q _ => heff.data q]
    by_cases hlv' : lv' = lv
    · subst hlv'
      rw [Content.push, Queues.push, Function.update_self, Function.update_self,
        h.content, List.map_append]
      rfl
    · rw [Content.push, Queues.push, Function.update_of_ne hlv',
        Function.update_of_ne hlv', h.content]
  · rw [heff.index, FixedHashMap.size_insert h.inv.index hins, hnone]
    rfl

theorem drop_eq_filter (h : BookInv b Q) (hp : p ∈ Q lv) (lv' : LevelPtr) :
    Q.drop lv p lv' = (Q lv').filter fun q => q ≠ p := by
  by_cases hlv : lv' = lv
  · subst hlv
    rw [Queues.drop, Function.update_self, (h.queue lv').dll.nodup.erase_eq_filter]
    exact List.filter_congr fun q _ => by simp [bne, beq_eq_decide]
  · rw [Queues.drop, Function.update_of_ne hlv]
    refine (List.filter_eq_self.mpr fun q hq => ?_).symm
    rw [decide_eq_true_eq]
    rintro rfl
    exact h.disjoint hlv q hp hq

theorem cancel (h : BookHolds b Q C)
    (heff : ArrayOrderBook.CancelEffect b b' id p lv)
    (hf : b.orderIndex.find id = some p) (hp : p ∈ Q lv) :
    BookHolds b' (Q.drop lv p) (C.remove id) ∧
      b'.orderIndex.size + 1 = b.orderIndex.size := by
  have hid : (b.orders p).id = id := (h.find_iff.mp hf).2
  have hdata := heff.data h.inv hp
  have hids : ∀ q, (b'.orders q).id = (b.orders q).id := fun q =>
    congrArg OrderData.id (hdata q)
  refine ⟨⟨heff.inv h.inv hf hp, fun lv' q hq => ?_, fun lv' => ?_⟩, ?_⟩
  · obtain ⟨hq, hne⟩ := (ArrayOrderBook.CancelEffect.mem_drop_iff h.inv hp).mp hq
    rw [heff.index, FixedHashMap.find_erase h.inv.index, hids, if_neg]
    · exact h.indexed lv' q hq
    · exact fun heq => hne (h.eq_of_id hp hq (heq.trans hid.symm))
  · rw [List.map_congr_left fun q _ => hdata q, drop_eq_filter h.inv hp, Content.remove,
      h.content, List.filter_map]
    refine congrArg (List.map _) (List.filter_congr fun q hq => ?_)
    rw [Function.comp_apply, Order.data_id, decide_eq_decide]
    constructor
    · rintro hne rfl
      exact hne hid
    · exact fun hne heq => hne (h.eq_of_id hp hq (heq.trans hid.symm))
  · have hsize := FixedHashMap.size_erase h.inv.index id
    have hpos := FixedHashMap.size_pos h.inv.index hf
    rw [hf] at hsize
    rw [heff.index, hsize]
    simp only [Option.isSome_some, if_true]
    omega

end BookHolds

end OpenHft
