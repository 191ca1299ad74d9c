import OpenHft.Proofs.BookInvariant

/-!
# `addOrder` and `cancelOrder` keep the book

The effect of each operation is stated field by field, under the source's own
case distinctions, and the invariant is rebuilt from the effect. Both
operations change one queue: `addOrder` appends an unlinked order to the level
its side and price name, `cancelOrder` takes one order out of the queue it
stands in. Neither can fault on a book that satisfies the invariant, provided
the price of an added order is in range.
-/

namespace OpenHft

open OpenHft.Lib

namespace ArrayOrderBook

variable {b b' : ArrayOrderBook} {Q : Queues} {p : OrderPtr} {lv : LevelPtr}

/-! ## `addOrder` -/

/-- What `addOrder p` does to a book in which `p` belongs on level `lv`. -/
structure AddEffect (b b' : ArrayOrderBook) (p : OrderPtr) (lv : LevelPtr) :
    Prop where
  orders : b'.orders = ((b.levels lv).pushBack lv b.orders p).1
  level : b'.levels lv =
    { ((b.levels lv).pushBack lv b.orders p).2 with
      price := if (b.levels lv).empty = true then (b.orders p).price
        else (b.levels lv).price }
  levels : ∀ lv', lv' ≠ lv → b'.levels lv' = b.levels lv'
  bit : ∀ i, bitAt (b'.bitmap lv.side) i =
    ((decide (i = lv.index.val) && (b.levels lv).empty) ||
      bitAt (b.bitmap lv.side) i)
  bits : ∀ side, side ≠ lv.side → b'.bitmap side = b.bitmap side
  best : b'.best = Function.update b.best lv.side
    (if b.best lv.side = 0 ∨
        improves lv.side (b.orders p).price (b.best lv.side) = true
      then (b.orders p).price else b.best lv.side)
  index : b'.orderIndex = (b.orderIndex.insert (b.orders p).id p).2
  touched : ∀ price ∈ b'.touched,
    price = (b.orders p).price ∨ price ∈ b.touched

theorem activateLevel_ok (o : Order) (hv : ValidPrice o.price) :
    ∃ bitmap : Bitmap, ∃ touched : List Price,
      b.activateLevel o (levelAt o.side o.price hv) =
        .ok { b with
          levels := Function.update b.levels (levelAt o.side o.price hv)
            { b.levels (levelAt o.side o.price hv) with
              price :=
                if (b.levels (levelAt o.side o.price hv)).empty = true then
                  o.price
                else (b.levels (levelAt o.side o.price hv)).price }
          bitmap := Function.update b.bitmap o.side bitmap
          touched := touched } ∧
      (∀ i, bitAt bitmap i =
        ((decide (i = priceToIndex o.price) &&
            (b.levels (levelAt o.side o.price hv)).empty) ||
          bitAt (b.bitmap o.side) i)) ∧
      ∀ price ∈ touched, price = o.price ∨ price ∈ b.touched := by
  rw [activateLevel]
  split
  · next hempty =>
      obtain ⟨bitmap, hset, hbits⟩ := setLevelActive_ok hv (b.bitmap o.side)
      refine ⟨bitmap, o.price :: b.touched, ?_, ?_, ?_⟩
      · show (setLevelActive (b.bitmap o.side) o.price >>= fun bitmap => _) = _
        rw [hset]
        rfl
      · intro i
        rw [hbits, hempty, Bool.and_true]
      · intro price hprice
        exact List.mem_cons.mp hprice
  · next hempty =>
      refine ⟨b.bitmap o.side, b.touched, ?_, ?_, fun _ h => Or.inr h⟩
      · rw [Function.update_eq_self, Function.update_eq_self]
      · intro i
        rw [Bool.not_eq_true] at hempty
        rw [hempty, Bool.and_false, Bool.false_or]

theorem raiseBest_eq (b : ArrayOrderBook) (side : Side) (price : Price) :
    b.raiseBest side price =
      { b with
        best := Function.update b.best side
          (if b.best side = 0 ∨ improves side price (b.best side) = true
            then price else b.best side) } := by
  rw [raiseBest]
  split
  · rfl
  · rw [Function.update_eq_self]

theorem addOrder_effect {o : Order} (ho : b.orders p = o)
    (hv : ValidPrice o.price) :
    ∃ b', b.addOrder p = .ok b' ∧
      AddEffect b b' p (levelAt o.side o.price hv) := by
  subst ho
  obtain ⟨bitmap, touched, hact, hbits, htouched⟩ :=
    activateLevel_ok (b := b.touch (b.orders p).price) (b.orders p) hv
  rw [addOrder, getLevel_ok hv]
  simp only [bind, Except.bind]
  rw [hact]
  refine ⟨_, rfl, ?_⟩
  rw [raiseBest_eq]
  refine ⟨?_, ?_, ?_, ?_, ?_, rfl, rfl, ?_⟩
  · simp only [pushBackLevel, Function.update_self]
    rfl
  · simp only [pushBackLevel, Function.update_self]
    rfl
  · intro lv' hne
    simp only [pushBackLevel, Function.update_of_ne hne]
    rfl
  · intro i
    show bitAt (Function.update b.bitmap (b.orders p).side bitmap
      (b.orders p).side) i = _
    rw [Function.update_self]
    exact hbits i
  · intro side hne
    simp only [pushBackLevel]
    exact Function.update_of_ne hne _ _
  · intro price hprice
    rcases htouched price hprice with h | h
    · exact Or.inl h
    · exact List.mem_cons.mp h

end ArrayOrderBook

/-- The queues after an order has been appended to one of them. -/
def Queues.push (Q : Queues) (lv : LevelPtr) (p : OrderPtr) : Queues :=
  Function.update Q lv (Q lv ++ [p])

theorem Queues.push_ne_nil_iff (Q : Queues) (lv lv' : LevelPtr) (p : OrderPtr) :
    Q.push lv p lv' ≠ [] ↔ lv' = lv ∨ Q lv' ≠ [] := by
  by_cases h : lv' = lv
  · subst h; simp [Queues.push]
  · simp [Queues.push, h]

theorem Queues.mem_push_iff (Q : Queues) {lv lv' : LevelPtr} {p q : OrderPtr} :
    q ∈ Q.push lv p lv' ↔ q ∈ Q lv' ∨ (lv' = lv ∧ q = p) := by
  by_cases h : lv' = lv
  · subst h; simp [Queues.push]
  · simp [Queues.push, h]

/-- The bit of a level of side `side`, as an index of that side's bitmap. -/
theorem levelPtr_eq_iff {lv : LevelPtr} {side : Side} {i : Nat}
    (h : i < maxPriceLevels) :
    (⟨side, ⟨i, h⟩⟩ : LevelPtr) = lv ↔ side = lv.side ∧ i = lv.index.val := by
  cases lv with
  | mk side' index => simp [Fin.ext_iff]

namespace ArrayOrderBook.AddEffect

variable {b b' : ArrayOrderBook} {Q : Queues} {p : OrderPtr} {lv : LevelPtr}

theorem data (h : AddEffect b b' p lv) (q : OrderPtr) :
    (b'.orders q).data = (b.orders q).data := by
  rw [h.orders, PriceLevel.pushBack_data]

theorem orderLevel (h : AddEffect b b' p lv) (q : OrderPtr) :
    (b'.orders q).level = if q = p then some lv else (b.orders q).level := by
  rw [h.orders, PriceLevel.pushBack_level]

/-! The clauses of the invariant, one by one. -/

theorem queue_inv (h : AddEffect b b' p lv) (hb : BookInv b Q)
    (hun : (b.orders p).level = none) (lv' : LevelPtr) :
    IsQueue b'.orders (b'.levels lv') lv' (Q.push lv p lv') := by
  have hnot := hb.not_mem_of_unlinked hun
  by_cases hlv' : lv' = lv
  · subst hlv'
    rw [Queues.push, Function.update_self, h.orders, h.level]
    have hpush := PriceLevel.pushBack_queue (hb.queue lv') (hnot lv')
    exact ⟨hpush.dll, hpush.level⟩
  · rw [Queues.push, Function.update_of_ne hlv', h.orders, h.levels _ hlv']
    exact PriceLevel.pushBack_frame (hb.queue lv) (hb.queue lv') (hnot lv')
      (hb.disjoint hlv')

theorem linked_inv (h : AddEffect b b' p lv) (hb : BookInv b Q) {q : OrderPtr}
    {lv' : LevelPtr} (hq : (b'.orders q).level = some lv') : q ∈ Q.push lv p lv' := by
  rw [h.orderLevel] at hq
  rw [Queues.mem_push_iff]
  split at hq
  · next hqp => exact Or.inr ⟨(Option.some.inj hq).symm, hqp⟩
  · exact Or.inl (hb.linked q lv' hq)

theorem placed_inv (h : AddEffect b b' p lv) (hb : BookInv b Q)
    (hp : (b.orders p).side = lv.side ∧ priceToIndex (b.orders p).price = lv.index.val)
    {q : OrderPtr} {lv' : LevelPtr} (hq : q ∈ Q.push lv p lv') :
    (b'.orders q).side = lv'.side ∧ priceToIndex (b'.orders q).price = lv'.index.val := by
  rw [← Order.data_side, ← Order.data_price, h.data q, Order.data_side, Order.data_price]
  rcases (Queues.mem_push_iff Q).mp hq with hq | ⟨rfl, rfl⟩
  · exact hb.placed lv' q hq
  · exact hp

theorem price_inv (h : AddEffect b b' p lv) (hb : BookInv b Q)
    (hprice : priceToIndex (b.orders p).price = lv.index.val) {lv' : LevelPtr}
    (hne : Q.push lv p lv' ≠ []) : priceToIndex (b'.levels lv').price = lv'.index.val := by
  by_cases hlv' : lv' = lv
  · subst hlv'
    rw [h.level]
    show priceToIndex (if _ then _ else _) = _
    split
    · exact hprice
    · next hne' => exact hb.price lv' fun e => hne' ((hb.queue lv').empty_iff.mpr e)
  · rw [h.levels _ hlv']
    refine hb.price lv' ?_
    exact ((Queues.push_ne_nil_iff Q lv lv' p).mp hne).resolve_left hlv'

theorem bits_inv (h : AddEffect b b' p lv) (hb : BookInv b Q) (side : Side) (i : Nat) :
    bitAt (b'.bitmap side) i = true ↔
      ∃ hi : i < maxPriceLevels, Q.push lv p ⟨side, ⟨i, hi⟩⟩ ≠ [] := by
  by_cases hs : side = lv.side
  · subst hs
    rw [h.bit, Bool.or_eq_true, Bool.and_eq_true, decide_eq_true_eq, hb.bits]
    constructor
    · rintro (⟨rfl, _⟩ | ⟨hlt, hne⟩)
      · exact ⟨lv.index.isLt, (Queues.push_ne_nil_iff Q lv _ p).mpr (Or.inl rfl)⟩
      · exact ⟨hlt, (Queues.push_ne_nil_iff Q lv _ p).mpr (Or.inr hne)⟩
    · rintro ⟨hlt, hne⟩
      by_cases hQ : Q ⟨lv.side, ⟨i, hlt⟩⟩ = []
      · have heq := ((Queues.push_ne_nil_iff Q lv _ p).mp hne).resolve_right
          (not_not.mpr hQ)
        rw [heq] at hQ
        exact Or.inl ⟨((levelPtr_eq_iff hlt).mp heq).2, (hb.queue lv).empty_iff.mpr hQ⟩
      · exact Or.inr ⟨hlt, hQ⟩
  · rw [h.bits side hs, hb.bits]
    refine exists_congr fun hlt => ?_
    rw [Queues.push_ne_nil_iff]
    refine ⟨Or.inr, fun hor => hor.resolve_left fun e => ?_⟩
    exact hs ((levelPtr_eq_iff hlt).mp e).1

theorem best_inv (h : AddEffect b b' p lv) (hb : BookInv b Q)
    (hv : ValidPrice (b.orders p).price)
    (hprice : priceToIndex (b.orders p).price = lv.index.val) (side : Side) :
    IsBest side (bitAt (b'.bitmap side)) (b'.best side) := by
  rw [h.best]
  by_cases hs : side = lv.side
  · subst hs
    rw [Function.update_self]
    refine (hb.best lv.side).add (hb.best_zero_or_valid lv.side) hv fun i => ?_
    -- a level that already had orders had its bit set
    rw [h.bit, hprice]
    by_cases hi : i = lv.index.val
    · subst hi
      cases hE : (b.levels lv).empty with
      | true => simp
      | false =>
          have hne : Q lv ≠ [] := fun e => by
            rw [(hb.queue lv).empty_iff.mpr e] at hE
            cases hE
          rw [(hb.bits lv.side lv.index.val).mpr ⟨lv.index.isLt, hne⟩]
          simp
    · simp [hi]
  · rw [Function.update_of_ne hs, h.bits side hs]
    exact hb.best side

theorem indexed_inv (h : AddEffect b b' p lv) (hb : BookInv b Q) {id : OrderId}
    {q : OrderPtr} (hq : b'.orderIndex.find id = some q) :
    (b'.orders q).id = id ∧ (b'.orders q).level ≠ none := by
  have hqid : (b'.orders q).id = (b.orders q).id := congrArg OrderData.id (h.data q)
  rw [hqid, h.orderLevel]
  rw [h.index] at hq
  have hold : b.orderIndex.find id = some q → (b.orders q).id = id ∧
      (if q = p then some lv else (b.orders q).level) ≠ none := by
    intro hf
    obtain ⟨hid, hne⟩ := hb.indexed id q hf
    refine ⟨hid, ?_⟩
    split
    · simp
    · exact hne
  cases hins : (b.orderIndex.insert (b.orders p).id p).1 with
  | false =>
      rw [FixedHashMap.insert_of_false hb.index hins] at hq
      exact hold hq
  | true =>
      rw [FixedHashMap.find_insert hb.index hins] at hq
      split at hq
      · next hid =>
          cases hq
          exact ⟨hid.symm, by simp⟩
      · exact hold hq

theorem inv (h : AddEffect b b' p lv) (hb : BookInv b Q)
    (hun : (b.orders p).level = none) (hv : ValidPrice (b.orders p).price)
    (hlv : lv = levelAt (b.orders p).side (b.orders p).price hv) :
    BookInv b' (Q.push lv p) := by
  have hside : (b.orders p).side = lv.side := by rw [hlv]; rfl
  have hprice : priceToIndex (b.orders p).price = lv.index.val := by
    rw [hlv]; rfl
  refine ⟨h.queue_inv hb hun, fun q lv' => h.linked_inv hb,
    fun lv' q => h.placed_inv hb ⟨hside, hprice⟩, fun lv' hne => ?_,
    fun lv' => h.price_inv hb hprice, h.bits_inv hb, h.best_inv hb hv hprice, ?_,
    fun id q => h.indexed_inv hb⟩
  · rcases (Queues.push_ne_nil_iff Q lv lv' p).mp hne with rfl | hne
    · rw [← hprice]
      exact hv.index_pos
    · exact hb.positive lv' hne
  · rw [h.index]
    exact FixedHashMap.insert_wf hb.index _ _

end ArrayOrderBook.AddEffect

/-! ## `cancelOrder` -/

namespace ArrayOrderBook

variable {b b' : ArrayOrderBook} {Q : Queues} {p : OrderPtr} {lv : LevelPtr}

/-- What `cancelOrder id` does to a book in which `id` is found to be `p`,
standing on level `lv`. -/
structure CancelEffect (b b' : ArrayOrderBook) (id : OrderId) (p : OrderPtr)
    (lv : LevelPtr) : Prop where
  orders : b'.orders = ((b.levels lv).remove b.orders (some p)).1
  level : b'.levels lv = ((b.levels lv).remove b.orders (some p)).2
  levels : ∀ lv', lv' ≠ lv → b'.levels lv' = b.levels lv'
  bit : ∀ i, bitAt (b'.bitmap lv.side) i =
    (!(decide (i = lv.index.val) &&
        ((b.levels lv).remove b.orders (some p)).2.empty) &&
      bitAt (b.bitmap lv.side) i)
  bits : ∀ side, side ≠ lv.side → b'.bitmap side = b.bitmap side
  best : IsBest lv.side (bitAt (b'.bitmap lv.side)) (b'.best lv.side)
  bests : ∀ side, side ≠ lv.side → b'.best side = b.best side
  index : b'.orderIndex = (b.orderIndex.erase id).2
  touched : ∀ price ∈ b'.touched,
    price = (b.orders p).price ∨ price ∈ b.touched

/-- The index range of the set bits, as the search lemmas want it. -/
theorem bit_range (hb : BookInv b Q) (side : Side) (i : Nat)
    (h : bitAt (b.bitmap side) i = true) : 0 < i ∧ i < 2 ^ 64 := by
  obtain ⟨hlt, hne⟩ := (hb.bits side i).mp h
  have hpos := hb.positive _ hne
  rw [maxPriceLevels] at hlt
  exact ⟨hpos, by omega⟩

/-- Emptying a level: its bit goes, and the best price moves on if it was
this one. -/
theorem deactivateLevel_ok {c : ArrayOrderBook} {o : Order}
    (hv : ValidPrice o.price)
    (hbest : IsBest o.side (bitAt (c.bitmap o.side)) (c.best o.side))
    (hrange : ∀ i, bitAt (c.bitmap o.side) i = true → 0 < i ∧ i < 2 ^ 64) :
    ∃ bitmap : Bitmap, ∃ best : Price,
      c.deactivateLevel o = .ok { c with
        bitmap := Function.update c.bitmap o.side bitmap
        best := Function.update c.best o.side best
        touched := o.price :: c.touched } ∧
      (∀ i, bitAt bitmap i =
        (!decide (i = priceToIndex o.price) && bitAt (c.bitmap o.side) i)) ∧
      IsBest o.side (bitAt bitmap) best := by
  obtain ⟨bitmap, hclear, hbits⟩ := clearLevelActive_ok hv (c.bitmap o.side)
  simp only [deactivateLevel, touch, hclear, bind, Except.bind]
  by_cases hb : o.price = c.best o.side
  · have hvb : ValidPrice (c.best o.side) := hb ▸ hv
    cases hside : o.side with
    | buy =>
        rw [hside] at hb hvb hbest hrange hbits
        rw [hb] at hbits ⊢
        simp only [if_pos]
        obtain ⟨found, hfound, hok⟩ := refreshBestBid_ok
          (b := { c with
            bitmap := Function.update c.bitmap .buy bitmap
            touched := c.best .buy :: c.touched }) hvb
        simp only [Function.update_self] at hfound
        refine ⟨bitmap, foundPrice found, hok, hbits, ?_⟩
        exact hbest.clear_bid hvb.ne_zero hrange hbits hfound
    | sell =>
        rw [hside] at hb hvb hbest hrange hbits
        rw [hb] at hbits ⊢
        simp only [if_pos]
        obtain ⟨found, hfound, hok⟩ := refreshBestAsk_ok
          (b := { c with
            bitmap := Function.update c.bitmap .sell bitmap
            touched := c.best .sell :: c.touched }) hvb
        simp only [Function.update_self] at hfound
        refine ⟨bitmap, foundPrice found, hok, hbits, ?_⟩
        exact hbest.clear_ask hvb.ne_zero hrange hbits hfound
  · refine ⟨bitmap, c.best o.side, ?_, hbits, ?_⟩
    · rw [Function.update_eq_self]
      cases hside : o.side with
      | buy => rw [hside] at hb; exact if_neg hb
      | sell => rw [hside] at hb; exact if_neg hb
    · exact hbest.clear_other (fun e => hb (priceToIndex_inj e.symm)) hbits

theorem cancelOrder_none {id : OrderId} (h : b.orderIndex.find id = none) :
    b.cancelOrder id = .ok (none, b) := by
  rw [cancelOrder, h]

theorem cancelOrder_effect (hb : BookInv b Q) {id : OrderId}
    (hf : b.orderIndex.find id = some p) (hp : p ∈ Q lv) :
    ∃ b', b.cancelOrder id = .ok (some p, b') ∧ CancelEffect b b' id p lv := by
  have hlevel := (hb.queue lv).level p hp
  have hself := ((hb.queue lv).not_self hp).1
  obtain ⟨hside, hprice⟩ := hb.placed lv p hp
  have hdata : ((b.removeLevel lv p).orders p).data = (b.orders p).data :=
    PriceLevel.remove_data p hself
  have hside' : ((b.removeLevel lv p).orders p).side = lv.side :=
    (congrArg OrderData.side hdata).trans hside
  have hprice' : ((b.removeLevel lv p).orders p).price = (b.orders p).price :=
    congrArg OrderData.price hdata
  have hlvl : (b.removeLevel lv p).levels lv =
      ((b.levels lv).remove b.orders (some p)).2 := Function.update_self _ _ _
  simp only [cancelOrder, hf, hlevel, bind, Except.bind]
  split
  · next hempty =>
      rw [hlvl] at hempty
      obtain ⟨bitmap, best, hok, hbits, hbest⟩ := deactivateLevel_ok
        (c := b.removeLevel lv p) (o := (b.removeLevel lv p).orders p)
        (hprice'.symm ▸ hb.validPrice hp) (by rw [hside']; exact hb.best lv.side)
        (by rw [hside']; exact bit_range hb lv.side)
      rw [hok]
      rw [hside'] at hbits hbest ⊢
      refine ⟨_, rfl, rfl, hlvl, ?_, ?_, ?_, ?_, ?_, rfl, ?_⟩
      · exact fun lv' hne => Function.update_of_ne hne _ _
      · intro i
        show bitAt (Function.update b.bitmap lv.side bitmap lv.side) i = _
        rw [Function.update_self, hbits i, hempty, Bool.and_true, hprice', hprice]
        rfl
      · exact fun side hne => Function.update_of_ne hne _ _
      · show IsBest lv.side (bitAt (Function.update b.bitmap lv.side bitmap
          lv.side)) (Function.update b.best lv.side best lv.side)
        rw [Function.update_self, Function.update_self]
        exact hbest
      · exact fun side hne => Function.update_of_ne hne _ _
      · intro price hmem
        rcases List.mem_cons.mp hmem with h | h
        · exact Or.inl (h.trans hprice')
        · exact Or.inr h
  · next hempty =>
      rw [hlvl, Bool.not_eq_true] at hempty
      refine ⟨_, rfl, rfl, hlvl, ?_, ?_, fun _ _ => rfl, hb.best lv.side,
        fun _ _ => rfl, rfl, fun _ h => Or.inr h⟩
      · exact fun lv' hne => Function.update_of_ne hne _ _
      · intro i
        rw [hempty, Bool.and_false, Bool.not_false, Bool.true_and]
        rfl

end ArrayOrderBook

/-- The queues after an order has been taken out of one of them. -/
def Queues.drop (Q : Queues) (lv : LevelPtr) (p : OrderPtr) : Queues :=
  Function.update Q lv ((Q lv).erase p)

namespace ArrayOrderBook.CancelEffect

variable {b b' : ArrayOrderBook} {Q : Queues} {p : OrderPtr} {lv : LevelPtr}
  {id : OrderId}

theorem data (h : CancelEffect b b' id p lv) (hb : BookInv b Q) (hp : p ∈ Q lv)
    (q : OrderPtr) : (b'.orders q).data = (b.orders q).data := by
  rw [h.orders, PriceLevel.remove_data q ((hb.queue lv).not_self hp).1]

theorem orderLevel (h : CancelEffect b b' id p lv) (hb : BookInv b Q)
    (hp : p ∈ Q lv) (q : OrderPtr) :
    (b'.orders q).level = if q = p then none else (b.orders q).level := by
  rw [h.orders, PriceLevel.remove_level q ((hb.queue lv).not_self hp).1]

theorem mem_drop_iff (hb : BookInv b Q) (hp : p ∈ Q lv) {q : OrderPtr}
    {lv' : LevelPtr} : q ∈ Q.drop lv p lv' ↔ q ∈ Q lv' ∧ q ≠ p := by
  by_cases hlv : lv' = lv
  · subst hlv
    rw [Queues.drop, Function.update_self,
      ((hb.queue lv').dll.nodup).mem_erase_iff]
    exact and_comm
  · rw [Queues.drop, Function.update_of_ne hlv]
    refine ⟨fun hq => ⟨hq, fun e => ?_⟩, fun hq => hq.1⟩
    subst e
    exact hb.disjoint hlv q hp hq

theorem removed_queue (hb : BookInv b Q) (hp : p ∈ Q lv) :
    IsQueue ((b.levels lv).remove b.orders (some p)).1
      ((b.levels lv).remove b.orders (some p)).2 lv ((Q lv).erase p) := by
  obtain ⟨xs, ys, hsplit⟩ := List.append_of_mem hp
  have hnd := (hb.queue lv).dll.nodup
  have hq := hb.queue lv
  rw [hsplit] at hnd hq ⊢
  have hpx : p ∉ xs := fun hmem =>
    (List.nodup_append.mp hnd).2.2 p hmem p (by simp) rfl
  rw [List.erase_append_right _ hpx, List.erase_cons_head]
  exact PriceLevel.remove_queue hq

theorem drop_ne_nil (hb : BookInv b Q) (hp : p ∈ Q lv) {lv' : LevelPtr}
    (hne : Q.drop lv p lv' ≠ []) : Q lv' ≠ [] := by
  obtain ⟨q, hq⟩ := List.exists_mem_of_ne_nil _ hne
  exact List.ne_nil_of_mem ((mem_drop_iff hb hp).mp hq).1

theorem removed_empty_iff (hb : BookInv b Q) (hp : p ∈ Q lv) :
    ((b.levels lv).remove b.orders (some p)).2.empty = true ↔ Q.drop lv p lv = [] := by
  rw [Queues.drop, Function.update_self]
  exact (removed_queue hb hp).empty_iff

/-! The clauses of the invariant, one by one. -/

theorem queue_inv (h : CancelEffect b b' id p lv) (hb : BookInv b Q) (hp : p ∈ Q lv)
    (lv' : LevelPtr) : IsQueue b'.orders (b'.levels lv') lv' (Q.drop lv p lv') := by
  by_cases hlv' : lv' = lv
  · subst hlv'
    rw [Queues.drop, Function.update_self, h.orders, h.level]
    exact removed_queue hb hp
  · rw [Queues.drop, Function.update_of_ne hlv', h.orders, h.levels _ hlv']
    exact PriceLevel.remove_frame (hb.queue lv) hp (hb.queue lv') (hb.disjoint hlv')

theorem linked_inv (h : CancelEffect b b' id p lv) (hb : BookInv b Q) (hp : p ∈ Q lv)
    {q : OrderPtr} {lv' : LevelPtr} (hq : (b'.orders q).level = some lv') :
    q ∈ Q.drop lv p lv' := by
  rw [h.orderLevel hb hp] at hq
  split at hq
  · cases hq
  · next hne => exact (mem_drop_iff hb hp).mpr ⟨hb.linked q lv' hq, hne⟩

theorem placed_inv (h : CancelEffect b b' id p lv) (hb : BookInv b Q) (hp : p ∈ Q lv)
    {q : OrderPtr} {lv' : LevelPtr} (hq : q ∈ Q.drop lv p lv') :
    (b'.orders q).side = lv'.side ∧ priceToIndex (b'.orders q).price = lv'.index.val := by
  rw [← Order.data_side, ← Order.data_price, h.data hb hp q, Order.data_side,
    Order.data_price]
  exact hb.placed lv' q ((mem_drop_iff hb hp).mp hq).1

theorem price_inv (h : CancelEffect b b' id p lv) (hb : BookInv b Q) (hp : p ∈ Q lv)
    {lv' : LevelPtr} (hne : Q.drop lv p lv' ≠ []) :
    priceToIndex (b'.levels lv').price = lv'.index.val := by
  by_cases hlv' : lv' = lv
  · subst hlv'
    rw [h.level, PriceLevel.remove_eq ((hb.queue lv').not_self hp).1]
    exact hb.price lv' (drop_ne_nil hb hp hne)
  · rw [h.levels _ hlv']
    exact hb.price lv' (drop_ne_nil hb hp hne)

theorem bits_inv (h : CancelEffect b b' id p lv) (hb : BookInv b Q) (hp : p ∈ Q lv)
    (side : Side) (i : Nat) : bitAt (b'.bitmap side) i = true ↔
      ∃ hi : i < maxPriceLevels, Q.drop lv p ⟨side, ⟨i, hi⟩⟩ ≠ [] := by
  have hempty := removed_empty_iff hb hp
  by_cases hs : side = lv.side
  · subst hs
    rw [h.bit, Bool.and_eq_true, Bool.not_eq_true', Bool.and_eq_false_iff,
      decide_eq_false_iff_not, hb.bits]
    constructor
    · rintro ⟨hor, hlt, hne⟩
      refine ⟨hlt, ?_⟩
      by_cases hi : i = lv.index.val
      · subst hi
        have hE := hor.resolve_left (not_not.mpr rfl)
        intro e
        rw [hempty.mpr e] at hE
        cases hE
      · rw [Queues.drop, Function.update_of_ne]
        · exact hne
        · exact fun e => hi ((levelPtr_eq_iff hlt).mp e).2
    · rintro ⟨hlt, hne⟩
      refine ⟨?_, hlt, drop_ne_nil hb hp hne⟩
      by_cases hi : i = lv.index.val
      · subst hi
        refine Or.inr ?_
        cases hE : ((b.levels lv).remove b.orders (some p)).2.empty with
        | false => rfl
        | true => exact absurd (hempty.mp hE) hne
      · exact Or.inl hi
  · rw [h.bits side hs, hb.bits]
    refine exists_congr fun hlt => ?_
    rw [Queues.drop, Function.update_of_ne]
    exact fun e => hs ((levelPtr_eq_iff hlt).mp e).1

theorem indexed_inv (h : CancelEffect b b' id p lv) (hb : BookInv b Q)
    (hf : b.orderIndex.find id = some p) (hp : p ∈ Q lv) {id' : OrderId} {q : OrderPtr}
    (hq : b'.orderIndex.find id' = some q) :
    (b'.orders q).id = id' ∧ (b'.orders q).level ≠ none := by
  rw [h.index, FixedHashMap.find_erase hb.index] at hq
  split at hq
  · cases hq
  · next hid =>
      obtain ⟨hqid, hqlev⟩ := hb.indexed id' q hq
      -- the entry of another id is another order
      have hqp : q ≠ p := by
        rintro rfl
        exact hid (hqid.symm.trans (hb.indexed id q hf).1)
      rw [h.orderLevel hb hp, if_neg hqp]
      exact ⟨(congrArg OrderData.id (h.data hb hp q)).trans hqid, hqlev⟩

theorem inv (h : CancelEffect b b' id p lv) (hb : BookInv b Q)
    (hf : b.orderIndex.find id = some p) (hp : p ∈ Q lv) :
    BookInv b' (Q.drop lv p) := by
  refine ⟨h.queue_inv hb hp, fun q lv' => h.linked_inv hb hp,
    fun lv' q => h.placed_inv hb hp, fun lv' hne => hb.positive lv' (drop_ne_nil hb hp hne),
    fun lv' => h.price_inv hb hp, h.bits_inv hb hp, fun side => ?_, ?_,
    fun id' q => h.indexed_inv hb hf hp⟩
  · by_cases hs : side = lv.side
    · subst hs
      exact h.best
    · rw [h.bits side hs, h.bests side hs]
      exact hb.best side
  · rw [h.index]
    exact FixedHashMap.erase_wf hb.index _

end ArrayOrderBook.CancelEffect

end OpenHft
