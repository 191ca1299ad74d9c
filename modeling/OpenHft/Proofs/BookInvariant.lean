import OpenHft.Proofs.BitmapSearch
import OpenHft.Proofs.HashMap
import OpenHft.Proofs.Level

/-!
# The book invariant, and the two primitive operations

`BookInv b Q` says that the book `b` holds exactly the queues `Q`: every level
spells its queue, every order stands on the level of its own side and price,
a bit is set exactly for a non-empty level, each cached best price is the best
set bit, and whatever the id index knows is a linked order with that id.

The invariant asks nothing about ids being distinct, or about every linked
order being indexed. Neither holds of this book in general — `addOrder`
overwrites the entry of an id that is already there, and ignores an index that
is full — and neither is needed here: an operation reaches an order through
the index alone, and the entry it finds is sound.

Every operation of the book is `addOrder` and `cancelOrder` with field writes
in between, so these two carry the proof. Each first gets its effect, field by
field, and the invariant is then rebuilt from the effect.
-/

namespace OpenHft

open OpenHft.Lib

/-- The content of the book: the queue of every level. -/
abbrev Queues := LevelPtr → List OrderPtr

/-- `i` is at least as good a price index as `j` for this side. -/
def noWorse : Side → Nat → Nat → Prop
  | .buy, i, j => j ≤ i
  | .sell, i, j => i ≤ j

/-- `best` is the best price of a set of price indices, or 0 for the empty
set. -/
def IsBest (side : Side) (P : Nat → Bool) (best : Price) : Prop :=
  (best = 0 ∧ ∀ i, P i = false) ∨
  (best ≠ 0 ∧ P (priceToIndex best) = true ∧
    ∀ j, P j = true → noWorse side (priceToIndex best) j)

/-- The links, the prices, the bits and the best prices agree with the queues. -/
structure BookInv (b : ArrayOrderBook) (Q : Queues) : Prop where
  queue : ∀ lv, IsQueue b.orders (b.levels lv) lv (Q lv)
  linked : ∀ p lv, (b.orders p).level = some lv → p ∈ Q lv
  placed : ∀ lv, ∀ p ∈ Q lv, (b.orders p).side = lv.side ∧
    priceToIndex (b.orders p).price = lv.index.val
  positive : ∀ lv, Q lv ≠ [] → 0 < lv.index.val
  price : ∀ lv, Q lv ≠ [] → priceToIndex (b.levels lv).price = lv.index.val
  bits : ∀ side i, bitAt (b.bitmap side) i = true ↔
    ∃ h : i < maxPriceLevels, Q ⟨side, ⟨i, h⟩⟩ ≠ []
  best : ∀ side, IsBest side (bitAt (b.bitmap side)) (b.best side)
  index : b.orderIndex.Wf
  indexed : ∀ id p, b.orderIndex.find id = some p →
    (b.orders p).id = id ∧ (b.orders p).level ≠ none

theorem init_inv (stdHash : OrderId → Nat) {orders : Heap}
    (h : ∀ p, (orders p).level = none) :
    BookInv (.init stdHash orders) fun _ => [] where
  queue := fun lv => IsQueue.empty lv
  linked := fun p lv hl => absurd ((h p).symm.trans hl) (by simp)
  placed := fun _ _ hp => absurd hp (List.not_mem_nil)
  positive := fun _ hne => absurd rfl hne
  price := fun _ hne => absurd rfl hne
  bits := by
    intro side i
    simp [ArrayOrderBook.init, bitAt]
  best := fun side => Or.inl ⟨rfl, by simp [ArrayOrderBook.init, bitAt]⟩
  index := FixedHashMap.init_wf stdHash
  indexed := by
    intro id p hf
    have hnone : (ArrayOrderBook.init stdHash orders).orderIndex.find id = none :=
      (FixedHashMap.find_eq_none_iff (FixedHashMap.init_wf stdHash)).mpr
        fun slot hs => absurd hs.1 (by simp [FixedHashMap.init])
    exact absurd (hnone.symm.trans hf) (by simp)

namespace BookInv

variable {b : ArrayOrderBook} {Q : Queues} {p : OrderPtr} {lv lv' : LevelPtr}

/-- An order stands in at most one queue. -/
theorem eq_level (hb : BookInv b Q) (hp : p ∈ Q lv) (hp' : p ∈ Q lv') :
    lv = lv' :=
  Option.some.inj (((hb.queue lv).level p hp).symm.trans
    ((hb.queue lv').level p hp'))

theorem mem_iff (hb : BookInv b Q) :
    p ∈ Q lv ↔ (b.orders p).level = some lv :=
  ⟨(hb.queue lv).level p, hb.linked p lv⟩

theorem not_mem_of_unlinked (hb : BookInv b Q) (hp : (b.orders p).level = none)
    (lv : LevelPtr) : p ∉ Q lv := fun hmem =>
  absurd (hp.symm.trans ((hb.queue lv).level p hmem)) (by simp)

theorem disjoint (hb : BookInv b Q) (hne : lv' ≠ lv) :
    ∀ q ∈ Q lv, q ∉ Q lv' := fun _ hq hq' => hne (hb.eq_level hq' hq)

theorem validPrice (hb : BookInv b Q) (hp : p ∈ Q lv) :
    ValidPrice (b.orders p).price := by
  have hpos := hb.positive lv (List.ne_nil_of_mem hp)
  rw [← ofNat_priceToIndex (b.orders p).price, (hb.placed lv p hp).2]
  exact validPrice_ofNat hpos lv.index.isLt

theorem best_zero_or_valid (hb : BookInv b Q) (side : Side) :
    b.best side = 0 ∨ ValidPrice (b.best side) := by
  rcases hb.best side with ⟨h, _⟩ | ⟨_, hbit, _⟩
  · exact Or.inl h
  · obtain ⟨hlt, hne⟩ := (hb.bits side _).mp hbit
    have hpos := hb.positive _ hne
    refine Or.inr ?_
    rw [← ofNat_priceToIndex (b.best side)]
    exact validPrice_ofNat hpos hlt

/-- Writes to an order that stands in no queue. -/
theorem modify_unlinked (hb : BookInv b Q) (hp : (b.orders p).level = none)
    {f : Order → Order} (hf : (f (b.orders p)).level = none) :
    BookInv { b with orders := b.orders.modify p f } Q := by
  have hsame : ∀ q, q ≠ p → b.orders.modify p f q = b.orders q :=
    fun q hne => Heap.modify_of_ne _ _ hne
  have hmem : ∀ lv, ∀ q ∈ Q lv, q ≠ p := fun lv q hq e =>
    hb.not_mem_of_unlinked hp lv (by rw [← e]; exact hq)
  refine { hb with queue := ?_, linked := ?_, placed := ?_, indexed := ?_ }
  · intro lv
    refine (hb.queue lv).congr rfl rfl fun q hq => ?_
    show (b.orders.modify p f q).next = _ ∧ (b.orders.modify p f q).prev = _ ∧
      (b.orders.modify p f q).level = _
    rw [hsame q (hmem lv q hq)]
    exact ⟨rfl, rfl, rfl⟩
  · intro q lv hq
    have hq' : (b.orders.modify p f q).level = some lv := hq
    rw [Heap.modify_apply] at hq'
    split at hq'
    · next e =>
        rw [e, hf] at hq'
        cases hq'
    · exact hb.linked q lv hq'
  · intro lv q hq
    show (b.orders.modify p f q).side = _ ∧ priceToIndex (b.orders.modify p f q).price = _
    rw [hsame q (hmem lv q hq)]
    exact hb.placed lv q hq
  · intro id q hq
    obtain ⟨hid, hlev⟩ := hb.indexed id q hq
    show (b.orders.modify p f q).id = id ∧ (b.orders.modify p f q).level ≠ none
    rw [hsame q fun e => hlev (e ▸ hp)]
    exact ⟨hid, hlev⟩

end BookInv

/-- Two books that differ in quantities alone. -/
structure SameLinks (b b' : ArrayOrderBook) : Prop where
  orders : ∀ q, b'.orders q =
    { b.orders q with quantity := (b'.orders q).quantity }
  levels : ∀ lv, b'.levels lv =
    { b.levels lv with totalQuantity := (b'.levels lv).totalQuantity }
  bitmap : b'.bitmap = b.bitmap
  best : b'.best = b.best
  orderIndex : b'.orderIndex = b.orderIndex

/-- The invariant does not read quantities. -/
theorem BookInv.same_links {b b' : ArrayOrderBook} {Q : Queues}
    (hb : BookInv b Q) (h : SameLinks b b') : BookInv b' Q := by
  refine ⟨?_, ?_, ?_, hb.positive, ?_, ?_, ?_, ?_, ?_⟩
  · intro lv
    refine (hb.queue lv).congr (by rw [h.levels]) (by rw [h.levels]) fun q _ => ?_
    rw [h.orders q]
    exact ⟨rfl, rfl, rfl⟩
  · intro q lv hq
    rw [h.orders q] at hq
    exact hb.linked q lv hq
  · intro lv q hq
    rw [h.orders q]
    exact hb.placed lv q hq
  · intro lv hne
    rw [h.levels lv]
    exact hb.price lv hne
  · intro side i
    rw [h.bitmap]
    exact hb.bits side i
  · intro side
    rw [h.bitmap, h.best]
    exact hb.best side
  · rw [h.orderIndex]
    exact hb.index
  · intro id q hq
    rw [h.orderIndex] at hq
    rw [h.orders q]
    exact hb.indexed id q hq

/-! ## What the best price does -/

namespace IsBest

variable {side : Side} {P P' : Nat → Bool} {best : Price}

theorem congr (h : IsBest side P best) (heq : ∀ i, P' i = P i) :
    IsBest side P' best := by
  rw [show P' = P from funext heq]
  exact h

/-- There is one best price. -/
theorem unique {best' : Price} (h : IsBest side P best)
    (h' : IsBest side P best') : best = best' := by
  rcases h with ⟨h0, hnone⟩ | ⟨_, hbit, hall⟩
  · rcases h' with ⟨h0', _⟩ | ⟨_, hbit', _⟩
    · rw [h0, h0']
    · rw [hnone] at hbit'; cases hbit'
  · rcases h' with ⟨_, hnone'⟩ | ⟨_, hbit', hall'⟩
    · rw [hnone'] at hbit; cases hbit
    · have h₁ := hall _ hbit'
      have h₂ := hall' _ hbit
      cases side with
      | buy => exact priceToIndex_inj (Nat.le_antisymm h₂ h₁)
      | sell => exact priceToIndex_inj (Nat.le_antisymm h₁ h₂)

/-- Setting one more bit: the update `addOrder` makes. -/
theorem add {price : Price} (h : IsBest side P best)
    (hbest : best = 0 ∨ ValidPrice best) (hv : ValidPrice price)
    (hP : ∀ i, P' i = (decide (i = priceToIndex price) || P i)) :
    IsBest side P'
      (if best = 0 ∨ ArrayOrderBook.improves side price best = true then price
        else best) := by
  have hself : P' (priceToIndex price) = true := by simp [hP]
  split
  · next hcond =>
      refine Or.inr ⟨hv.ne_zero, hself, fun j hj => ?_⟩
      rw [hP, Bool.or_eq_true, decide_eq_true_eq] at hj
      rcases hj with rfl | hj
      · cases side <;> exact Nat.le_refl _
      · rcases h with ⟨_, hnone⟩ | ⟨hne, _, hall⟩
        · rw [hnone j] at hj; cases hj
        · have hvb := hbest.resolve_left hne
          have himp := hcond.resolve_left hne
          have hjb := hall j hj
          cases side with
          | buy =>
              have := (hvb.lt_iff hv).mp (of_decide_eq_true himp)
              exact Nat.le_trans hjb (Nat.le_of_lt this)
          | sell =>
              have := (hv.lt_iff hvb).mp (of_decide_eq_true himp)
              exact Nat.le_trans (Nat.le_of_lt this) hjb
  · next hcond =>
      obtain ⟨hne, hnot⟩ := not_or.mp hcond
      obtain ⟨_, hbit, hall⟩ := h.resolve_left fun h' => hne h'.1
      have hvb := hbest.resolve_left hne
      refine Or.inr ⟨hne, by rw [hP, hbit, Bool.or_true], fun j hj => ?_⟩
      rw [hP, Bool.or_eq_true, decide_eq_true_eq] at hj
      rcases hj with rfl | hj
      · cases side with
        | buy =>
            rcases Nat.lt_or_ge (priceToIndex best) (priceToIndex price) with
              hlt | hge
            · exact absurd (decide_eq_true ((hvb.lt_iff hv).mpr hlt)) hnot
            · exact hge
        | sell =>
            rcases Nat.lt_or_ge (priceToIndex price) (priceToIndex best) with
              hlt | hge
            · exact absurd (decide_eq_true ((hv.lt_iff hvb).mpr hlt)) hnot
            · exact hge
      · exact hall j hj

/-- Clearing a bit that is not the best one. -/
theorem clear_other {i : Nat} (h : IsBest side P best)
    (hi : priceToIndex best ≠ i)
    (hP : ∀ j, P' j = (!decide (j = i) && P j)) : IsBest side P' best := by
  rcases h with ⟨h0, hnone⟩ | ⟨hne, hbit, hall⟩
  · exact Or.inl ⟨h0, fun j => by rw [hP, hnone j, Bool.and_false]⟩
  · refine Or.inr ⟨hne, by simp [hP, hbit, hi], fun j hj => ?_⟩
    rw [hP, Bool.and_eq_true] at hj
    exact hall j hj.2

theorem cleared_iff {i j : Nat} (hP : ∀ j, P' j = (!decide (j = i) && P j)) :
    P' j = true ↔ j ≠ i ∧ P j = true := by
  rw [hP, Bool.and_eq_true, Bool.not_eq_true', decide_eq_false_iff_not]

/-- What a search comes back with is the best price, if it has found a bit no worse than
any other or there is none. -/
theorem of_found (hrange : ∀ i, P i = true → 0 < i ∧ i < 2 ^ 64) {found : Option Nat}
    (hnone : found = none → ∀ j, P j = false)
    (hsome : ∀ i, found = some i → P i = true ∧ ∀ j, P j = true → noWorse side i j) :
    IsBest side P (ArrayOrderBook.foundPrice found) := by
  cases found with
  | none => exact Or.inl ⟨rfl, hnone rfl⟩
  | some i =>
      obtain ⟨hbit, hall⟩ := hsome i rfl
      have hi := hrange i hbit
      have hidx : priceToIndex (ArrayOrderBook.foundPrice (some i)) = i :=
        priceToIndex_ofNat hi.2
      refine Or.inr ⟨fun e => ?_, by rw [hidx]; exact hbit, by rw [hidx]; exact hall⟩
      rw [e, priceToIndex_zero] at hidx
      omega

/-- Clearing the best bid and searching below it. -/
theorem clear_bid (h : IsBest .buy P best) (hne : best ≠ 0)
    (hrange : ∀ i, P i = true → 0 < i ∧ i < 2 ^ 64)
    (hP : ∀ j, P' j = (!decide (j = priceToIndex best) && P j))
    {found : Option Nat} (hf : GreatestBelow P' (priceToIndex best) found) :
    IsBest .buy P' (ArrayOrderBook.foundPrice found) := by
  obtain ⟨_, _, hall⟩ := h.resolve_left fun h' => hne h'.1
  have hbelow : ∀ j, P' j = true → j < priceToIndex best := by
    intro j hj
    obtain ⟨hji, hj⟩ := (cleared_iff hP).mp hj
    have hle : j ≤ priceToIndex best := hall j hj
    omega
  refine of_found (fun i hi => hrange i ((cleared_iff hP).mp hi).2) ?_ ?_
  · rintro rfl j
    by_contra hj
    rw [Bool.not_eq_false] at hj
    rw [hf j (hbelow j hj)] at hj
    cases hj
  · rintro i rfl
    obtain ⟨_, hbit, hgap⟩ := hf
    refine ⟨hbit, fun j hj => Nat.le_of_not_lt fun hlt => ?_⟩
    rw [hgap j hlt (hbelow j hj)] at hj
    cases hj

/-- Clearing the best ask and searching above it. -/
theorem clear_ask (h : IsBest .sell P best) (hne : best ≠ 0)
    (hrange : ∀ i, P i = true → 0 < i ∧ i < 2 ^ 64)
    (hP : ∀ j, P' j = (!decide (j = priceToIndex best) && P j))
    {found : Option Nat} (hf : LeastAbove P' (priceToIndex best) found) :
    IsBest .sell P' (ArrayOrderBook.foundPrice found) := by
  obtain ⟨_, _, hall⟩ := h.resolve_left fun h' => hne h'.1
  have habove : ∀ j, P' j = true → priceToIndex best < j := by
    intro j hj
    obtain ⟨hji, hj⟩ := (cleared_iff hP).mp hj
    have hle : priceToIndex best ≤ j := hall j hj
    omega
  refine of_found (fun i hi => hrange i ((cleared_iff hP).mp hi).2) ?_ ?_
  · rintro rfl j
    by_contra hj
    rw [Bool.not_eq_false] at hj
    rw [hf j (habove j hj)] at hj
    cases hj
  · rintro i rfl
    obtain ⟨_, hbit, hgap⟩ := hf
    refine ⟨hbit, fun j hj => Nat.le_of_not_lt fun hlt => ?_⟩
    rw [hgap j (habove j hj) hlt] at hj
    cases hj

end IsBest

end OpenHft
