import OpenHft.Proofs.BestPrices
import OpenHft.Proofs.ConsumerReplay
import OpenHft.Proofs.LevelTotals
import OpenHft.Spec.ReferenceMarket

/-!
# What the book shows of a feed

A strategy reads four numbers off the consumer's book: the best price of each side and the
`total_quantity` there. The prices are those of the live orders. The quantities are larger:
`reduceOrder` lowers an order in place and does not tell its level, and no later call makes
up for it, since `remove` subtracts what is left of the order. So what a level shows is what
is live on it and what has ever been taken out of orders that stayed, modulo 2³². `Exceeds`
says so of a book, and `Shows` ties a book to the reference market.
-/

namespace OpenHft

open OpenHft.Lib Replay

/-! ## Totals with an excess -/

/-- Every `total_quantity` is the sum over the queue of its level and an excess. -/
def Exceeds (b : ArrayOrderBook) (Q : Queues) (excess : LevelPtr → Nat) : Prop :=
  ∀ lv, (b.levels lv).totalQuantity.toNat =
    (queuedQuantity b.orders (Q lv) + excess lv) % 2 ^ 32

section Effects

variable {b b' : ArrayOrderBook} {Q : Queues} {excess : LevelPtr → Nat} {p : OrderPtr}
  {lv : LevelPtr} {id : OrderId}

theorem Exceeds.modify_unlinked (hx : Exceeds b Q excess) (hb : BookInv b Q)
    (hp : (b.orders p).level = none) (f : Order → Order) :
    Exceeds { b with orders := b.orders.modify p f } Q excess := by
  intro lv
  have hsame : queuedQuantity (b.orders.modify p f) (Q lv) =
      queuedQuantity b.orders (Q lv) := by
    refine queuedQuantity_congr fun q hq => ?_
    rw [Heap.modify_of_ne]
    rintro rfl
    exact hb.not_mem_of_unlinked hp lv hq
  rw [hsame]
  exact hx lv

theorem ArrayOrderBook.AddEffect.exceeds (h : AddEffect b b' p lv)
    (hx : Exceeds b Q excess) : Exceeds b' (Q.push lv p) excess := by
  have hquantity : ∀ q, (b'.orders q).quantity = (b.orders q).quantity :=
    fun q => congrArg OrderData.quantity (h.data q)
  intro lv'
  rw [queuedQuantity_congr fun q _ => hquantity q]
  by_cases hlv : lv' = lv
  · subst hlv
    rw [h.level, PriceLevel.pushBack_totalQuantity, Queues.push, Function.update_self,
      queuedQuantity_append, UInt32.toNat_add, hx lv']
    omega
  · rw [h.levels _ hlv, Queues.push, Function.update_of_ne hlv]
    exact hx lv'

theorem ArrayOrderBook.CancelEffect.exceeds (h : CancelEffect b b' id p lv)
    (hb : BookInv b Q) (hp : p ∈ Q lv) (hx : Exceeds b Q excess) :
    Exceeds b' (Q.drop lv p) excess := by
  have hquantity : ∀ q, (b'.orders q).quantity = (b.orders q).quantity :=
    fun q => congrArg OrderData.quantity (h.data hb hp q)
  intro lv'
  rw [queuedQuantity_congr fun q _ => hquantity q]
  by_cases hlv : lv' = lv
  · subst hlv
    rw [h.level, PriceLevel.remove_eq ((hb.queue lv').not_self hp).1, Queues.drop,
      Function.update_self, UInt32.toNat_sub, hx lv']
    have hsum := queuedQuantity_erase (h := b.orders) hp
    have hlt := (b.orders p).quantity.toNat_lt
    omega
  · rw [h.levels _ hlv, Queues.drop, Function.update_of_ne hlv]
    exact hx lv'

/-- What `reduceOrder` takes out of an order in place is queued no longer and still
shown. -/
theorem Exceeds.lowerQuantity (hx : Exceeds b Q excess) (hb : BookInv b Q) (hp : p ∈ Q lv)
    {quantity : Quantity} (hlt : quantity < (b.orders p).quantity) :
    Exceeds (b.lowerQuantity p quantity) Q
      fun lv' => excess lv' + if lv' = lv then quantity.toNat else 0 := by
  have hother : ∀ q, q ≠ p →
      ((b.lowerQuantity p quantity).orders q).quantity = (b.orders q).quantity := by
    intro q hq
    simp only [ArrayOrderBook.lowerQuantity, Heap.modify_of_ne _ _ hq]
  have hself : ((b.lowerQuantity p quantity).orders p).quantity =
      (b.orders p).quantity - quantity := by
    simp only [ArrayOrderBook.lowerQuantity, Heap.modify_self]
  intro lv'
  have hbefore : ((b.lowerQuantity p quantity).levels lv').totalQuantity.toNat =
      (queuedQuantity b.orders (Q lv') + excess lv') % 2 ^ 32 := hx lv'
  rw [hbefore]
  dsimp only
  by_cases hlv : lv' = lv
  · subst hlv
    have hrest : queuedQuantity (b.lowerQuantity p quantity).orders ((Q lv').erase p) =
        queuedQuantity b.orders ((Q lv').erase p) :=
      queuedQuantity_congr fun q hq =>
        hother q ((hb.queue lv').dll.nodup.mem_erase_iff.mp hq).1
    have hold := queuedQuantity_erase (h := b.orders) hp
    have hnew := queuedQuantity_erase (h := (b.lowerQuantity p quantity).orders) hp
    rw [hrest, hself, UInt32.toNat_sub_of_le _ _ (UInt32.le_of_lt hlt)] at hnew
    have hle := UInt32.lt_iff_toNat_lt.mp hlt
    rw [if_pos rfl]
    omega
  · have hsame : queuedQuantity (b.lowerQuantity p quantity).orders (Q lv') =
        queuedQuantity b.orders (Q lv') := by
      refine queuedQuantity_congr fun q hq => hother q ?_
      rintro rfl
      exact hlv (hb.eq_level hq hp)
    rw [hsame, if_neg hlv, Nat.add_zero]

end Effects

/-! ## One event -/

namespace Market

variable {live : List OrderData} {event : MarketDataEvent} {o : OrderData}

/-- What an event takes out of an order that stays, at the level of the order. -/
def taken (live : List OrderData) (event : MarketDataEvent) (lv : LevelPtr) : Nat :=
  match reducedOrder live event with
  | some o => if stands lv o = true then event.quantity.toNat else 0
  | none => 0

theorem taken_of_none (h : reducedOrder live event = none) (lv : LevelPtr) :
    taken live event lv = 0 := by
  rw [taken, h]

theorem reducedOrder_of_type (h : event.type ≠ .cancelOrder ∧ event.type ≠ .executeOrder) :
    reducedOrder live event = none := by
  cases ht : event.type with
  | cancelOrder => exact absurd ht h.1
  | executeOrder => exact absurd ht h.2
  | addOrder => simp only [reducedOrder, ht]
  | deleteOrder => simp only [reducedOrder, ht]
  | replaceOrder => simp only [reducedOrder, ht]

theorem reducedOrder_of_find_none (h : find live event.orderId = none) :
    reducedOrder live event = none := by
  cases ht : event.type <;> simp only [reducedOrder, ht, h, Option.filter_none]

theorem reducedOrder_of_find (ht : event.type = .cancelOrder ∨ event.type = .executeOrder)
    (h : find live event.orderId = some o) :
    reducedOrder live event =
      if event.quantity ≠ 0 ∧ event.quantity < o.quantity then some o else none := by
  rcases ht with ht | ht
  · simp only [reducedOrder, ht, h, Option.filter_some, decide_eq_true_eq]
  · simp only [reducedOrder, ht, h, Option.filter_some, decide_eq_true_eq]

end Market

namespace Exceeds

open MarketDataBookConsumer Market

variable {c : MarketDataBookConsumer} {Q : Queues} {live : List OrderData}
  {event : MarketDataEvent} {excess : LevelPtr → Nat}

/-- An excess that has not grown. -/
theorem of_untaken {b : ArrayOrderBook} {Q : Queues} (hx : Exceeds b Q excess)
    (hnone : reducedOrder live event = none) :
    Exceeds b Q fun lv => excess lv + taken live event lv := by
  intro lv
  dsimp only
  rw [taken_of_none hnone lv]
  exact hx lv

theorem consume_add (h : ConsumerInv c Q) (hx : Exceeds c.book Q excess)
    (ht : event.type = .addOrder) (hv : ValidPrice event.price) :
    ∃ c' Q', c.consume event = .ok c' ∧ BookInv c'.book Q' ∧ Exceeds c'.book Q' excess := by
  cases hfree : c.orderPool.freeList with
  | nil => exact ⟨c, Q, consume_add_none ht hfree, h.book, hx⟩
  | cons p rest =>
      have hlent := h.lend hfree
      have hwritten := hlent.rewrite (o := newOrder event) List.mem_cons_self rfl
      obtain ⟨b, hok, heff⟩ := ArrayOrderBook.addOrder_effect
        (c.book.rewriteOrder_self p (newOrder event)) hv
      refine ⟨_, _, consume_add_some ht hfree hok,
        (hwritten.add_effect heff (c.book.rewriteOrder_self p _)).book, ?_⟩
      exact heff.exceeds (hx.modify_unlinked h.book (hlent.idle p List.mem_cons_self) _)

theorem consume_reduce (h : Replays c Q live) (hx : Exceeds c.book Q excess)
    (ht : event.type = .cancelOrder ∨ event.type = .executeOrder) :
    ∃ c' Q', c.consume event = .ok c' ∧ BookInv c'.book Q' ∧
      Exceeds c'.book Q' fun lv => excess lv + taken live event lv := by
  have hb := h.store.pooled.book
  obtain ⟨r, b, hok, hout⟩ :=
    ArrayOrderBook.reduceOrder_outcome hb event.orderId event.quantity
  have hconsume := MarketDataBookConsumer.consume_reduce ht hok
  cases hout with
  | unknown hf =>
      exact ⟨_, Q, hconsume, hb, hx.of_untaken (reducedOrder_of_find_none (h.find_none hf))⟩
  | refused p hf hq =>
      have hnot : ¬ (event.quantity ≠ 0 ∧ event.quantity < (c.book.orders p).data.quantity) := by
        rintro ⟨hpos, hlt⟩
        rcases hq with hq | hq
        · exact hpos hq
        · exact UInt32.lt_asymm hlt hq
      have htaken := reducedOrder_of_find ht (h.find_some hf)
      rw [if_neg hnot] at htaken
      exact ⟨_, Q, hconsume, hb, hx.of_untaken htaken⟩
  | removed p lv b' hf hp hpos hq heff =>
      have hnot : ¬ (event.quantity ≠ 0 ∧ event.quantity < (c.book.orders p).data.quantity) := by
        rintro ⟨-, hlt⟩
        rw [hq] at hlt
        exact UInt32.lt_irrefl _ hlt
      have htaken := reducedOrder_of_find ht (h.find_some hf)
      rw [if_neg hnot] at htaken
      exact ⟨_, _, hconsume, heff.inv hb hf hp, (heff.exceeds hb hp hx).of_untaken htaken⟩
  | reduced p lv hf hp hpos hq =>
      refine ⟨_, Q, hconsume, hb.same_links (c.book.lowerQuantity_sameLinks p _), fun lv' => ?_⟩
      have htaken := reducedOrder_of_find ht (h.find_some hf)
      rw [if_pos ⟨hpos, hq⟩] at htaken
      obtain ⟨hside, hindex⟩ := hb.placed lv p hp
      have hstands : stands lv' (c.book.orders p).data = true ↔ lv' = lv := by
        rw [stands, decide_eq_true_eq, Order.data_side, Order.data_price, hside, hindex,
          LevelPtr.mk.injEq, Fin.ext_iff, eq_comm, @eq_comm _ lv.index.val]
      have hlower := hx.lowerQuantity hb hp hq lv'
      simp only [taken, htaken, hstands]
      exact hlower

theorem consume_delete (h : ConsumerInv c Q) (hx : Exceeds c.book Q excess)
    (ht : event.type = .deleteOrder) :
    ∃ c' Q', c.consume event = .ok c' ∧ BookInv c'.book Q' ∧ Exceeds c'.book Q' excess := by
  cases hf : c.book.orderIndex.find event.orderId with
  | none =>
      exact ⟨_, Q, MarketDataBookConsumer.consume_delete ht (ArrayOrderBook.cancelOrder_none hf),
        h.book, hx⟩
  | some p =>
      obtain ⟨lv, hp⟩ := ArrayOrderBook.find_linked h.book hf
      obtain ⟨b, hok, heff⟩ := ArrayOrderBook.cancelOrder_effect h.book hf hp
      exact ⟨_, _, MarketDataBookConsumer.consume_delete ht hok, heff.inv h.book hf hp,
        heff.exceeds h.book hp hx⟩

theorem consume_replace (h : ConsumerInv c Q) (hx : Exceeds c.book Q excess)
    (ht : event.type = .replaceOrder) (hv : ValidPrice event.price) :
    ∃ c' Q', c.consume event = .ok c' ∧ BookInv c'.book Q' ∧ Exceeds c'.book Q' excess := by
  obtain ⟨r, b, hok, hout⟩ := ArrayOrderBook.replaceOrder_outcome h.book event.orderId
    event.newOrderId event.quantity hv
  have hconsume := MarketDataBookConsumer.consume_replace ht hok
  cases hout with
  | refused _ => exact ⟨_, Q, hconsume, h.book, hx⟩
  | replaced p lv b₁ _ _ _ _ _ hf hp hcancel hadd =>
      have hb₁ := hcancel.inv h.book hf hp
      have hun : (b₁.orders p).level = none := by
        rw [hcancel.orderLevel h.book hp, if_pos rfl]
      have hlent := (h.cancel hcancel hf hp).rewrite
        (o := ArrayOrderBook.replacement (c.book.orders p) event.newOrderId
          event.quantity event.price) List.mem_cons_self rfl
      refine ⟨_, _, hconsume, (hlent.add_effect hadd (b₁.rewriteOrder_self p _)).book, ?_⟩
      exact hadd.exceeds ((hcancel.exceeds h.book hp hx).modify_unlinked hb₁ hun _)

theorem consume (h : Replays c Q live) (hx : Exceeds c.book Q excess)
    (hv : bringsPrice event = true → ValidPrice event.price) :
    ∃ c' Q', c.consume event = .ok c' ∧ BookInv c'.book Q' ∧
      Exceeds c'.book Q' fun lv => excess lv + taken live event lv := by
  have hinv : ConsumerInv c Q := h.store.pooled
  -- the three kinds of event that never lower an order in place
  have hkeeps (ht : event.type ≠ .cancelOrder ∧ event.type ≠ .executeOrder)
      (hstep : ∃ c' Q', c.consume event = .ok c' ∧ BookInv c'.book Q' ∧
        Exceeds c'.book Q' excess) :
      ∃ c' Q', c.consume event = .ok c' ∧ BookInv c'.book Q' ∧
        Exceeds c'.book Q' fun lv => excess lv + taken live event lv := by
    obtain ⟨c', Q', hok, hb, hx'⟩ := hstep
    exact ⟨c', Q', hok, hb, hx'.of_untaken (reducedOrder_of_type ht)⟩
  cases ht : event.type with
  | addOrder =>
      exact hkeeps (by simp [ht]) (consume_add hinv hx ht (hv (by simp [bringsPrice, ht])))
  | cancelOrder => exact consume_reduce h hx (Or.inl ht)
  | deleteOrder => exact hkeeps (by simp [ht]) (consume_delete hinv hx ht)
  | executeOrder => exact consume_reduce h hx (Or.inr ht)
  | replaceOrder =>
      exact hkeeps (by simp [ht]) (consume_replace hinv hx ht (hv (by simp [bringsPrice, ht])))

end Exceeds

/-! ## The best prices -/

namespace Market

variable {m : Market} {side : Side} {live : List OrderData} {price : Price}

theorem bestOf_none (h : bestOf side live = none) : ∀ o ∈ live, o.side ≠ side := by
  induction live with
  | nil => exact fun _ ho => absurd ho List.not_mem_nil
  | cons o live ih =>
      rw [bestOf] at h
      split at h
      · cases h
      · next hside => exact List.forall_mem_cons.mpr ⟨hside, ih h⟩

theorem noWorse_better (side : Side) {p q : Price} (hp : ValidPrice p) (hq : ValidPrice q) :
    noWorse side (priceToIndex (side.better p q)) (priceToIndex p) ∧
      noWorse side (priceToIndex (side.better p q)) (priceToIndex q) := by
  cases side with
  | buy =>
      by_cases hlt : p < q
      · simp only [Side.better, if_pos hlt, noWorse]
        have := (hp.lt_iff hq).mp hlt
        omega
      · simp only [Side.better, if_neg hlt, noWorse]
        have := mt (hp.lt_iff hq).mpr hlt
        omega
  | sell =>
      by_cases hlt : q < p
      · simp only [Side.better, if_pos hlt, noWorse]
        have := (hq.lt_iff hp).mp hlt
        omega
      · simp only [Side.better, if_neg hlt, noWorse]
        have := mt (hq.lt_iff hp).mpr hlt
        omega

theorem better_eq (side : Side) (p q : Price) : side.better p q = p ∨ side.better p q = q := by
  cases side with
  | buy =>
      rw [Side.better]
      split
      · exact .inr rfl
      · exact .inl rfl
  | sell =>
      rw [Side.better]
      split
      · exact .inr rfl
      · exact .inl rfl

theorem noWorse_trans {i j k : Nat} (h : noWorse side i j) (h' : noWorse side j k) :
    noWorse side i k := by
  cases side with
  | buy => exact Nat.le_trans h' h
  | sell => exact Nat.le_trans h h'

theorem noWorse_refl (side : Side) (i : Nat) : noWorse side i i := by
  cases side with
  | buy => exact Nat.le_refl i
  | sell => exact Nat.le_refl i

/-- The best price is that of a live order, and no live order of the side is better. -/
theorem bestOf_some (hpriced : ∀ o ∈ live, ValidPrice o.price)
    (h : bestOf side live = some price) :
    (∃ o ∈ live, o.side = side ∧ o.price = price) ∧
      ∀ o ∈ live, o.side = side → noWorse side (priceToIndex price) (priceToIndex o.price) := by
  induction live generalizing price with
  | nil => cases h
  | cons o live ih =>
      obtain ⟨ho, hlive⟩ := List.forall_mem_cons.mp hpriced
      rw [bestOf] at h
      split at h
      · next hside =>
          cases hrest : bestOf side live with
          | none =>
              rw [hrest] at h
              cases h
              refine ⟨⟨o, List.mem_cons_self, hside, rfl⟩, List.forall_mem_cons.mpr
                ⟨fun _ => noWorse_refl side _, fun x hx hxs => ?_⟩⟩
              exact absurd hxs (bestOf_none hrest x hx)
          | some p =>
              rw [hrest] at h
              cases h
              obtain ⟨⟨x, hx, hxs, rfl⟩, hall⟩ := ih hlive hrest
              obtain ⟨hleft, hright⟩ := noWorse_better side ho (hlive x hx)
              refine ⟨?_, List.forall_mem_cons.mpr ⟨fun _ => hleft, fun y hy hys =>
                noWorse_trans hright (hall y hy hys)⟩⟩
              rcases better_eq side o.price x.price with heq | heq
              · exact ⟨o, List.mem_cons_self, hside, heq.symm⟩
              · exact ⟨x, List.mem_cons_of_mem o hx, hxs, heq.symm⟩
      · next hside =>
          obtain ⟨⟨x, hx, hxs, hprice⟩, hall⟩ := ih hlive h
          exact ⟨⟨x, List.mem_cons_of_mem o hx, hxs, hprice⟩,
            List.forall_mem_cons.mpr ⟨fun hos => absurd hos hside, hall⟩⟩

end Market

/-- What a reader of the book relies on: the best levels stand at the market's best prices,
and every level shows the market's quantity. -/
structure ShowsMarket (b : ArrayOrderBook) (m : Market) : Prop where
  none : ∀ side, m.best side = none → b.bestLevel side = .ok none
  some : ∀ side price, m.best side = some price →
    ∃ hv : ValidPrice price, b.bestLevel side = .ok (some (levelAt side price hv)) ∧
      (b.levels (levelAt side price hv)).price = price
  shown : ∀ side price (hv : ValidPrice price),
    (b.levels (levelAt side price hv)).totalQuantity = m.shown side price

/-- The consumer's book and the reference market after the same events. -/
structure Shows (c : MarketDataBookConsumer) (Q : Queues) (m : Market) : Prop where
  replays : Replays c Q m.live
  exceeds : Exceeds c.book Q fun lv => m.reduced lv.side (Int64.ofNat lv.index)

namespace Shows

open MarketDataBookConsumer Market

variable {c : MarketDataBookConsumer} {Q : Queues} {m : Market} {event : MarketDataEvent}
  {side : Side} {price : Price}

theorem init (stdHash : OrderId → Nat) : Shows (.init stdHash) (fun _ => []) .empty where
  replays := init_replays stdHash
  exceeds := fun _ => rfl

theorem stands_iff_price {lv : LevelPtr} {o : OrderData} :
    stands lv o = true ↔ o.side = lv.side ∧ o.price = Int64.ofNat lv.index.val := by
  rw [stands, decide_eq_true_eq]
  refine and_congr_right fun _ => ⟨fun h => ?_, fun h => ?_⟩
  · rw [← h, ofNat_priceToIndex]
  · have hlt : lv.index.val < 100000 := lv.index.isLt
    rw [h, priceToIndex_ofNat (by omega)]

theorem step_reduced (m : Market) (event : MarketDataEvent) (lv : LevelPtr) :
    (m.step event).reduced lv.side (Int64.ofNat lv.index) =
      m.reduced lv.side (Int64.ofNat lv.index) + taken m.live event lv := by
  rw [Market.step, taken]
  cases reducedOrder m.live event with
  | none => rfl
  | some o => simp only [stands_iff_price]

theorem consume (h : Shows c Q m) (hv : bringsPrice event = true → ValidPrice event.price)
    (hfresh : event.type = .addOrder → find m.live event.orderId = none) :
    ∃ c' Q', c.consume event = .ok c' ∧ Shows c' Q' (m.step event) := by
  obtain ⟨c', Q', hok, hreplays⟩ := h.replays.consume hv hfresh
  obtain ⟨c₁, Q₁, hok₁, hb₁, hx₁⟩ := h.exceeds.consume h.replays hv
  cases hok.symm.trans hok₁
  -- the two know the same book, and a book determines its queues
  have hQ : Q₁ = Q' := funext fun lv =>
    (hb₁.queue lv).unique (hreplays.store.pooled.book.queue lv)
  refine ⟨c', Q', hok, hreplays, fun lv => ?_⟩
  dsimp only
  rw [step_reduced, ← hQ]
  exact hx₁ lv

theorem content_ne_nil (h : Shows c Q m) {lv : LevelPtr} :
    Q lv ≠ [] ↔ ∃ o ∈ m.live, stands lv o = true := by
  have hcontent : content m.live lv = [] ↔ Q lv = [] := by
    rw [h.replays.store.holds.content lv, List.map_eq_nil_iff]
  rw [ne_eq, ← hcontent, content, List.filter_eq_nil_iff]
  simp only [not_forall, not_not, exists_prop]

theorem best_none (h : Shows c Q m) (hbest : m.best side = none) : c.book.best side = 0 := by
  have hb := h.replays.store.pooled.book
  refine (hb.best side).unique (Or.inl ⟨rfl, fun i => ?_⟩)
  rw [← Bool.not_eq_true, hb.bits]
  rintro ⟨hi, hne⟩
  obtain ⟨o, ho, hstands⟩ := h.content_ne_nil.mp hne
  exact bestOf_none hbest o ho (stands_iff_price.mp hstands).1

theorem best_some (h : Shows c Q m) (hbest : m.best side = some price) :
    ValidPrice price ∧ c.book.best side = price := by
  have hb := h.replays.store.pooled.book
  obtain ⟨⟨o, ho, hside, hprice⟩, hall⟩ := bestOf_some h.replays.priced hbest
  have hv : ValidPrice price := hprice ▸ h.replays.priced o ho
  refine ⟨hv, (hb.best side).unique (Or.inr ⟨hv.ne_zero, ?_, fun j hj => ?_⟩)⟩
  · rw [hb.bits]
    refine ⟨hv.index_lt, h.content_ne_nil.mpr ⟨o, ho, ?_⟩⟩
    rw [stands, decide_eq_true_eq, hside, hprice]
    exact ⟨rfl, rfl⟩
  · obtain ⟨hj, hne⟩ := (hb.bits side j).mp hj
    obtain ⟨x, hx, hstands⟩ := h.content_ne_nil.mp hne
    obtain ⟨hxs, hindex⟩ := of_decide_eq_true hstands
    have hindex : priceToIndex x.price = j := hindex
    rw [← hindex]
    exact hall x hx hxs

theorem queued_eq (h : Shows c Q m) (hv : ValidPrice price) :
    queuedQuantity c.book.orders (Q (levelAt side price hv)) = m.liveQuantity side price := by
  have hcontent := h.replays.store.holds.content (levelAt side price hv)
  have hfilter : content m.live (levelAt side price hv) =
      m.live.filter fun o => o.side = side ∧ o.price = price := by
    refine List.filter_congr fun o ho => ?_
    rw [Bool.eq_iff_iff, stands, decide_eq_true_eq, decide_eq_true_eq]
    exact and_congr_right fun _ => ⟨priceToIndex_inj, congrArg priceToIndex⟩
  rw [Market.liveQuantity, ← hfilter, hcontent, List.map_map]
  rfl

theorem showsMarket (h : Shows c Q m) : ShowsMarket c.book m where
  none := fun side hbest => BookInv.bestLevel_null (h.best_none hbest)
  some := by
    intro side price hbest
    have hb := h.replays.store.pooled.book
    obtain ⟨hv, rfl⟩ := h.best_some hbest
    obtain ⟨hv', hlevel, hne⟩ := hb.bestLevel_some hv.ne_zero
    exact ⟨hv, hlevel, priceToIndex_inj (hb.price _ hne)⟩
  shown := by
    intro side price hv
    have htotal := h.exceeds (levelAt side price hv)
    dsimp only at htotal
    rw [h.queued_eq hv] at htotal
    have hprice : Int64.ofNat (levelAt side price hv).index.val = price := ofNat_priceToIndex price
    rw [hprice] at htotal
    rw [← UInt32.toNat_inj, htotal, Market.shown, UInt32.toNat_ofNat']
    rfl

theorem consumeAll (h : Shows c Q m) (events : List MarketDataEvent)
    (hv : ∀ event ∈ events, bringsPrice event = true → ValidPrice event.price)
    (hfresh : addsFresh defaultOrderCapacity m.live events = true) :
    ∃ c' Q', c.consumeAll events = .ok c' ∧ Shows c' Q' (m.run events) := by
  induction events generalizing c Q m with
  | nil => exact ⟨c, Q, rfl, h⟩
  | cons event events ih =>
      rw [addsFresh, Bool.and_eq_true, Bool.or_eq_true, decide_eq_true_eq,
        Option.isNone_iff_eq_none] at hfresh
      obtain ⟨c₁, Q₁, hok, h₁⟩ := h.consume (hv event List.mem_cons_self)
        fun ht => hfresh.1.resolve_left fun hne => hne ht
      obtain ⟨c₂, Q₂, hok₂, h₂⟩ := ih h₁
        (fun x hx => hv x (List.mem_cons_of_mem event hx)) hfresh.2
      refine ⟨c₂, Q₂, ?_, h₂⟩
      simp only [MarketDataBookConsumer.consumeAll, hok, bind, Except.bind, hok₂]

end Shows

/-- After every feed with prices in range, whose Add Orders are for ids that are not live,
the best levels of the consumer's book stand at the best prices of the live orders, and
every level shows what is live on it and what was ever taken out of orders that stayed. -/
theorem book_shows_market (stdHash : OrderId → Nat) (events : List MarketDataEvent)
    (hprices : ∀ event ∈ events, event.type = .addOrder ∨ event.type = .replaceOrder →
      ValidPrice event.price)
    (hfresh : addsFresh defaultOrderCapacity [] events = true) :
    ∃ c, (MarketDataBookConsumer.init stdHash).consumeAll events = .ok c ∧
      ShowsMarket c.book (Market.empty.run events) := by
  obtain ⟨c, Q, hok, h⟩ := (Shows.init stdHash).consumeAll events
    (fun event hmem hb => hprices event hmem (of_decide_eq_true hb)) hfresh
  exact ⟨c, hok, h.showsMarket⟩

/-- Two bids at one price, of which one is executed in part and then cancelled: the level
shows the four shares that were executed for as long as it stands. -/
def partlyExecuted : List MarketDataEvent :=
  [{ orderId := 1, price := 100, quantity := 10 }, { orderId := 2, price := 100, quantity := 5 },
    { type := .executeOrder, orderId := 1, quantity := 4 },
    { type := .deleteOrder, orderId := 1 }]

theorem book_shows_market_partly_executed :
    ∃ c, (MarketDataBookConsumer.init UInt64.toNat).consumeAll partlyExecuted = .ok c ∧
      ShowsMarket c.book (Market.empty.run partlyExecuted) ∧
      (Market.empty.run partlyExecuted).best .buy = some 100 ∧
      (Market.empty.run partlyExecuted).shown .buy 100 = 9 ∧
      (Market.empty.run partlyExecuted).liveQuantity .buy 100 = 5 := by
  obtain ⟨c, hok, hshows⟩ := book_shows_market UInt64.toNat partlyExecuted (by decide) (by decide)
  exact ⟨c, hok, hshows, by decide, by decide, by decide⟩

end OpenHft
