import OpenHft.Proofs.Consumer
import OpenHft.Spec.Replay

/-!
# The consumer replays its events

The book of the consumer, event by event, is the replayed list of live orders:
the queue of every level is the part of the list that stands there. The list is
cut into levels by `Replay.content`; appending, removing and lowering commute
with the cut, and each event of the consumer is one of those three, or a removal
followed by an append.
-/

namespace OpenHft

open OpenHft.Lib

namespace Replay

variable {live : List OrderData} {o : OrderData} {id : OrderId} {lv : LevelPtr}

/-- The order belongs on this level. -/
def stands (lv : LevelPtr) (o : OrderData) : Bool :=
  decide (o.side = lv.side ∧ priceToIndex o.price = lv.index.val)

/-- The list, cut into levels. -/
def content (live : List OrderData) : Content := fun lv => live.filter (stands lv)

theorem stands_iff (hv : ValidPrice o.price) :
    stands lv o = true ↔ lv = levelAt o.side o.price hv := by
  rw [stands, decide_eq_true_eq]
  cases lv with
  | mk side index =>
      simp only [levelAt, LevelPtr.mk.injEq, Fin.ext_iff, eq_comm]

theorem mem_content : o ∈ content live lv ↔ o ∈ live ∧ stands lv o = true :=
  List.mem_filter

theorem content_append (live : List OrderData) (hv : ValidPrice o.price) :
    content (live ++ [o]) = (content live).push (levelAt o.side o.price hv) o := by
  funext lv
  by_cases hlv : lv = levelAt o.side o.price hv
  · subst hlv
    rw [Content.push, Function.update_self, content, List.filter_append,
      List.filter_singleton, (stands_iff hv).mpr rfl]
    rfl
  · have hnot : stands lv o = false := by
      rw [← Bool.not_eq_true, stands_iff hv]
      exact hlv
    rw [Content.push, Function.update_of_ne hlv, content, List.filter_append,
      List.filter_singleton, hnot]
    exact List.append_nil _

theorem content_remove (live : List OrderData) (id : OrderId) :
    content (remove live id) = (content live).remove id := by
  funext lv
  exact List.filter_comm _ _ _

theorem content_lower (live : List OrderData) (id : OrderId) (quantity : Quantity) :
    content (lower live id quantity) = fun lv => (content live lv).map fun o =>
      if o.id = id then { o with quantity := o.quantity - quantity } else o := by
  funext lv
  rw [content, lower, alterKey, List.filter_map]
  refine congrArg (List.map _) (List.filter_congr fun o _ => ?_)
  rw [Function.comp_apply, stands, stands]
  split <;> rfl

theorem content_fresh (hv : ∀ o ∈ live, ValidPrice o.price) :
    (content live).Fresh id ↔ ∀ o ∈ live, o.id ≠ id := by
  constructor
  · intro h o ho
    exact h _ o (mem_content.mpr ⟨ho, (stands_iff (hv o ho)).mpr rfl⟩)
  · intro h lv o ho
    exact h o (mem_content.mp ho).1

theorem reduce_none (hf : find live id = none) (quantity : Quantity) :
    reduce live id quantity = live := by
  rw [reduce, hf]

theorem reduce_some (hf : find live id = some o) (quantity : Quantity) :
    reduce live id quantity =
      if quantity = 0 ∨ quantity > o.quantity then live
      else if quantity = o.quantity then remove live id
      else lower live id quantity := by
  rw [reduce, hf]

section Replace

variable {newId : OrderId} {quantity : Quantity}

theorem replace_refused (price : Price)
    (h : newId = 0 ∨ quantity = 0 ∨ newId = id ∨ find live newId ≠ none ∨
      find live id = none) : replace live id newId quantity price = live := by
  cases hf : find live id with
  | none => rw [replace, hf]
  | some o =>
      have hcond : newId = 0 ∨ quantity = 0 ∨ newId = id ∨
          (find live newId).isSome = true := by
        rcases h with h | h | h | h | h
        · exact Or.inl h
        · exact Or.inr (Or.inl h)
        · exact Or.inr (Or.inr (Or.inl h))
        · exact Or.inr (Or.inr (Or.inr (Option.isSome_iff_ne_none.mpr h)))
        · rw [hf] at h
          cases h
      rw [replace, hf]
      exact if_pos hcond

theorem replace_some (price : Price) (hf : find live id = some o) (hnew : newId ≠ 0)
    (hquantity : quantity ≠ 0) (hne : newId ≠ id) (hnone : find live newId = none) :
    replace live id newId quantity price =
      remove live id ++ [⟨newId, o.accountId, o.side, price, quantity⟩] := by
  have hcond : ¬ (newId = 0 ∨ quantity = 0 ∨ newId = id ∨
      (find live newId).isSome = true) := by
    rw [hnone]
    simp [hnew, hquantity, hne]
  rw [replace, hf]
  exact if_neg hcond

end Replace

end Replay

open Replay

/-- The consumer's book is the list of live orders. -/
structure Replays (c : MarketDataBookConsumer) (Q : Queues) (live : List OrderData) :
    Prop where
  store : StoreHolds c.book c.orderPool Q [] (content live)
  priced : ∀ o ∈ live, ValidPrice o.price
  unique : DistinctKeys OrderData.id live
  size : c.book.orderIndex.size = live.length

theorem init_replays (stdHash : OrderId → Nat) :
    Replays (.init stdHash) (fun _ => []) [] where
  store := store_init stdHash
  priced := fun _ ho => absurd ho List.not_mem_nil
  unique := List.nodup_nil
  size := rfl

namespace Replays

open MarketDataBookConsumer

variable {c : MarketDataBookConsumer} {Q : Queues} {live : List OrderData}
  {event : MarketDataEvent} {p : OrderPtr} {lv : LevelPtr} {id : OrderId}
  {b : ArrayOrderBook}

/-- The index finds what the list has. -/
theorem find_none (h : Replays c Q live) (hf : c.book.orderIndex.find id = none) :
    find live id = none := by
  rw [h.store.holds.find_none_iff, content_fresh h.priced] at hf
  exact lookup_eq_none_iff.mpr hf

theorem find_some (h : Replays c Q live) (hf : c.book.orderIndex.find id = some p) :
    find live id = some (c.book.orders p).data := by
  obtain ⟨⟨lv, hp⟩, hid⟩ := h.store.holds.find_iff.mp hf
  exact (lookup_eq_some_iff h.unique).mpr
    ⟨(mem_content.mp (h.store.holds.mem_content hp)).1, hid⟩

/-- Taking a live order out of the book and back to the pool. -/
theorem retire (h : Replays c Q live)
    (heff : ArrayOrderBook.CancelEffect c.book b id p lv)
    (hf : c.book.orderIndex.find id = some p) (hp : p ∈ Q lv) :
    Replays ⟨b, c.orderPool.releaseIfOwned (some p)⟩ (Q.drop lv p) (remove live id) := by
  obtain ⟨hstore, hsize⟩ := h.store.retire heff hf hp
  rw [← content_remove] at hstore
  obtain ⟨hmem, hid⟩ := (lookup_eq_some_iff h.unique).mp (h.find_some hf)
  have hlen := length_dropKey h.unique hmem
  rw [hid, ← h.size] at hlen
  refine ⟨hstore, fun o ho => h.priced o (mem_dropKey.mp ho).1, h.unique.dropKey id, ?_⟩
  show b.orderIndex.size = (dropKey OrderData.id id live).length
  omega

/-- A book with one order more, at the end of its queue. -/
theorem appended {pool : OrderPool} {o : OrderData} (hv : ValidPrice o.price)
    (hstore : StoreHolds b pool Q [] ((content live).push (levelAt o.side o.price hv) o))
    (hpriced : ∀ x ∈ live, ValidPrice x.price) (hunique : DistinctKeys OrderData.id live)
    (hfresh : ∀ x ∈ live, x.id ≠ o.id) (hsize : b.orderIndex.size = live.length + 1) :
    Replays ⟨b, pool⟩ Q (live ++ [o]) := by
  refine ⟨?_, fun x hx => ?_, hunique.append hfresh, ?_⟩
  · rw [content_append live hv]
    exact hstore
  · rcases List.mem_append.mp hx with hx | hx
    · exact hpriced x hx
    · rw [List.mem_singleton.mp hx]
      exact hv
  · rw [List.length_append]
    exact hsize

theorem add (h : Replays c Q live) (ht : event.type = .addOrder)
    (hv : ValidPrice event.price) (hfresh : find live event.orderId = none) :
    ∃ c' Q', c.consume event = .ok c' ∧
      Replays c' Q' (step defaultOrderCapacity live event) := by
  simp only [step, ht]
  cases hfree : c.orderPool.freeList with
  | nil =>
      have hfull : live.length = defaultOrderCapacity := by
        rw [← h.size]
        exact h.store.free_nil_iff.mp hfree
      exact ⟨c, Q, consume_add_none ht hfree, by rw [if_pos hfull]; exact h⟩
  | cons p rest =>
      have hroom : ¬ live.length = defaultOrderCapacity := by
        rw [← h.size, ← h.store.free_nil_iff, hfree]
        simp
      have hnew := lookup_eq_none_iff.mp hfresh
      have hlent := (h.store.lend hfree).rewrite (o := newOrder event)
        List.mem_cons_self rfl
      obtain ⟨b, hok, hstore, hsize⟩ := hlent.add (c.book.rewriteOrder_self p _) hv
        ((content_fresh h.priced).mpr hnew)
      rw [if_neg hroom]
      refine ⟨_, _, consume_add_some ht hfree hok,
        appended (o := added event) hv hstore h.priced h.unique hnew ?_⟩
      rw [← h.size]
      exact hsize

/-- Lowering the quantity of a live order where it stands. -/
theorem lower (h : Replays c Q live) (hf : c.book.orderIndex.find id = some p)
    (quantity : Quantity) :
    Replays { c with book := c.book.lowerQuantity p quantity } Q
      (Replay.lower live id quantity) := by
  obtain ⟨⟨lv, hp⟩, hid⟩ := h.store.holds.find_iff.mp hf
  have hdata : ∀ lv, ∀ q ∈ Q lv, ((c.book.lowerQuantity p quantity).orders q).data =
      if (c.book.orders q).data.id = id then
        { (c.book.orders q).data with quantity := (c.book.orders q).quantity - quantity }
      else (c.book.orders q).data := by
    intro lv' q hq
    by_cases hqp : q = p
    · subst hqp
      rw [if_pos (show (c.book.orders q).data.id = id from hid)]
      show (c.book.orders.modify q _ q).data = _
      rw [Heap.modify_self]
      rfl
    · rw [if_neg fun heq => hqp (h.store.holds.eq_of_id hp hq (heq.trans hid.symm))]
      show (c.book.orders.modify p _ q).data = _
      rw [Heap.modify_of_ne _ _ hqp]
  refine ⟨?_, fun o ho => ?_, h.unique.alterKey fun _ => rfl, ?_⟩
  · rw [content_lower]
    exact h.store.same_links (ArrayOrderBook.lowerQuantity_sameLinks c.book p quantity)
      rfl _ hdata
  · obtain ⟨x, hx, rfl⟩ := List.mem_map.mp ho
    have hprice := h.priced x hx
    split
    · exact hprice
    · exact hprice
  · rw [Replay.lower, alterKey, List.length_map]
    exact h.size

theorem reduce (h : Replays c Q live)
    (ht : event.type = .cancelOrder ∨ event.type = .executeOrder) :
    ∃ c' Q', c.consume event = .ok c' ∧
      Replays c' Q' (Replay.reduce live event.orderId event.quantity) := by
  obtain ⟨r, b, hok, hout⟩ :=
    ArrayOrderBook.reduceOrder_outcome h.store.pooled.book event.orderId event.quantity
  have hconsume := consume_reduce ht hok
  cases hout with
  | unknown hf =>
      rw [reduce_none (h.find_none hf)]
      exact ⟨_, Q, hconsume, h⟩
  | refused p hf hq =>
      rw [reduce_some (h.find_some hf), Order.data_quantity, if_pos hq]
      exact ⟨_, Q, hconsume, h⟩
  | removed p lv _ hf hp hpos hq heff =>
      have hnot : ¬ (event.quantity = 0 ∨ event.quantity > (c.book.orders p).quantity) :=
        not_or.mpr ⟨hpos, by rw [hq]; exact UInt32.lt_irrefl _⟩
      rw [reduce_some (h.find_some hf), Order.data_quantity, if_neg hnot, if_pos hq]
      exact ⟨_, _, hconsume, h.retire heff hf hp⟩
  | reduced p lv hf hp hpos hq =>
      have hnot : ¬ (event.quantity = 0 ∨ event.quantity > (c.book.orders p).quantity) :=
        not_or.mpr ⟨hpos, UInt32.lt_asymm hq⟩
      rw [reduce_some (h.find_some hf), Order.data_quantity, if_neg hnot,
        if_neg (UInt32.ne_of_lt hq)]
      exact ⟨_, Q, hconsume, h.lower hf event.quantity⟩

theorem delete (h : Replays c Q live) (ht : event.type = .deleteOrder) :
    ∃ c' Q', c.consume event = .ok c' ∧
      Replays c' Q' (remove live event.orderId) := by
  cases hf : c.book.orderIndex.find event.orderId with
  | none =>
      rw [remove, dropKey_of_absent (lookup_eq_none_iff.mp (h.find_none hf))]
      exact ⟨_, Q, consume_delete ht (ArrayOrderBook.cancelOrder_none hf), h⟩
  | some p =>
      have hb := h.store.pooled.book
      obtain ⟨lv, hp⟩ := ArrayOrderBook.find_linked hb hf
      obtain ⟨b, hok, heff⟩ := ArrayOrderBook.cancelOrder_effect hb hf hp
      exact ⟨_, _, consume_delete ht hok, h.retire heff hf hp⟩

theorem replace (h : Replays c Q live) (ht : event.type = .replaceOrder)
    (hv : ValidPrice event.price) :
    ∃ c' Q', c.consume event = .ok c' ∧
      Replays c' Q' (Replay.replace live event.orderId event.newOrderId event.quantity
        event.price) := by
  obtain ⟨r, b, hok, hout⟩ := ArrayOrderBook.replaceOrder_outcome h.store.pooled.book
    event.orderId event.newOrderId event.quantity hv
  have hconsume := consume_replace ht hok
  cases hout with
  | refused hwhy =>
      rw [replace_refused]
      · exact ⟨_, Q, hconsume, h⟩
      · rcases hwhy with hwhy | hwhy | hwhy | hwhy | hwhy
        · exact Or.inl hwhy
        · exact Or.inr (Or.inl hwhy)
        · exact Or.inr (Or.inr (Or.inl hwhy))
        · obtain ⟨p, hf⟩ := Option.ne_none_iff_exists'.mp hwhy
          refine Or.inr (Or.inr (Or.inr (Or.inl ?_)))
          rw [h.find_some hf]
          simp
        · exact Or.inr (Or.inr (Or.inr (Or.inr (h.find_none hwhy))))
  | replaced p lv b₁ _ hid hquantity hne hnew hf hp hcancel hadd =>
      obtain ⟨hmem, horig⟩ := (lookup_eq_some_iff h.unique).mp (h.find_some hf)
      have hfresh : ∀ o ∈ remove live event.orderId, o.id ≠ event.newOrderId :=
        fun o ho => lookup_eq_none_iff.mp (h.find_none hnew) o (mem_dropKey.mp ho).1
      have hpriced : ∀ o ∈ remove live event.orderId, ValidPrice o.price :=
        fun o ho => h.priced o (mem_dropKey.mp ho).1
      obtain ⟨hcancelled, hsize⟩ := h.store.cancel hcancel hf hp
      rw [← content_remove] at hcancelled
      have hlent := hcancelled.rewrite
        (o := ArrayOrderBook.replacement (c.book.orders p) event.newOrderId
          event.quantity event.price) List.mem_cons_self rfl
      obtain ⟨hstore, hsize'⟩ := hlent.add_effect hadd (b₁.rewriteOrder_self p _)
        ((content_fresh hpriced).mpr hfresh)
      have hlen := length_dropKey h.unique hmem
      rw [horig, ← h.size, ← hsize] at hlen
      rw [replace_some _ (h.find_some hf) hid hquantity hne (h.find_none hnew)]
      refine ⟨_, _, hconsume, appended (o := ⟨event.newOrderId,
        (c.book.orders p).accountId, (c.book.orders p).side, event.price,
        event.quantity⟩) hv hstore hpriced (h.unique.dropKey _) hfresh ?_⟩
      exact hsize'.trans hlen.symm

theorem consume (h : Replays c Q live)
    (hv : bringsPrice event = true → ValidPrice event.price)
    (hfresh : event.type = .addOrder → find live event.orderId = none) :
    ∃ c' Q', c.consume event = .ok c' ∧
      Replays c' Q' (step defaultOrderCapacity live event) := by
  cases ht : event.type with
  | addOrder => exact h.add ht (hv (by simp [bringsPrice, ht])) (hfresh ht)
  | cancelOrder =>
      simp only [step, ht]
      exact h.reduce (Or.inl ht)
  | deleteOrder =>
      simp only [step, ht]
      exact h.delete ht
  | executeOrder =>
      simp only [step, ht]
      exact h.reduce (Or.inr ht)
  | replaceOrder =>
      simp only [step, ht]
      exact h.replace ht (hv (by simp [bringsPrice, ht]))

theorem consumeAll (h : Replays c Q live) (events : List MarketDataEvent)
    (hv : ∀ event ∈ events, bringsPrice event = true → ValidPrice event.price)
    (hfresh : addsFresh defaultOrderCapacity live events = true) :
    ∃ c' Q', c.consumeAll events = .ok c' ∧
      Replays c' Q' (Replay.run defaultOrderCapacity live events) := by
  induction events generalizing c Q live with
  | nil => exact ⟨c, Q, rfl, h⟩
  | cons event events ih =>
      rw [addsFresh, Bool.and_eq_true, Bool.or_eq_true, decide_eq_true_eq,
        Option.isNone_iff_eq_none] at hfresh
      obtain ⟨c₁, Q₁, hok, h₁⟩ := h.consume (hv event List.mem_cons_self)
        fun ht => hfresh.1.resolve_left fun hne => hne ht
      obtain ⟨c₂, Q₂, hok₂, h₂⟩ := ih h₁
        (fun x hx => hv x (List.mem_cons_of_mem event hx)) hfresh.2
      refine ⟨c₂, Q₂, ?_, h₂⟩
      simp only [MarketDataBookConsumer.consumeAll, hok, bind, Except.bind, hok₂]

end Replays

/-- The book holds these orders and no others, and the queue of every level is
the part of the list that stands on it. -/
def ShowsOrders (b : ArrayOrderBook) (live : List OrderData) : Prop :=
  (∃ Q : Queues, (∀ lv, IsQueue b.orders (b.levels lv) lv (Q lv)) ∧
    (∀ p lv, (b.orders p).level = some lv → p ∈ Q lv) ∧
    ∀ lv, (Q lv).map (fun p => (b.orders p).data) =
      live.filter fun o => o.side = lv.side ∧ priceToIndex o.price = lv.index.val) ∧
  ∀ o ∈ live, ValidPrice o.price

theorem Replays.showsOrders {c : MarketDataBookConsumer} {Q : Queues}
    {live : List OrderData} (h : Replays c Q live) : ShowsOrders c.book live :=
  ⟨⟨Q, h.store.pooled.book.queue, h.store.pooled.book.linked,
    fun lv => (h.store.holds.content lv).symm⟩, h.priced⟩

/-- The consumer's book is the replay of its events. -/
theorem consumeAll_replays (stdHash : OrderId → Nat) (events : List MarketDataEvent)
    (hprices : ∀ event ∈ events, event.type = .addOrder ∨ event.type = .replaceOrder →
      ValidPrice event.price)
    (hfresh : addsFresh defaultOrderCapacity [] events = true) :
    ∃ c, (MarketDataBookConsumer.init stdHash).consumeAll events = .ok c ∧
      ShowsOrders c.book (Replay.run defaultOrderCapacity [] events) := by
  obtain ⟨c, Q, hok, h⟩ := (init_replays stdHash).consumeAll events
    (fun event hmem hb => hprices event hmem (of_decide_eq_true hb)) hfresh
  exact ⟨c, hok, h.showsOrders⟩

/-- Two orders at one price, one executed in part and the other replaced. -/
theorem consumeAll_replays_four_events :
    ∃ c, (MarketDataBookConsumer.init UInt64.toNat).consumeAll
        [{ orderId := 1, price := 100, quantity := 10 },
          { orderId := 2, price := 100, quantity := 5 },
          { type := .executeOrder, orderId := 1, quantity := 4 },
          { type := .replaceOrder, orderId := 2, newOrderId := 3, price := 101,
            quantity := 7 }] = .ok c ∧
      ShowsOrders c.book [⟨1, 0, .buy, 100, 6⟩, ⟨3, 0, .buy, 101, 7⟩] :=
  consumeAll_replays UInt64.toNat _ (by decide) (by decide)

/-- An order in the list stands in the book. -/
theorem ShowsOrders.linked {b : ArrayOrderBook} {live : List OrderData}
    (h : ShowsOrders b live) {o : OrderData} (ho : o ∈ live) :
    ∃ p lv, (b.orders p).level = some lv ∧ (b.orders p).data = o := by
  obtain ⟨⟨Q, hqueue, _, hshown⟩, hpriced⟩ := h
  have hmem : o ∈ (Q (levelAt o.side o.price (hpriced o ho))).map
      fun p => (b.orders p).data := by
    rw [hshown]
    exact List.mem_filter.mpr ⟨ho, decide_eq_true ⟨rfl, rfl⟩⟩
  obtain ⟨p, hp, hdata⟩ := List.mem_map.mp hmem
  exact ⟨p, _, (hqueue _).level p hp, hdata⟩

/-- An order of quantity 0, cancelled by 0, which is all it has: it stays. -/
theorem cancel_of_zero_keeps_order :
    ∃ c, (MarketDataBookConsumer.init UInt64.toNat).consumeAll
        [{ orderId := 1, price := 100, quantity := 0 },
          { type := .cancelOrder, orderId := 1, quantity := 0 }] = .ok c ∧
      ∃ p lv, (c.book.orders p).level = some lv ∧
        (c.book.orders p).data = ⟨1, 0, .buy, 100, 0⟩ := by
  obtain ⟨c, Q, hok, h⟩ := (init_replays UInt64.toNat).consumeAll
    [{ orderId := 1, price := 100, quantity := 0 },
      { type := .cancelOrder, orderId := 1, quantity := 0 }] (by decide) (by decide)
  exact ⟨c, hok, h.showsOrders.linked (by decide)⟩

end OpenHft
