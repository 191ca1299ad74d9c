import OpenHft.Lib.Runs
import OpenHft.Proofs.ConsumerReplay

/-!
# The index of a consumer's book

An order is found by its id, and only what is found is ever cancelled. `replaceOrder`
looks whether its new id is taken; `addOrder` does not, and `FixedHashMap::insert` writes
over the entry of an id that is there. The order the entry was for is then on its level
for good: a later delete of the id takes the other one away. So the index goes with the
levels as long as no `AddOrder` that finds an object in the pool has an id of the index,
and no longer.
-/

namespace OpenHft

open OpenHft.Lib Replay

/-- The orders of these queues are exactly those of the index, each under its own id and no
two under one. -/
structure IndexedAs (b : ArrayOrderBook) (Q : Queues) : Prop where
  queue : ∀ lv, IsQueue b.orders (b.levels lv) lv (Q lv)
  index : ∀ id p, b.orderIndex.find id = some p ↔ (∃ lv, p ∈ Q lv) ∧ (b.orders p).id = id
  distinct : ∀ lv lv', ∀ p ∈ Q lv, ∀ q ∈ Q lv', (b.orders p).id = (b.orders q).id → p = q

theorem BookHolds.indexedAs {b : ArrayOrderBook} {Q : Queues} {C : Content}
    (h : BookHolds b Q C) : IndexedAs b Q where
  queue := h.inv.queue
  index := fun _ _ => h.find_iff
  distinct := fun _ _ _ hp _ hq heq => h.eq_of_id hq hp heq

namespace MarketDataBookConsumer

variable {c c' : MarketDataBookConsumer} {event : MarketDataEvent} {Q : Queues}
  {live : List OrderData}

/-- The levels of the book are lists of orders, and the index has those orders. -/
def IndexMatches (c : MarketDataBookConsumer) : Prop := ∃ Q, IndexedAs c.book Q

/-- An order that is added under an id which the index does not have yet. -/
def AddsUnknown (c : MarketDataBookConsumer) (event : MarketDataEvent) : Prop :=
  event.type = .addOrder → c.orderPool.freeList ≠ [] →
    c.book.orderIndex.contains event.orderId = false

theorem consume_replays (h : Replays c Q live)
    (hv : bringsPrice event = true → ValidPrice event.price) (hadds : c.AddsUnknown event) :
    ∃ c' Q' live', c.consume event = .ok c' ∧ Replays c' Q' live' := by
  by_cases hlost : event.type = .addOrder ∧ c.orderPool.freeList = []
  · exact ⟨c, Q, live, consume_add_none hlost.1 hlost.2, h⟩
  · obtain ⟨c', Q', hok, h'⟩ := h.consume hv fun ht => by
      have hunknown := hadds ht fun hnil => hlost ⟨ht, hnil⟩
      exact h.find_none (ArrayOrderBook.contains_eq_false_iff.mp hunknown)
    exact ⟨c', Q', _, hok, h'⟩

/-- Two orders of one id cannot both be in the index. -/
theorem adds_unknown_of_matches (h : Replays c Q live)
    (hv : bringsPrice event = true → ValidPrice event.price)
    (hok : c.consume event = .ok c') (hmatches : c'.IndexMatches) :
    c.AddsUnknown event := by
  intro ht hroom
  obtain ⟨p, rest, hfree⟩ := List.exists_cons_of_ne_nil hroom
  rw [ArrayOrderBook.contains_eq_false_iff]
  cases hf : c.book.orderIndex.find event.orderId with
  | none => rfl
  | some q =>
      obtain ⟨⟨lv, hq⟩, hid⟩ := h.store.holds.find_iff.mp hf
      have hlent := (h.store.pooled.lend hfree).rewrite (o := newOrder event)
        List.mem_cons_self rfl
      obtain ⟨b, hadd, heff, hinv⟩ := hlent.add (c.book.rewriteOrder_self p _)
        (hv (by simp [bringsPrice, ht]))
      cases hok.symm.trans (consume_add_some ht hfree hadd)
      obtain ⟨Q', hQ'⟩ := hmatches
      have hqueues : Q' = Q.push _ p :=
        funext fun lv => (hQ'.queue lv).unique (hinv.book.queue lv)
      have hne : p ≠ q := hlent.ne_linked List.mem_cons_self hq
      have hp' : p ∈ Q' _ := hqueues ▸ (Queues.mem_push_iff Q).mpr (.inr ⟨rfl, rfl⟩)
      have hq' : q ∈ Q' lv := hqueues ▸ (Queues.mem_push_iff Q).mpr (.inl hq)
      have hids (x : OrderPtr) : (b.orders x).id =
          ((c.book.rewriteOrder p (newOrder event)).orders x).id :=
        congrArg OrderData.id (heff.data x)
      refine absurd (hQ'.distinct _ _ p hp' q hq' ?_) hne
      rw [hids, hids, c.book.rewriteOrder_self, c.book.rewriteOrder_of_ne _ hne.symm, hid]
      rfl

theorem consumeAll_replays_of_steps {events : List MarketDataEvent} (h : Replays c Q live)
    (hv : ∀ event ∈ events, bringsPrice event = true → ValidPrice event.price)
    (hsteps : StepsMeet consume AddsUnknown c events) :
    ∃ c' Q' live', c.consumeAll events = .ok c' ∧ Replays c' Q' live' := by
  induction events generalizing c Q live with
  | nil => exact ⟨c, Q, live, rfl, h⟩
  | cons event events ih =>
      obtain ⟨c₁, Q₁, live₁, hok, h₁⟩ :=
        consume_replays h (hv event List.mem_cons_self) hsteps.1
      obtain ⟨c', Q', live', hok', h'⟩ := ih h₁
        (fun x hx => hv x (List.mem_cons_of_mem event hx)) (hsteps.2 c₁ hok)
      refine ⟨c', Q', live', ?_, h'⟩
      rw [consumeAll, hok]
      exact hok'

/-- A `DeleteOrder` leaves no order of its id. -/
theorem delete_gone (h : Replays c Q live) (ht : event.type = .deleteOrder) :
    ∃ c' Q', c.consume event = .ok c' ∧ IndexedAs c'.book Q' ∧
      ∀ lv, ∀ p ∈ Q' lv, (c'.book.orders p).id ≠ event.orderId := by
  obtain ⟨c', Q', hok, h'⟩ := h.delete ht
  refine ⟨c', Q', hok, h'.store.holds.indexedAs, fun lv p hp => ?_⟩
  exact (mem_dropKey.mp (mem_content.mp (h'.store.holds.mem_content hp)).1).2

end MarketDataBookConsumer

open MarketDataBookConsumer

/-- After every event of a run the orders on the levels are those of the index if and only
if no order is added under an id that the index has. As long as that is so, a delete leaves
no order of its id. -/
theorem index_matches_iff (stdHash : OrderId → Nat) (events : List MarketDataEvent)
    (hprices : ∀ event ∈ events, event.type = .addOrder ∨ event.type = .replaceOrder →
      ValidPrice event.price) :
    (Throughout consume IndexMatches (.init stdHash) events ↔
      StepsMeet consume AddsUnknown (.init stdHash) events) ∧
    (StepsMeet consume AddsUnknown (.init stdHash) events →
      ∃ c, (MarketDataBookConsumer.init stdHash).consumeAll events = .ok c ∧
        ∀ event : MarketDataEvent, event.type = .deleteOrder →
          ∃ c' Q, c.consume event = .ok c' ∧ IndexedAs c'.book Q ∧
            ∀ lv, ∀ p ∈ Q lv, (c'.book.orders p).id ≠ event.orderId) := by
  have hv : ∀ event ∈ events, bringsPrice event = true → ValidPrice event.price :=
    fun event hmem hb => hprices event hmem (of_decide_eq_true hb)
  constructor
  · refine throughout_iff_of (fun event => bringsPrice event = true → ValidPrice event.price)
      (fun c => ∃ Q live, Replays c Q live) ?_ ?_ ?_ ⟨_, _, init_replays stdHash⟩ events hv
    · rintro c ⟨Q, live, h⟩
      exact ⟨Q, h.store.holds.indexedAs⟩
    · rintro c event hv ⟨Q, live, h⟩ hadds
      obtain ⟨c', Q', live', hok, h'⟩ := consume_replays h hv hadds
      exact ⟨c', hok, Q', live', h'⟩
    · rintro c event c' hv ⟨Q, live, h⟩
      exact adds_unknown_of_matches h hv
  · intro hsteps
    obtain ⟨c, Q, live, hok, h⟩ := consumeAll_replays_of_steps (init_replays stdHash) hv hsteps
    exact ⟨c, hok, fun event => delete_gone h⟩

/-- Two orders under different ids. -/
theorem index_matches_iff_two_orders :
    Throughout consume IndexMatches (.init UInt64.toNat)
      [{ orderId := 1, price := 100, quantity := 10 },
        { orderId := 2, price := 100, quantity := 5 }] := by
  refine (index_matches_iff UInt64.toNat _ (by decide)).1.mpr
    ⟨fun _ _ => by decide +kernel, fun c hok => ⟨fun _ _ => ?_, fun _ _ => trivial⟩⟩
  have hunknown : ((MarketDataBookConsumer.init UInt64.toNat).consume
      { orderId := 1, price := 100, quantity := 10 }).map
        (fun c => c.book.orderIndex.contains 2) = .ok false := by decide +kernel
  rw [hok] at hunknown
  exact Except.ok.inj hunknown

/-- Two orders added under one id, and a delete of the id: the first still rests, at the
price of 100, and is no longer found. -/
theorem repeated_id_leaves_order :
    ∃ c p lv, (MarketDataBookConsumer.init UInt64.toNat).consumeAll
        [{ orderId := 1, price := 100, quantity := 10 },
          { orderId := 1, price := 101, quantity := 5 },
          { type := .deleteOrder, orderId := 1 }] = .ok c ∧
      (c.book.levels lv).head = some p ∧ (c.book.orders p).level = some lv ∧
      (c.book.orders p).id = 1 ∧ c.book.orderIndex.find 1 = none := by
  let lv : LevelPtr := ⟨.buy, ⟨100, by decide⟩⟩
  have hleft : ((MarketDataBookConsumer.init UInt64.toNat).consumeAll
      [{ orderId := 1, price := 100, quantity := 10 },
        { orderId := 1, price := 101, quantity := 5 },
        { type := .deleteOrder, orderId := 1 }]).map
      (fun c => ((c.book.levels lv).head, (c.book.orders 4095).level, (c.book.orders 4095).id,
        c.book.orderIndex.find 1)) = .ok (some 4095, some lv, 1, none) := by decide +kernel
  obtain ⟨c, hok, hc⟩ := map_eq_ok.mp hleft
  simp only [Prod.mk.injEq] at hc
  exact ⟨c, 4095, lv, hok, hc⟩

end OpenHft
