import OpenHft.Proofs.EngineStep
import OpenHft.Proofs.Rounds

/-!
# The engine refines price-time priority

`Refines e Q lent R` relates a state of the engine to a reference book: the
queues of the levels are the reference lists taken apart by price, every linked
order is indexed under its own id, the sequencer and the trades published agree,
and the pool's free objects and the resting orders add up to the pool.

Each step of `submitOrder` is simulated: taking an object from the pool, one
round of `matchOne`, adding what is left or releasing it. The one thing the
simulation needs from outside is that the id given to a new order is not that
of a resting one.
-/

namespace OpenHft

open OpenHft.Lib PriceTime

/-- The engine holds the orders of the reference book and has published its trades, with the
same number to give out next. The orders `lent` are out of the pool but not in the book. -/
structure Refines (e : MatchingEngine) (Q : Queues) (lent : List OrderPtr)
    (R : Book) : Prop where
  store : StoreHolds e.book e.orderPool Q lent R.content
  ranked : Ranked R
  size : e.book.orderIndex.size = R.orders.length
  sequence : e.sequence = R.sequence
  trades : e.published = R.trades

theorem init_refines (stdHash : OrderId → Nat) :
    Refines (.init stdHash) (fun _ => []) [] .empty where
  store := store_init stdHash
  ranked := Book.empty_ranked
  size := rfl
  sequence := rfl
  trades := rfl

theorem levelAt_congr {side : Side} {price price' : Price} (h : price = price')
    (hv : ValidPrice price) (hv' : ValidPrice price') :
    levelAt side price hv = levelAt side price' hv' := by subst h; rfl

namespace Refines

variable {e e' : MatchingEngine} {Q Q' : Queues} {lent : List OrderPtr} {R : Book}
  {p x : OrderPtr} {xs : List OrderPtr} {side : Side} {r : OrderData}
  {rest : List OrderData}

theorem engine (h : Refines e Q lent R) : EngineInv e Q lent := h.store.pooled

theorem holds (h : Refines e Q lent R) : BookHolds e.book Q R.content := h.store.holds

/-! ## Taking an object from the pool -/

/-- The pool is empty exactly if it is all resting. -/
theorem free_nil_iff (h : Refines e Q [] R) :
    e.orderPool.freeList = [] ↔ R.orders.length = defaultOrderCapacity := by
  rw [← h.size]
  exact h.store.free_nil_iff

theorem prepare (h : Refines e Q [] R) {free : List OrderPtr}
    (hfree : e.orderPool.freeList = p :: free) {o : Order} (ho : o.level = none) :
    Refines (EngineInv.prepared e p free o) Q [p]
      { R with sequence := R.sequence + 1 } := by
  refine ⟨(h.store.lend hfree).rewrite List.mem_cons_self ho,
    ⟨h.ranked.sorted, h.ranked.placed, h.ranked.unique⟩, h.size, ?_, h.trades⟩
  show e.sequence + 1 = R.sequence + 1
  rw [h.sequence]

/-! ## Adding and releasing -/

theorem add (h : Refines e Q [p] R) {o : OrderData}
    (ho : (e.book.orders p).data = o) (hv : ValidPrice o.price)
    (hfresh : ∀ x ∈ R.orders, x.id ≠ o.id) :
    ∃ b, e.book.addOrder p = .ok b ∧
      Refines { e with book := b } (Q.push (levelAt o.side o.price hv) p) []
        (R.setSide o.side (insertBehind OrderData.rank o (R.resting o.side))) := by
  subst ho
  obtain ⟨b, hok, hstore, hsize⟩ :=
    h.store.add rfl hv ((content_fresh h.ranked).mpr hfresh)
  have hcontent := content_insertBehind h.ranked hv
  refine ⟨b, hok, by rw [hcontent]; exact hstore, h.ranked.insert hv hfresh, ?_,
    h.sequence, h.trades⟩
  show b.orderIndex.size = _
  rw [(orders_insertBehind R _).length_eq, List.length_cons, hsize, h.size]

theorem free (h : Refines e Q [p] R) :
    Refines (e.releaseIfOwned (some p)) Q [] R := by
  rw [h.engine.releaseIfOwned_some ((h.engine.inUse p).mpr (Or.inr List.mem_cons_self))]
  exact ⟨h.store.takeBack, h.ranked, h.size, h.sequence, h.trades⟩

/-! ## One round -/

/-- The head of a side's list is the front of that side's best level. -/
theorem front (h : Refines e Q lent R) (hr : R.resting side = r :: rest) :
    ∃ hv : ValidPrice r.price, e.book.best side = r.price ∧
      ∃ x xs, Q (levelAt side r.price hv) = x :: xs ∧ (e.book.orders x).data = r := by
  have hv := (h.ranked.placed side r (by rw [hr]; exact List.mem_cons_self)).2
  refine ⟨hv, best_of_cons h.holds h.ranked hr, ?_⟩
  have hC := h.holds.content (levelAt side r.price hv)
  rw [content_head hr hv] at hC
  obtain ⟨x, xs, hQ, hx, _⟩ := List.map_eq_cons_iff.mp hC.symm
  exact ⟨x, xs, hQ, hx⟩

theorem createTrade_eq (incoming resting : Order) (quantity : Quantity)
    (sequence : UInt64) :
    MatchingEngine.createTrade incoming resting quantity sequence =
      tradeOf incoming.data resting.data quantity sequence := by
  rw [MatchingEngine.createTrade, tradeOf, Order.data_side]
  cases incoming.side <;> rfl

theorem tradedQuantity_eq_min (incoming resting : Order) :
    MatchingEngine.tradedQuantity incoming resting =
      min incoming.quantity resting.quantity := by
  rw [MatchingEngine.tradedQuantity]
  show _ = if _ ≤ _ then _ else _
  split
  · next hlt => rw [if_pos (UInt32.le_of_lt hlt)]
  · next hge =>
      split
      · next hle => exact UInt32.le_antisymm (UInt32.not_lt.mp hge) hle
      · rfl

/-- Lowers the quantity of the order with the id. -/
def lower (id : OrderId) (quantity : Quantity) (o : OrderData) : OrderData :=
  if o.id = id then { o with quantity := o.quantity - quantity } else o

/-- Among the linked orders only the resting one of a trade changes. -/
theorem afterTrade_data (h : Refines e Q [p] R) {lv : LevelPtr} (hmem : x ∈ Q lv)
    {quantity : Quantity}
    (hq : MatchingEngine.tradedQuantity (e.book.orders p) (e.book.orders x) =
      quantity) {lv' : LevelPtr} {q : OrderPtr} (hmemq : q ∈ Q lv') :
    ((e.afterTrade p x).book.orders q).data =
      lower (e.book.orders x).id quantity (e.book.orders q).data := by
  have hne := h.engine.ne_linked List.mem_cons_self hmem
  have hqp : q ≠ p := (h.engine.ne_linked List.mem_cons_self hmemq).symm
  show ((MatchingEngine.fill e.book p x _).orders q).data = _
  rw [hq, MatchingEngine.fill_orders hne]
  by_cases hqx : q = x
  · subst hqx
    rw [if_pos (Or.inr rfl)]
    exact (if_pos rfl).symm
  · have hid : (e.book.orders q).data.id ≠ (e.book.orders x).id :=
      fun heq => hqx (h.holds.eq_of_id hmem hmemq heq)
    rw [if_neg (not_or.mpr ⟨hqp, hqx⟩)]
    exact (if_neg hid).symm

/-- The subtractions: the head of the list has its quantity lowered. -/
theorem afterTrade (h : Refines e Q [p] R) (hr : R.resting side = r :: rest)
    (hv : ValidPrice r.price) (hQ : Q (levelAt side r.price hv) = x :: xs)
    (hx : (e.book.orders x).data = r) {quantity : Quantity}
    (hq : MatchingEngine.tradedQuantity (e.book.orders p) (e.book.orders x) =
      quantity) :
    Refines (e.afterTrade p x) Q [p]
      (traded R side ({ r with quantity := r.quantity - quantity } :: rest)
        (tradeOf (e.book.orders p).data r quantity (R.sequence + 1))) := by
  have hmem : x ∈ Q (levelAt side r.price hv) := by
    rw [hQ]
    exact List.mem_cons_self
  have hid : (e.book.orders x).id = r.id := congrArg OrderData.id hx
  have hlower : lower r.id quantity r = { r with quantity := r.quantity - quantity } :=
    if_pos rfl
  have hlinks : SameLinks e.book (e.afterTrade p x).book :=
    MatchingEngine.fill_sameLinks e.book p x _
  have hstore := h.store.same_links hlinks rfl (lower r.id quantity)
    (fun lv q hmemq => hid ▸ h.afterTrade_data hmem hq hmemq)
  rw [← content_head_quantity h.ranked hr (lower r.id quantity) (fun o ho => if_neg ho)
    (by rw [hlower]), hlower] at hstore
  have hranked : Ranked
      (R.setSide side ({ r with quantity := r.quantity - quantity } :: rest)) :=
    h.ranked.head hr rfl rfl rfl
  refine ⟨hstore, ⟨hranked.sorted, hranked.placed, hranked.unique⟩, ?_, ?_, ?_⟩
  · show e.book.orderIndex.size =
      (R.setSide side ({ r with quantity := r.quantity - quantity } :: rest)).orders.length
    rw [h.size, orders_setSide, Book.orders]
    cases side with
    | buy => rw [hr]; simp
    | sell => rw [hr]; simp
  · show e.sequence + 1 = R.sequence + 1
    rw [h.sequence]
  · show e.published ++ [_] = R.trades ++ [_]
    rw [h.trades, createTrade_eq, hx, hq, h.sequence]

/-- Removing the head of a side's list once it is filled. -/
theorem retire (h : Refines e Q [p] R) (hr : R.resting side = r :: rest)
    (hv : ValidPrice r.price) (hQ : Q (levelAt side r.price hv) = x :: xs)
    (hx : (e.book.orders x).data = r)
    (hret : MatchingEngine.RetireOutcome e Q x e' Q') :
    Refines e' Q' [p] (if r.quantity = 0 then R.setSide side rest else R) := by
  have hmem : x ∈ Q (levelAt side r.price hv) := by
    rw [hQ]
    exact List.mem_cons_self
  have hquantity : (e.book.orders x).quantity = r.quantity := by rw [← hx]; rfl
  have hid : (e.book.orders x).id = r.id := by rw [← hx]; rfl
  have hfind := h.holds.indexed _ x hmem
  cases hret with
  | kept hne =>
      rw [hquantity] at hne
      rw [if_neg hne]
      exact h
  | lost _ hf =>
      rw [hfind] at hf
      cases hf
  | removed q lv b h0 hf hq heff =>
      rw [hquantity] at h0
      rw [if_pos h0]
      rw [hfind] at hf
      cases hf
      obtain ⟨hstore, hsize⟩ := h.store.retire heff hfind hq
      rw [hid, ← content_tail h.ranked hr] at hstore
      refine ⟨hstore, h.ranked.tail hr, ?_, h.sequence, h.trades⟩
      have hlen := h.size
      show b.orderIndex.size = _
      rw [orders_setSide]
      rw [Book.orders] at hlen
      cases side with
      | buy =>
          rw [hr] at hlen
          simp only [List.length_append, List.length_cons] at hlen ⊢
          omega
      | sell =>
          rw [hr] at hlen
          simp only [List.length_append, List.length_cons] at hlen ⊢
          omega

/-- One round of `matchOne` is one trade with the head of the other list. -/
theorem round (h : Refines e Q [p] R)
    (hr : R.resting (e.book.orders p).side.opposite = r :: rest) {quantity : Quantity}
    (hquantity : min (e.book.orders p).quantity r.quantity = quantity) :
    ∃ e' Q', e.matchOne p = .ok (decide (quantity > 0), e') ∧
      Refines e' Q' [p]
        (traded R (e.book.orders p).side.opposite (afterRound r rest quantity)
          (tradeOf (e.book.orders p).data r quantity (R.sequence + 1))) ∧
      (e'.book.orders p).data = { (e.book.orders p).data with
        quantity := (e.book.orders p).quantity - quantity } := by
  obtain ⟨hv, hbest, x, xs, hQ, hx⟩ := h.front hr
  obtain ⟨again, e', Q', hok, hout⟩ := MatchingEngine.matchOne_outcome h.engine p
  have hmem : x ∈ Q (levelAt (e.book.orders p).side.opposite r.price hv) := by
    rw [hQ]
    exact List.mem_cons_self
  have hne := h.engine.ne_linked List.mem_cons_self hmem
  cases hout with
  | idle h0 =>
      rw [hbest] at h0
      exact absurd h0 hv.ne_zero
  | traded hv' x' xs' hQ' e' Q' hret =>
      rw [levelAt_congr hbest hv' hv, hQ] at hQ'
      cases hQ'
      have htraded : MatchingEngine.tradedQuantity (e.book.orders p)
          (e.book.orders x) = quantity := by
        rw [tradedQuantity_eq_min, ← hquantity, ← hx]
        rfl
      rw [htraded] at hok
      have hA := h.afterTrade hr hv hQ hx htraded
      have hx' : ((e.afterTrade p x).book.orders x).data =
          { r with quantity := r.quantity - quantity } := by
        show ((MatchingEngine.fill e.book p x _).orders x).data = _
        rw [MatchingEngine.fill_orders hne, if_pos (Or.inr rfl), htraded, ← hx]
        rfl
      have hB := hA.retire (r := { r with quantity := r.quantity - quantity })
        (traded_resting R _ _ _) hv hQ hx' hret
      refine ⟨e', Q', hok, ?_, ?_⟩
      · rw [afterRound]
        simp only [Quantity.sub_eq_zero_iff, traded_setSide] at hB
        split at hB
        · next heq => rw [if_pos heq]; exact hB
        · next heq => rw [if_neg heq]; exact hB
      · rw [hret.data hA.engine.book p]
        show ((MatchingEngine.fill e.book p x _).orders p).data = _
        rw [MatchingEngine.fill_orders hne, if_pos (Or.inl rfl), htraded]
        rfl

/-! ## The loop -/

theorem canCross_nil (h : Refines e Q lent R)
    (hr : R.resting (e.book.orders p).side.opposite = []) :
    e.canCross p = .ok false :=
  MatchingEngine.canCross_null (best_of_nil h.holds hr)

theorem canCross_cons (h : Refines e Q lent R)
    (hr : R.resting (e.book.orders p).side.opposite = r :: rest) :
    e.canCross p = .ok
      (reaches (e.book.orders p).side (e.book.orders p).price r.price) := by
  obtain ⟨hv, hbest, _⟩ := h.front hr
  rw [MatchingEngine.canCross_best h.engine.book (by rw [hbest]; exact hv.ne_zero),
    hbest]

/-- The loop stops at once when there is nothing to cross. -/
theorem tradeLoop_noCross {rounds : Nat} (hc : e.canCross p = .ok false) :
    MatchingEngine.tradeLoop p rounds e = .ok e := by
  cases rounds <;> simp [MatchingEngine.tradeLoop, hc, bind, Except.bind]

theorem tradeLoop_round {rounds : Nat} (hpos : (e.book.orders p).quantity > 0)
    (hc : e.canCross p = .ok true) (hok : e.matchOne p = .ok (true, e')) :
    MatchingEngine.tradeLoop p (rounds + 1) e = MatchingEngine.tradeLoop p rounds e' := by
  simp only [MatchingEngine.tradeLoop, if_pos hpos, hc, hok, bind, Except.bind, if_pos]

/-- What two positive quantities trade is positive, and exhausts one of them. -/
theorem min_quantity {a b quantity : Quantity} (ha : a ≠ 0) (hb : b ≠ 0)
    (h : min a b = quantity) :
    quantity > 0 ∧ (a - quantity).toNat < a.toNat ∧ (b ≠ quantity → a = quantity) := by
  subst h
  rcases Quantity.min_cases a b with ⟨heq, _⟩ | ⟨heq, hlt⟩ <;> rw [heq]
  · refine ⟨UInt32.pos_iff_ne_zero.mpr ha, ?_, fun _ => rfl⟩
    rw [UInt32.sub_self]
    exact UInt32.lt_iff_toNat_lt.mp (UInt32.pos_iff_ne_zero.mpr ha)
  · have hpos := UInt32.pos_iff_ne_zero.mpr hb
    refine ⟨hpos, ?_, fun hne => absurd rfl hne⟩
    rw [UInt32.toNat_sub_of_le _ _ (UInt32.le_of_lt hlt)]
    have := UInt32.lt_iff_toNat_lt.mp hlt
    have := UInt32.lt_iff_toNat_lt.mp hpos
    rw [UInt32.toNat_zero] at this
    omega

theorem tradeLoop_last {n : Nat} (hpos : (e.book.orders p).quantity > 0)
    (hc : e.canCross p = .ok true) (hok : e.matchOne p = .ok (false, e')) :
    MatchingEngine.tradeLoop p (n + 1) e = .ok e' := by
  simp [MatchingEngine.tradeLoop, if_pos hpos, hc, hok, bind, Except.bind]

/-- A turn of the loop with a head that crosses: one trade, and the loop breaks off if
nothing was traded. -/
theorem turn (h : Refines e Q [p] R)
    (hr : R.resting (e.book.orders p).side.opposite = r :: rest) {quantity : Quantity}
    (hquantity : min (e.book.orders p).quantity r.quantity = quantity)
    (hq0 : (e.book.orders p).quantity ≠ 0)
    (hcross : reaches (e.book.orders p).side (e.book.orders p).price r.price = true) (n : Nat) :
    ∃ e' Q', MatchingEngine.tradeLoop p (n + 1) e =
        (if quantity = 0 then .ok e' else MatchingEngine.tradeLoop p n e') ∧
      Refines e' Q' [p]
        (traded R (e.book.orders p).side.opposite (afterRound r rest quantity)
          (tradeOf (e.book.orders p).data r quantity (R.sequence + 1))) ∧
      (e'.book.orders p).data = { (e.book.orders p).data with
        quantity := (e.book.orders p).quantity - quantity } := by
  obtain ⟨e', Q', hok, href, hdata⟩ := h.round hr hquantity
  have hpos := UInt32.pos_iff_ne_zero.mpr hq0
  have hc : e.canCross p = .ok true := by
    rw [h.canCross_cons hr, hcross]
  refine ⟨e', Q', ?_, href, hdata⟩
  by_cases h0 : quantity = 0
  · rw [h0, decide_eq_false (UInt32.lt_irrefl 0)] at hok
    rw [if_pos h0, tradeLoop_last hpos hc hok]
  · rw [decide_eq_true (UInt32.pos_iff_ne_zero.mpr h0)] at hok
    rw [if_neg h0, tradeLoop_round hpos hc hok]

/-- The loop of `executeTrade` is the reference's rounds down the other side's
list. -/
theorem loop (l : List OrderData) :
    ∀ {e : MatchingEngine} {Q : Queues} {R : Book} {n : Nat},
      Refines e Q [p] R → R.resting (e.book.orders p).side.opposite = l →
      (e.book.orders p).quantity.toNat ≤ n →
      ∃ e' Q', MatchingEngine.tradeLoop p n e = .ok e' ∧
        Refines e' Q' [p] (R.swept (e.book.orders p).side.opposite
          (rounds (e.book.orders p).data R.sequence l)) ∧
        (e'.book.orders p).data =
          (rounds (e.book.orders p).data R.sequence l).incoming := by
  induction l with
  | nil =>
      intro e Q R n h hr _
      refine ⟨e, Q, tradeLoop_noCross (h.canCross_nil hr), ?_, rfl⟩
      rw [rounds, swept_self hr]
      exact h
  | cons r rest ih =>
      intro e Q R n h hr hn
      rw [rounds]
      split
      · next hstop =>
          refine ⟨e, Q, ?_, ?_, rfl⟩
          · rcases hstop with h0 | hno
            · exact MatchingEngine.tradeLoop_stop n h0
            · refine tradeLoop_noCross ?_
              rw [h.canCross_cons hr]
              exact congrArg Except.ok hno
          · rw [swept_self hr]
            exact h
      · next hgo =>
          obtain ⟨hq0, hcross⟩ := not_or.mp hgo
          rw [Order.data_quantity] at hq0
          obtain ⟨quantity, hquantity⟩ : ∃ quantity,
            min (e.book.orders p).quantity r.quantity = quantity := ⟨_, rfl⟩
          have hquantity' : min (e.book.orders p).data.quantity r.quantity = quantity :=
            hquantity
          obtain ⟨n, rfl⟩ : ∃ k, n = k + 1 := by
            have := UInt32.lt_iff_toNat_lt.mp (UInt32.pos_iff_ne_zero.mpr hq0)
            exact ⟨n - 1, by omega⟩
          obtain ⟨e₁, Q₁, hturn, href, hdata⟩ :=
            h.turn hr hquantity hq0 (Bool.eq_true_of_not_eq_false hcross) n
          have hside : (e₁.book.orders p).side = (e.book.orders p).side :=
            congrArg OrderData.side hdata
          have hq₁ : (e₁.book.orders p).quantity =
              (e.book.orders p).quantity - quantity := congrArg OrderData.quantity hdata
          simp only [hquantity']
          split
          · next hfilled =>
              rw [afterRound, if_pos hfilled] at href
              by_cases h0 : quantity = 0
              · -- the head was empty: it is gone, and the loop breaks off
                rw [hturn, if_pos h0, if_pos h0]
                exact ⟨e₁, Q₁, rfl, href, hdata⟩
              · rw [hturn, if_neg h0, if_neg h0]
                have hmin := min_quantity hq0 (by rw [hfilled]; exact h0) hquantity
                have hn' : (e₁.book.orders p).quantity.toNat ≤ n := by
                  rw [hq₁]
                  omega
                obtain ⟨e', Q', hok', href', hdata'⟩ := ih href
                  (by rw [hside]; exact traded_resting R _ _ _) hn'
                rw [hside, hdata, traded_swept] at href'
                rw [hdata] at hdata'
                exact ⟨e', Q', hok', href', hdata'⟩
          · next hleft =>
              have hr0 : r.quantity ≠ 0 := fun hr0 => hleft (by
                rw [hr0, ← hquantity, hr0, Quantity.min_zero])
              have hmin := min_quantity hq0 hr0 hquantity
              have hq : (e₁.book.orders p).quantity = 0 := by
                rw [hq₁, ← hmin.2.2 hleft, UInt32.sub_self]
              rw [afterRound, if_neg hleft] at href
              rw [hturn, if_neg (UInt32.pos_iff_ne_zero.mp hmin.1)]
              exact ⟨e₁, Q₁, MatchingEngine.tradeLoop_stop n hq, href, hdata⟩

/-! ## A whole call -/

/-- Adding what is left of the busy order, or releasing it, is the last step of
the reference as well. -/
theorem finish (h : Refines e Q [p] R) {o : OrderData}
    (ho : (e.book.orders p).data = o) (hv : ValidPrice o.price)
    (hfresh : ∀ x ∈ R.orders, x.id ≠ o.id) :
    ∃ e' Q', (if (e.book.orders p).quantity > 0 then do
        .ok { e with book := ← e.book.addOrder p }
      else .ok (e.releaseIfOwned (some p)) : Except Fault MatchingEngine) = .ok e' ∧
      Refines e' Q' [] (R.rest o) := by
  have hq : (e.book.orders p).quantity = o.quantity := congrArg OrderData.quantity ho
  rw [hq, Book.rest]
  by_cases h0 : o.quantity = 0
  · rw [if_pos h0, h0, if_neg (UInt32.lt_irrefl 0)]
    exact ⟨_, Q, rfl, h.free⟩
  · obtain ⟨b, hok, href⟩ := h.add ho hv hfresh
    rw [if_neg h0, if_pos (UInt32.pos_iff_ne_zero.mpr h0), hok]
    exact ⟨_, _, rfl, href⟩

theorem canCross_eq (h : Refines e Q lent R) :
    e.canCross p = .ok (crosses (e.book.orders p).data
      (R.resting (e.book.orders p).side.opposite)) := by
  cases hr : R.resting (e.book.orders p).side.opposite with
  | nil => exact h.canCross_nil hr
  | cons r rest => exact h.canCross_cons hr

/-- `process` on an order whose id no resting order has. -/
theorem process (h : Refines e Q [p] R) {o : OrderData} (ho : (e.book.orders p).data = o)
    (hv : ValidPrice o.price) (hfresh : ∀ x ∈ R.orders, x.id ≠ o.id) :
    ∃ e' Q', e.process (some p) = .ok e' ∧ Refines e' Q' []
      (if crosses o (R.resting o.side.opposite) then
        (R.swept o.side.opposite
          (rounds o R.sequence (R.resting o.side.opposite))).rest
          (rounds o R.sequence (R.resting o.side.opposite)).incoming
      else R.insert o) := by
  subst ho
  have hcross := h.canCross_eq (p := p)
  split
  · next hyes =>
      rw [Order.data_side] at hyes
      obtain ⟨e₁, Q₁, hloop, h₁, hdata⟩ := loop _ h rfl (Nat.le_refl _)
      have hrounds := rounds_reached (R := R) (i := (e.book.orders p).data) rfl
      have hterms := OrderData.terms_eq_iff.mp hrounds.terms
      obtain ⟨e', Q', hok, h'⟩ := h₁.finish hdata
        (by rw [← Order.data_side, hterms.2.2.2]; exact hv)
        (by rw [← Order.data_side, hterms.1]; exact hrounds.id_ne hfresh)
      refine ⟨e', Q', ?_, h'⟩
      rw [MatchingEngine.process, hcross, hyes]
      show e.executeTrade p = .ok e'
      rw [MatchingEngine.executeTrade, hloop]
      exact hok
  · next hno =>
      rw [Order.data_side] at hno
      obtain ⟨b, hok, h'⟩ := h.add rfl hv hfresh
      refine ⟨{ e with book := b }, _, ?_, h'⟩
      rw [MatchingEngine.process, hcross, Bool.eq_false_of_not_eq_true hno]
      simp [hok, bind, Except.bind]

/-- `submitOrder` on a pool that is not exhausted, with an id no resting order
has, is one order entering the reference book. -/
theorem enter (h : Refines e Q [] R) {s : Submission} (hv : ValidPrice s.price)
    (hfree : e.orderPool.freeList ≠ [])
    (hfresh : ∀ o ∈ R.orders, o.id ≠ R.sequence + 1) :
    ∃ e' Q', e.submitOrder s.accountId s.side s.price s.quantity =
        .ok (R.sequence + 1, e') ∧ Refines e' Q' [] (R.enter s) := by
  obtain ⟨p, free, hfree⟩ := List.exists_cons_of_ne_nil hfree
  let o := EngineInv.newOrder e s.accountId s.side s.price s.quantity
  have h₁ := h.prepare hfree (o := o) rfl
  have hself : (EngineInv.prepared e p free o).book.orders p = o :=
    EngineInv.prepared_self e p free o
  have hdata : o.data = R.incoming s := by
    show OrderData.mk (e.sequence + 1) _ _ _ _ = _
    rw [h.sequence]
    rfl
  obtain ⟨e', Q', hok, h'⟩ := h₁.process (o := R.incoming s)
    (by rw [hself, hdata]) hv hfresh
  refine ⟨e', Q', ?_, h'⟩
  rw [← h.sequence]
  exact MatchingEngine.submitOrder_some hfree hok

end Refines

end OpenHft
