import OpenHft.Proofs.EngineRefinement

/-!
# Runs of the engine

A run is a list of submissions to a fresh engine. `submitAll` is the engine's
side of it and `Book.runWithin` the reference's, with room for as many resting
orders as the pool has objects. As long as no call is given an id that the book
still knows, the two agree: the trades published are the reference trades, and
every level's queue is the reference list at its price.

That proviso cannot be dropped. Ids come from a 64-bit counter that goes round,
and an order may rest while it does: see `EngineWrap`. It holds of every run of
fewer than 2⁶³ - 500 calls: see `Numbering`.
-/

namespace OpenHft

open OpenHft.Lib PriceTime

namespace MatchingEngine

/-- A run of `submitOrder` calls, with the ids they return. -/
def submitAll (e : MatchingEngine) :
    List Submission → Except Fault (List OrderId × MatchingEngine)
  | [] => .ok ([], e)
  | s :: subs => do
      let (id, e) ← e.submitOrder s.accountId s.side s.price s.quantity
      let (ids, e) ← e.submitAll subs
      .ok (id :: ids, e)

/-- Every call of the run finds an object in the pool. -/
def poolSuffices (e : MatchingEngine) : List Submission → Bool
  | [] => true
  | s :: subs =>
      decide (e.orderPool.available ≠ 0) &&
        match e.submitOrder s.accountId s.side s.price s.quantity with
        | .ok (_, e') => e'.poolSuffices subs
        | .error _ => true

theorem submitAll_cons {e e' : MatchingEngine} {s : Submission} {id : OrderId}
    (h : e.submitOrder s.accountId s.side s.price s.quantity = .ok (id, e'))
    {subs : List Submission} {ids : List OrderId} {e'' : MatchingEngine}
    (h' : e'.submitAll subs = .ok (ids, e'')) :
    e.submitAll (s :: subs) = .ok (id :: ids, e'') := by
  simp only [submitAll, h, h', bind, Except.bind]

theorem poolSuffices_cons {e e' : MatchingEngine} {s : Submission} {id : OrderId}
    {subs : List Submission} (hroom : e.orderPool.freeList ≠ [])
    (h : e.submitOrder s.accountId s.side s.price s.quantity = .ok (id, e'))
    (h' : e'.poolSuffices subs = true) : e.poolSuffices (s :: subs) = true := by
  have havailable : e.orderPool.available ≠ 0 := by
    rw [OrderPool.available, ne_eq, List.length_eq_zero_iff]
    exact hroom
  rw [poolSuffices, decide_eq_true havailable, h]
  exact h'

theorem submitAll_cons_ok {e e'' : MatchingEngine} {s : Submission}
    {subs : List Submission} {ids : List OrderId}
    (h : e.submitAll (s :: subs) = .ok (ids, e'')) :
    ∃ id e' ids', e.submitOrder s.accountId s.side s.price s.quantity = .ok (id, e') ∧
      e'.submitAll subs = .ok (ids', e'') ∧ ids = id :: ids' := by
  cases hs : e.submitOrder s.accountId s.side s.price s.quantity with
  | error fault => simp [submitAll, hs, bind, Except.bind] at h
  | ok first =>
      cases hr : first.2.submitAll subs with
      | error fault => simp [submitAll, hs, hr, bind, Except.bind] at h
      | ok last =>
          rw [submitAll_cons hs hr] at h
          cases h
          exact ⟨first.1, first.2, last.1, rfl, hr, rfl⟩

theorem submitAll_append {subs subs' : List Submission} {e e' e'' : MatchingEngine}
    {ids ids' : List OrderId} (h : e.submitAll subs = .ok (ids, e'))
    (h' : e'.submitAll subs' = .ok (ids', e'')) :
    e.submitAll (subs ++ subs') = .ok (ids ++ ids', e'') := by
  induction subs generalizing e ids with
  | nil =>
      cases h
      exact h'
  | cons s subs ih =>
      obtain ⟨id, e₁, ids₁, hs, hr, rfl⟩ := submitAll_cons_ok h
      exact submitAll_cons hs (ih hr)

theorem poolSuffices_append {subs subs' : List Submission} {e e' : MatchingEngine}
    {ids : List OrderId} (h : e.submitAll subs = .ok (ids, e')) :
    e.poolSuffices (subs ++ subs') =
      (e.poolSuffices subs && e'.poolSuffices subs') := by
  induction subs generalizing e ids with
  | nil =>
      cases h
      rfl
  | cons s subs ih =>
      obtain ⟨id, e₁, ids₁, hs, hr, _⟩ := submitAll_cons_ok h
      simp only [List.cons_append, poolSuffices, hs, ih hr, Bool.and_assoc]

/-- No call of the run is given an id that the book still knows. -/
def idsFresh (e : MatchingEngine) : List Submission → Bool
  | [] => true
  | s :: subs =>
      (decide (e.orderPool.available = 0) ||
          !e.book.orderIndex.contains (e.sequence + 1)) &&
        match e.submitOrder s.accountId s.side s.price s.quantity with
        | .ok (_, e') => e'.idsFresh subs
        | .error _ => true

end MatchingEngine

/-- A price in range, and something to trade. -/
def Submission.Valid (s : Submission) : Prop := ValidPrice s.price ∧ s.quantity ≠ 0

instance (s : Submission) : Decidable s.Valid := inferInstanceAs (Decidable (_ ∧ _))

/-- The orders of a run, under the ids its calls returned. -/
def submittedOrders (ids : List OrderId) (subs : List Submission) : List OrderData :=
  List.zipWith (fun id s => s.order id) ids subs

/-- No order is linked on this side. -/
def SideEmpty (b : ArrayOrderBook) (side : Side) : Prop :=
  ∀ p lv, (b.orders p).level = some lv → lv.side ≠ side

/-- The book of the engine is the reference book: every level's queue is the
reference list at its price, and the reference lists hold nothing else. -/
def ShowsBook (e : MatchingEngine) (R : Book) : Prop :=
  (∃ Q : Queues, (∀ lv, IsQueue e.book.orders (e.book.levels lv) lv (Q lv)) ∧
    (∀ p lv, (e.book.orders p).level = some lv → p ∈ Q lv) ∧
    ∀ lv, (Q lv).map (fun p => (e.book.orders p).data) =
      (R.resting lv.side).filter fun o => priceToIndex o.price = lv.index.val) ∧
  ∀ side, ∀ o ∈ R.resting side, o.side = side ∧ ValidPrice o.price

/-- A book that shows a reference book without empty orders has none. -/
theorem ShowsBook.linked_pos {e : MatchingEngine} {R : Book} (h : ShowsBook e R)
    (hpos : Positive R) {p : OrderPtr} {lv : LevelPtr}
    (hlv : (e.book.orders p).level = some lv) : (e.book.orders p).quantity ≠ 0 := by
  obtain ⟨⟨Q, _, hlinked, hshown⟩, _⟩ := h
  have hmem : (e.book.orders p).data ∈ (Q lv).map fun p => (e.book.orders p).data :=
    List.mem_map_of_mem (hlinked p lv hlv)
  rw [hshown lv] at hmem
  exact hpos _ (Book.mem_orders.mpr ⟨_, (List.mem_filter.mp hmem).1⟩)

namespace Refines

variable {e e' : MatchingEngine} {Q Q' : Queues} {R : Book} {s : Submission}

theorem showsBook (h : Refines e Q [] R) : ShowsBook e R :=
  ⟨⟨Q, h.engine.book.queue, h.engine.book.linked, fun lv => (h.holds.content lv).symm⟩,
    h.ranked.placed⟩

theorem available_eq_zero_iff (h : Refines e Q [] R) :
    e.orderPool.available = 0 ↔ R.orders.length = defaultOrderCapacity := by
  rw [OrderPool.available, List.length_eq_zero_iff]
  exact h.free_nil_iff

/-- The index does not know the next id. -/
theorem contains_eq_false_iff (h : Refines e Q [] R) :
    e.book.orderIndex.contains (e.sequence + 1) = false ↔
      ∀ o ∈ R.orders, o.id ≠ R.sequence + 1 := by
  rw [FixedHashMap.contains, Option.isSome_eq_false_iff, Option.isNone_iff_eq_none,
    h.holds.find_none_iff, content_fresh h.ranked, h.sequence]

/-- One call, whether the pool is exhausted or not. -/
theorem enterWithin (h : Refines e Q [] R) (hv : ValidPrice s.price)
    (hid : (decide (e.orderPool.available = 0) ||
      !e.book.orderIndex.contains (e.sequence + 1)) = true) :
    ∃ id e' Q', e.submitOrder s.accountId s.side s.price s.quantity = .ok (id, e') ∧
      Refines e' Q' [] (R.enterWithin defaultOrderCapacity s) ∧
      (e.orderPool.available ≠ 0 → id = R.sequence + 1) ∧
      (e.orderPool.available = 0 → id = 0 ∧ e' = e) := by
  rw [Book.enterWithin]
  by_cases hfull : e.orderPool.available = 0
  · rw [if_pos (h.available_eq_zero_iff.mp hfull)]
    have hnil := hfull
    rw [OrderPool.available, List.length_eq_zero_iff] at hnil
    exact ⟨0, e, Q, MatchingEngine.submitOrder_none hnil _ _ _ _, h,
      fun hne => absurd hfull hne, fun _ => ⟨rfl, rfl⟩⟩
  · rw [if_neg fun hlen => hfull (h.available_eq_zero_iff.mpr hlen)]
    rw [decide_eq_false hfull, Bool.false_or, Bool.not_eq_true',
      h.contains_eq_false_iff] at hid
    obtain ⟨e', Q', hok, h'⟩ := h.enter hv
      (fun hnil => hfull (by rw [OrderPool.available, hnil]; rfl)) hid
    exact ⟨_, e', Q', hok, h', fun _ => rfl, fun h0 => absurd h0 hfull⟩

theorem submitWithin (h : Refines e Q [] R) (hpos : Positive R) (hs : s.Valid)
    (hid : (decide (e.orderPool.available = 0) ||
      !e.book.orderIndex.contains (e.sequence + 1)) = true) :
    ∃ id e' Q', e.submitOrder s.accountId s.side s.price s.quantity = .ok (id, e') ∧
      Refines e' Q' [] (R.submitWithin defaultOrderCapacity s) ∧
      (e.orderPool.available ≠ 0 → id = R.sequence + 1) := by
  have hsame : R.submitWithin defaultOrderCapacity s =
      R.enterWithin defaultOrderCapacity s := by
    rw [Book.submitWithin, Book.enterWithin, Book.enter_eq_submit
      (fun x hx => hpos x (Book.mem_orders.mpr ⟨_, hx⟩)) hs.2]
  rw [hsame]
  obtain ⟨id, e', Q', hok, h', hroom, -⟩ := h.enterWithin hs.1 hid
  exact ⟨id, e', Q', hok, h', hroom⟩

/-- A whole run. -/
theorem submitAll {subs : List Submission} {log : List OrderData}
    (h : Refines e Q [] R) (hR : Sound log R) (hsubs : ∀ s ∈ subs, s.Valid)
    (hids : e.idsFresh subs = true) :
    ∃ ids e' Q', e.submitAll subs = .ok (ids, e') ∧
      Refines e' Q' [] (R.runWithin defaultOrderCapacity subs) ∧
      Sound (log ++ submittedOrders ids subs)
        (R.runWithin defaultOrderCapacity subs) ∧
      (e.poolSuffices subs = true →
        R.runWithin defaultOrderCapacity subs = R.run subs) := by
  induction subs generalizing e Q R log with
  | nil =>
      refine ⟨[], e, Q, rfl, h, ?_, fun _ => rfl⟩
      show Sound (log ++ []) R
      rw [List.append_nil]
      exact hR
  | cons s subs ih =>
      rw [MatchingEngine.idsFresh, Bool.and_eq_true] at hids
      obtain ⟨id, e₁, Q₁, hok, h₁, hid⟩ := h.submitWithin hR.positive
        (hsubs s List.mem_cons_self) hids.1
      have hids₁ := hids.2
      rw [hok] at hids₁
      have hR₁ : Sound (log ++ [s.order id]) (R.submitWithin defaultOrderCapacity s) := by
        rw [Book.submitWithin]
        split
        · exact hR.mono _
        · next hroom =>
            rw [hid fun h0 => hroom (h.available_eq_zero_iff.mp h0)]
            exact hR.submit h.ranked
      obtain ⟨ids, e', Q', hok', h', hR', hpool'⟩ := ih h₁ hR₁
        (fun x hx => hsubs x (List.mem_cons_of_mem s hx)) hids₁
      refine ⟨id :: ids, e', Q', ?_, h', ?_, fun hpool => ?_⟩
      · exact MatchingEngine.submitAll_cons hok hok'
      · rw [submittedOrders, List.zipWith_cons_cons, ← List.singleton_append,
          ← List.append_assoc]
        exact hR'
      · rw [MatchingEngine.poolSuffices, Bool.and_eq_true, decide_eq_true_eq, hok]
          at hpool
        have hstep : R.submitWithin defaultOrderCapacity s = R.submit s :=
          if_neg fun hlen => hpool.1 (h.available_eq_zero_iff.mpr hlen)
        have hrest := hpool' hpool.2
        rw [Book.runWithin, Book.run, List.foldl_cons, List.foldl_cons, ← hstep]
        exact hrest

end Refines

namespace Refines

variable {e : MatchingEngine} {Q : Queues} {lent : List OrderPtr} {R : Book}

/-- A linked order is an order of the reference book. -/
theorem linked_mem (h : Refines e Q lent R) {p : OrderPtr} {lv : LevelPtr}
    (hlv : (e.book.orders p).level = some lv) : (e.book.orders p).data ∈ R.orders :=
  Book.mem_orders.mpr
    ⟨_, (mem_content.mp (h.holds.mem_content (h.engine.book.linked p lv hlv))).1⟩

/-- A side either has no order, or its best level shows the price of one. -/
theorem bestLevel_cases (h : Refines e Q lent R) (side : Side) :
    SideEmpty e.book side ∨ ∃ lv, e.book.bestLevel side = .ok (some lv) ∧
      ∃ r ∈ R.resting side, (e.book.levels lv).price = r.price := by
  cases hr : R.resting side with
  | nil =>
      refine Or.inl fun p lv hlv heq => ?_
      have hmem := h.engine.book.linked p lv hlv
      have hcontent := (mem_content.mp (h.holds.mem_content hmem)).1
      rw [heq, hr] at hcontent
      exact List.not_mem_nil hcontent
  | cons r rest =>
      obtain ⟨_, hbest, _⟩ := h.front hr
      obtain ⟨hv, hsome, hne⟩ := h.engine.book.bestLevel_some (by
        rw [hbest]
        exact (h.ranked.placed side r (by rw [hr]; exact List.mem_cons_self)).2.ne_zero)
      refine Or.inr ⟨_, hsome, r, List.mem_cons_self, ?_⟩
      rw [MatchingEngine.bestLevel_price h.engine.book hv hne, hbest]

end Refines

/-! ## Resting orders -/

/-- The orders that are linked in the book. -/
def MatchingEngine.restingOrders (e : MatchingEngine) : List OrderData :=
  ((List.range defaultOrderCapacity).filter fun p => (e.book.orders p).level.isSome).map
    fun p => (e.book.orders p).data

theorem restingOrders_length (e : MatchingEngine) : e.restingOrders.length ≤ 4096 := by
  rw [MatchingEngine.restingOrders, List.length_map]
  exact (List.length_filter_le _ _).trans_eq List.length_range

theorem Refines.mem_linked {e : MatchingEngine} {Q : Queues} {R : Book}
    (h : Refines e Q [] R) {p : OrderPtr} :
    p ∈ (List.range defaultOrderCapacity).filter
      (fun p => (e.book.orders p).level.isSome) ↔ ∃ lv, p ∈ Q lv := by
  rw [List.mem_filter, List.mem_range, Option.isSome_iff_exists]
  constructor
  · rintro ⟨-, lv, hlv⟩
    exact ⟨lv, h.engine.book.linked p lv hlv⟩
  · rintro ⟨lv, hp⟩
    have howned := h.engine.wf.owned p (h.engine.linked_inUse hp)
    rw [h.engine.capacity] at howned
    exact ⟨howned, lv, (h.engine.book.queue lv).level p hp⟩

/-- The linked orders are the orders of the reference book. -/
theorem Refines.restingOrders_perm {e : MatchingEngine} {Q : Queues} {R : Book}
    (h : Refines e Q [] R) : e.restingOrders.Perm R.orders := by
  have hnodup : e.restingOrders.Nodup := by
    refine List.Nodup.map_on (fun p hp q hq heq => ?_) (List.nodup_range.filter _)
    obtain ⟨lv, hp⟩ := h.mem_linked.mp hp
    obtain ⟨lv', hq⟩ := h.mem_linked.mp hq
    exact h.holds.eq_of_id hq hp (congrArg OrderData.id heq)
  refine (List.perm_ext_iff_of_nodup hnodup (h.ranked.unique.of_map _)).mpr fun o => ?_
  rw [MatchingEngine.restingOrders, List.mem_map, Book.mem_orders]
  constructor
  · rintro ⟨p, hp, rfl⟩
    obtain ⟨lv, hp⟩ := h.mem_linked.mp hp
    exact ⟨lv.side, (mem_content.mp (h.holds.mem_content hp)).1⟩
  · rintro ⟨side, ho⟩
    have hv := (h.ranked.placed side o ho).2
    have hcontent : o ∈ R.content (levelAt side o.price hv) := mem_content.mpr ⟨ho, rfl⟩
    obtain ⟨p, hp, heq⟩ := h.holds.exists_of_mem hcontent
    exact ⟨p, h.mem_linked.mpr ⟨_, hp⟩, heq⟩

/-- Price-time priority: the trades a run publishes and the book it leaves are
those of the reference matcher. -/
theorem submitAll_price_time (stdHash : OrderId → Nat) (subs : List Submission)
    (hsubs : ∀ s ∈ subs, ValidPrice s.price ∧ s.quantity ≠ 0)
    (hpool : (MatchingEngine.init stdHash).poolSuffices subs = true)
    (hids : (MatchingEngine.init stdHash).idsFresh subs = true) :
    ∃ ids e, (MatchingEngine.init stdHash).submitAll subs = .ok (ids, e) ∧
      e.published = (Book.empty.run subs).trades ∧
      ShowsBook e (Book.empty.run subs) := by
  obtain ⟨ids, e, Q, hok, h, _, hrun⟩ :=
    (init_refines stdHash).submitAll Sound.empty hsubs hids
  rw [hrun hpool] at h
  exact ⟨ids, e, hok, h.trades, h.showsBook⟩

/-- A buy order that takes all of the best ask and part of the next. -/
theorem submitAll_price_time_sweep :
    ∃ ids e, (MatchingEngine.init UInt64.toNat).submitAll
        [⟨1, .sell, 10, 5⟩, ⟨2, .sell, 11, 5⟩, ⟨3, .buy, 11, 7⟩] = .ok (ids, e) ∧
      e.published =
        [⟨1004, 1003, 1001, 3, 1, 10, 5⟩, ⟨1005, 1003, 1002, 3, 2, 11, 2⟩] ∧
      ShowsBook e (Book.empty.run
        [⟨1, .sell, 10, 5⟩, ⟨2, .sell, 11, 5⟩, ⟨3, .buy, 11, 7⟩]) := by
  obtain ⟨ids, e, hok, htrades, hshows⟩ := submitAll_price_time UInt64.toNat
    [⟨1, .sell, 10, 5⟩, ⟨2, .sell, 11, 5⟩, ⟨3, .buy, 11, 7⟩]
    (by decide) (by decide +kernel) (by decide +kernel)
  refine ⟨ids, e, hok, htrades.trans ?_, hshows⟩
  decide +kernel

/-- After every run the book is uncrossed, no resting order is empty, and every
trade is within the limits of the two orders it names. -/
theorem submitAll_uncrossed (stdHash : OrderId → Nat) (subs : List Submission)
    (hsubs : ∀ s ∈ subs, ValidPrice s.price ∧ s.quantity ≠ 0)
    (hids : (MatchingEngine.init stdHash).idsFresh subs = true) :
    ∃ ids e, (MatchingEngine.init stdHash).submitAll subs = .ok (ids, e) ∧
      (SideEmpty e.book .buy ∨ SideEmpty e.book .sell ∨
        ∃ bid ask, e.book.bestBid = .ok (some bid) ∧ e.book.bestAsk = .ok (some ask) ∧
          (e.book.levels bid).price < (e.book.levels ask).price) ∧
      (∀ p lv, (e.book.orders p).level = some lv → (e.book.orders p).quantity ≠ 0) ∧
      ∀ t ∈ e.published, WithinLimits (submittedOrders ids subs) t := by
  obtain ⟨ids, e, Q, hok, h, hR, _⟩ :=
    (init_refines stdHash).submitAll Sound.empty hsubs hids
  refine ⟨ids, e, hok, ?_, fun p lv hlv => ?_, ?_⟩
  · rcases h.bestLevel_cases .buy with hbuy | ⟨bid, hbid, b, hb, hbp⟩
    · exact Or.inl hbuy
    · rcases h.bestLevel_cases .sell with hsell | ⟨ask, hask, a, ha, hap⟩
      · exact Or.inr (Or.inl hsell)
      · refine Or.inr (Or.inr ⟨bid, ask, hbid, hask, ?_⟩)
        rw [hbp, hap]
        exact hR.uncrossed b hb a ha
  · exact hR.positive _ (h.linked_mem hlv)
  · intro t ht
    rw [h.trades] at ht
    exact hR.logged.trades t ht

/-- Two orders that do not cross, and one that trades with the first. -/
theorem submitAll_uncrossed_three_orders :
    ∃ ids e, (MatchingEngine.init UInt64.toNat).submitAll
        [⟨1, .sell, 10, 5⟩, ⟨2, .buy, 9, 5⟩, ⟨3, .buy, 12, 2⟩] = .ok (ids, e) ∧
      (SideEmpty e.book .buy ∨ SideEmpty e.book .sell ∨
        ∃ bid ask, e.book.bestBid = .ok (some bid) ∧ e.book.bestAsk = .ok (some ask) ∧
          (e.book.levels bid).price < (e.book.levels ask).price) ∧
      (∀ p lv, (e.book.orders p).level = some lv → (e.book.orders p).quantity ≠ 0) ∧
      ∀ t ∈ e.published, WithinLimits (submittedOrders ids
        [⟨1, .sell, 10, 5⟩, ⟨2, .buy, 9, 5⟩, ⟨3, .buy, 12, 2⟩]) t :=
  submitAll_uncrossed UInt64.toNat _ (by decide) (by decide +kernel)

end OpenHft
