import OpenHft.Proofs.EngineWrap

/-!
# Who owns an order

Three structures share the pool's objects: the free list, the level queues and the
index by id. At the end of every call an object is in the first, or in the other two.
The engine relies on it without looking: it throws away what `order_index_.insert`
answers in `addOrder`, and takes whatever `cancelOrder` hands it in `matchOne` for the
order it has just filled. `IgnoredResult` is such an answer, and `submitAllResults`
collects those of a run along the engine's own control flow.

All of it rests on an id being in the index for one order only, so on the sequencer not
handing out an id that is still there.
-/

namespace OpenHft

open OpenHft.Lib PriceTime

/-- A result that the engine does not look at. -/
inductive IgnoredResult where
  /-- what `order_index_.insert` returned -/
  | inserted (ok : Bool)
  /-- what `cancelOrder` returned, called for an order that was just filled -/
  | cancelled (resting : OrderPtr) (removed : Option OrderPtr)
  deriving DecidableEq

/-- The result the engine goes on as if it had. -/
def IgnoredResult.AsAsked : IgnoredResult → Prop
  | .inserted ok => ok = true
  | .cancelled resting removed => removed = some resting

instance : (r : IgnoredResult) → Decidable r.AsAsked
  | .inserted ok => inferInstanceAs (Decidable (ok = true))
  | .cancelled resting removed => inferInstanceAs (Decidable (removed = some resting))

namespace MatchingEngine

/-- What `insert` says in `addOrder`. -/
def addOrderResults (e : MatchingEngine) (order : OrderPtr) : List IgnoredResult :=
  [.inserted (e.book.orderIndex.insert (e.book.orders order).id order).1]

/-- What `cancelOrder` says of an order that was filled. -/
def retireFilledResults (e : MatchingEngine) (resting : OrderPtr) : List IgnoredResult :=
  if (e.book.orders resting).quantity = 0 then
    match e.book.cancelOrder (e.book.orders resting).id with
    | .ok (removedOrder, _) => [.cancelled resting removedOrder]
    | .error _ => []
  else []

/-- The results that one round does not look at. -/
def matchOneResults (e : MatchingEngine) (incoming : OrderPtr) : List IgnoredResult :=
  match e.oppositeLevel (e.book.orders incoming).side with
  | .ok (some level) =>
      match (e.book.levels level).front with
      | none => []
      | some resting => (e.afterTrade incoming resting).retireFilledResults resting
  | _ => []

/-- Those of all rounds, following `tradeLoop`. -/
def tradeLoopResults (incoming : OrderPtr) : Nat → MatchingEngine → List IgnoredResult
  | 0, _ => []
  | n + 1, e =>
      if (e.book.orders incoming).quantity > 0 then
        match e.canCross incoming with
        | .ok true =>
            e.matchOneResults incoming ++
              match e.matchOne incoming with
              | .ok (true, e') => tradeLoopResults incoming n e'
              | _ => []
        | _ => []
      else []

/-- The rounds, and the remainder that is added. -/
def executeTradeResults (e : MatchingEngine) (incoming : OrderPtr) : List IgnoredResult :=
  tradeLoopResults incoming (e.book.orders incoming).quantity.toNat e ++
    match tradeLoop incoming (e.book.orders incoming).quantity.toNat e with
    | .ok e' =>
        if (e'.book.orders incoming).quantity > 0 then e'.addOrderResults incoming else []
    | .error _ => []

/-- The branches of `process`. -/
def processResults (e : MatchingEngine) (order : OrderPtr) : List IgnoredResult :=
  match e.canCross order with
  | .ok true => e.executeTradeResults order
  | .ok false => e.addOrderResults order
  | .error _ => []

/-- All of a call. -/
def submitOrderResults (e : MatchingEngine) (s : Submission) : List IgnoredResult :=
  match e.prepareOrder s.accountId s.side s.price s.quantity with
  | (none, _) => []
  | (some order, e) => e.processResults order

/-- The results a run of `submitOrder` calls has ignored. -/
def submitAllResults (e : MatchingEngine) : List Submission → List IgnoredResult
  | [] => []
  | s :: subs =>
      e.submitOrderResults s ++
        match e.submitOrder s.accountId s.side s.price s.quantity with
        | .ok (_, e') => e'.submitAllResults subs
        | .error _ => []

end MatchingEngine

/-- Every object of the pool is in the free list and nowhere else, or in exactly one
queue and in the index under its own id. -/
def Owned (e : MatchingEngine) : Prop :=
  ∃ Q : Queues, (∀ lv, IsQueue e.book.orders (e.book.levels lv) lv (Q lv)) ∧
    e.orderPool.freeList.Nodup ∧
    ∀ p < defaultOrderCapacity,
      (p ∈ e.orderPool.freeList ∧ (e.book.orders p).level = none ∧ (∀ lv, p ∉ Q lv) ∧
        ∀ id, e.book.orderIndex.find id ≠ some p) ∨
      (p ∉ e.orderPool.freeList ∧ (∃! lv, p ∈ Q lv) ∧
        e.book.orderIndex.find (e.book.orders p).id = some p)

namespace Refines

variable {e : MatchingEngine} {Q : Queues} {R : Book} {p : OrderPtr}

/-! ## The state between two calls -/

theorem owned (h : Refines e Q [] R) : Owned e := by
  refine ⟨Q, h.engine.book.queue, h.engine.wf.nodup, fun p hp => ?_⟩
  have hfree := h.engine.wf.free p
  rw [h.engine.capacity] at hfree
  by_cases hin : e.orderPool.inUse p = true
  · have hlinked : (e.book.orders p).level ≠ none :=
      ((h.engine.inUse p).mp hin).resolve_right List.not_mem_nil
    obtain ⟨lv, hlv⟩ := Option.ne_none_iff_exists'.mp hlinked
    have hmem := h.engine.book.linked p lv hlv
    refine Or.inr ⟨fun hf => ?_, ⟨lv, hmem, fun lv' hlv' => ?_⟩, h.holds.indexed lv p hmem⟩
    · rw [(hfree.mp hf).2] at hin
      cases hin
    · change p ∈ Q lv' at hlv'
      rw [h.engine.book.mem_iff, hlv] at hlv'
      exact (Option.some.inj hlv').symm
  · have hnot := Bool.eq_false_of_not_eq_true hin
    have hmem : p ∈ e.orderPool.freeList := hfree.mpr ⟨hp, hnot⟩
    obtain ⟨hnone, -⟩ := h.engine.free_not_inUse hmem
    refine Or.inl ⟨hmem, hnone, h.engine.book.not_mem_of_unlinked hnone, fun id hf => ?_⟩
    exact (h.engine.book.indexed id p hf).2 hnone

theorem restingOrders_full_iff (h : Refines e Q [] R) :
    e.orderPool.available = 0 ↔ e.restingOrders.length = 4096 := by
  rw [h.available_eq_zero_iff, h.restingOrders_perm.length_eq]
  rfl

/-! ## The results of one call -/

/-- There is always room in the index for the order at hand. -/
theorem addOrderResults (h : Refines e Q [p] R) :
    ∀ r ∈ e.addOrderResults p, r.AsAsked := by
  intro r hr
  rw [List.mem_singleton.mp hr]
  show (e.book.orderIndex.insert (e.book.orders p).id p).1 = true
  rw [← Bool.not_eq_false, FixedHashMap.insert_eq_false_iff h.engine.book.index]
  rintro ⟨-, hfull⟩
  have hroom := h.store.room
  rw [List.length_singleton] at hroom
  omega

/-- The index has for the front of a level that same order. -/
theorem matchOneResults (h : Refines e Q [p] R) :
    ∀ r ∈ e.matchOneResults p, r.AsAsked := by
  intro r hr
  rw [MatchingEngine.matchOneResults, MatchingEngine.oppositeLevel_eq] at hr
  by_cases h0 : e.book.best (e.book.orders p).side.opposite = 0
  · rw [BookInv.bestLevel_null h0] at hr
    cases hr
  · obtain ⟨hv, hsome, hne⟩ := h.engine.book.bestLevel_some h0
    obtain ⟨x, xs, hQ⟩ := List.exists_cons_of_ne_nil hne
    have hfront : (e.book.levels (levelAt (e.book.orders p).side.opposite
        (e.book.best (e.book.orders p).side.opposite) hv)).front = some x := by
      rw [(h.engine.book.queue _).front_eq, hQ]
      rfl
    have hx : x ∈ Q (levelAt (e.book.orders p).side.opposite
        (e.book.best (e.book.orders p).side.opposite) hv) := by
      rw [hQ]
      exact List.mem_cons_self
    simp only [hsome, hfront] at hr
    rw [MatchingEngine.retireFilledResults] at hr
    split at hr
    · have hid : ((e.afterTrade p x).book.orders x).id = (e.book.orders x).id := by
        show ((MatchingEngine.fill e.book p x _).orders x).id = _
        rw [(MatchingEngine.fill_sameLinks e.book p x _).orders x]
      have hfind : (e.afterTrade p x).book.orderIndex.find
          ((e.afterTrade p x).book.orders x).id = some x := by
        rw [hid]
        exact h.holds.indexed _ x hx
      obtain ⟨b, hok, -⟩ := ArrayOrderBook.cancelOrder_effect
        (MatchingEngine.afterTrade_inv h.engine p x).book hfind hx
      rw [hok] at hr
      rw [List.mem_singleton.mp hr]
      exact rfl
    · cases hr

theorem tradeLoopResults (n : Nat) (h : Refines e Q [p] R) :
    ∀ r ∈ MatchingEngine.tradeLoopResults p n e, r.AsAsked := by
  induction n generalizing e Q R with
  | zero => exact fun r hr => absurd hr List.not_mem_nil
  | succ n ih =>
      intro r hr
      rw [MatchingEngine.tradeLoopResults] at hr
      split at hr
      · cases hlist : R.resting (e.book.orders p).side.opposite with
        | nil =>
            rw [h.canCross_nil hlist] at hr
            cases hr
        | cons x rest =>
            obtain ⟨e₁, Q₁, hok, h₁, -⟩ := h.round hlist rfl
            split at hr
            · rw [hok, List.mem_append] at hr
              rcases hr with hr | hr
              · exact h.matchOneResults r hr
              · split at hr
                · next e₂ heq =>
                    have he : e₁ = e₂ := congrArg Prod.snd (Except.ok.inj heq)
                    subst he
                    exact ih h₁ r hr
                · cases hr
            · cases hr
      · cases hr

theorem processResults (h : Refines e Q [p] R) :
    ∀ r ∈ e.processResults p, r.AsAsked := by
  intro r hr
  rw [MatchingEngine.processResults] at hr
  split at hr
  · rw [MatchingEngine.executeTradeResults, List.mem_append] at hr
    rcases hr with hr | hr
    · exact h.tradeLoopResults _ r hr
    · obtain ⟨e₁, Q₁, hloop, h₁, -⟩ := loop _ h rfl (Nat.le_refl _)
      rw [hloop] at hr
      dsimp only at hr
      split at hr
      · exact h₁.addOrderResults r hr
      · cases hr
  · exact h.addOrderResults r hr
  · cases hr

theorem submitOrderResults (h : Refines e Q [] R) (s : Submission) :
    ∀ r ∈ e.submitOrderResults s, r.AsAsked := by
  intro r hr
  rw [MatchingEngine.submitOrderResults] at hr
  cases hfree : e.orderPool.freeList with
  | nil =>
      rw [EngineInv.prepareOrder_none hfree] at hr
      cases hr
  | cons p free =>
      rw [EngineInv.prepareOrder_some hfree] at hr
      exact (h.prepare hfree rfl).processResults r hr

/-! ## Runs -/

/-- A whole run of orders of any quantity, with the results it ignores. -/
theorem ownedAll {subs : List Submission} (h : Refines e Q [] R)
    (hprices : ∀ s ∈ subs, ValidPrice s.price) (hids : e.idsFresh subs = true) :
    ∃ ids e' Q' R', e.submitAll subs = .ok (ids, e') ∧ Refines e' Q' [] R' ∧
      ∀ r ∈ e.submitAllResults subs, r.AsAsked := by
  induction subs generalizing e Q R with
  | nil => exact ⟨[], e, Q, R, rfl, h, fun r hr => absurd hr List.not_mem_nil⟩
  | cons s subs ih =>
      rw [MatchingEngine.idsFresh, Bool.and_eq_true] at hids
      obtain ⟨id, e₁, Q₁, hok, h₁, -⟩ := h.enterWithin (hprices s List.mem_cons_self) hids.1
      have hids₁ := hids.2
      rw [hok] at hids₁
      obtain ⟨ids, e', Q', R', hok', h', hall⟩ := ih h₁
        (fun x hx => hprices x (List.mem_cons_of_mem s hx)) hids₁
      refine ⟨id :: ids, e', Q', R', MatchingEngine.submitAll_cons hok hok', h',
        fun r hr => ?_⟩
      rw [MatchingEngine.submitAllResults, hok, List.mem_append] at hr
      rcases hr with hr | hr
      · exact h.submitOrderResults s r hr
      · exact hall r hr

end Refines

/-- After every run each object of the pool has one owner, the results that were ignored
were the ones relied on, and the next call is refused exactly when 4096 orders rest, and
then changes nothing. -/
theorem submitAll_owned (stdHash : OrderId → Nat) (subs : List Submission)
    (hprices : ∀ s ∈ subs, ValidPrice s.price)
    (hids : (MatchingEngine.init stdHash).idsFresh subs = true) :
    ∃ ids e, (MatchingEngine.init stdHash).submitAll subs = .ok (ids, e) ∧ Owned e ∧
      (∀ r ∈ (MatchingEngine.init stdHash).submitAllResults subs, r.AsAsked) ∧
      ∀ s : Submission, ValidPrice s.price → e.idsFresh [s] = true →
        (e.orderPool.available ≠ 0 → e.sequence + 1 ≠ 0) →
        ∃ id e', e.submitOrder s.accountId s.side s.price s.quantity = .ok (id, e') ∧
          (id = 0 ↔ e.restingOrders.length = 4096) ∧ (id = 0 → e' = e) := by
  obtain ⟨ids, e, Q, R, hok, h, hall⟩ := (init_refines stdHash).ownedAll hprices hids
  refine ⟨ids, e, hok, h.owned, hall, fun s hv hfresh hne => ?_⟩
  rw [MatchingEngine.idsFresh, Bool.and_eq_true] at hfresh
  obtain ⟨id, e', Q', hok', -, hroom, hfull⟩ := h.enterWithin hv hfresh.1
  refine ⟨id, e', hok', ?_, fun h0 => ?_⟩
  · rw [← h.restingOrders_full_iff]
    refine ⟨fun h0 => not_not.mp fun hnot => hne hnot ?_, fun h0 => (hfull h0).1⟩
    rw [h.sequence, ← hroom hnot]
    exact h0
  · have hnone : e.orderPool.available = 0 := not_not.mp fun hnot => hne hnot (by
      rw [h.sequence, ← hroom hnot]
      exact h0)
    exact (hfull hnone).2

/-- A run in which an order is filled and cancelled, one rests, and one without quantity
rests as well. -/
theorem submitAll_owned_three_orders :
    ∃ ids e, (MatchingEngine.init UInt64.toNat).submitAll
        [⟨1, .sell, 10, 5⟩, ⟨2, .buy, 10, 8⟩, ⟨3, .sell, 11, 0⟩] = .ok (ids, e) ∧ Owned e ∧
      (∀ r ∈ (MatchingEngine.init UInt64.toNat).submitAllResults
        [⟨1, .sell, 10, 5⟩, ⟨2, .buy, 10, 8⟩, ⟨3, .sell, 11, 0⟩], r.AsAsked) ∧
      ∀ s : Submission, ValidPrice s.price → e.idsFresh [s] = true →
        (e.orderPool.available ≠ 0 → e.sequence + 1 ≠ 0) →
        ∃ id e', e.submitOrder s.accountId s.side s.price s.quantity = .ok (id, e') ∧
          (id = 0 ↔ e.restingOrders.length = 4096) ∧ (id = 0 → e' = e) :=
  submitAll_owned UInt64.toNat _ (by decide)
    (idsFresh_of_length UInt64.toNat _ (by decide) (by decide))

/-- Once the sequencer has gone round, an order can be in the book and not in the
index. -/
theorem wrapped_run_loses_entry :
    (∀ s ∈ Wrap.shortRun, ValidPrice s.price) ∧
      ∀ stdHash, ∃ ids e,
        (MatchingEngine.init stdHash).submitAll Wrap.shortRun = .ok (ids, e) ∧ ¬ Owned e := by
  refine ⟨Wrap.shortRun_valid, fun stdHash => ?_⟩
  obtain ⟨ids, e, hok, x, p, h⟩ := Wrap.shortRun_namesakes stdHash
  refine ⟨_, e, hok, ?_⟩
  rintro ⟨Q, -, -, howned⟩
  rcases howned x h.first.1 with ⟨-, hnone, -⟩ | ⟨-, -, hfind⟩
  · have hsome := h.first.2.1
    rw [hnone] at hsome
    cases hsome
  · rw [h.first.2.2, h.indexed] at hfind
    exact h.ne (Option.some.inj hfind).symm

end OpenHft
