import OpenHft.Lib.Runs
import OpenHft.Proofs.EngineStep

/-!
# Orders that are known

Whatever can be reached in a book was put there: heads of levels, the orders behind them,
and the orders in the index. So what holds of all orders that are added holds of all orders
that are ever traded with. `Relinks` says of an operation which orders it makes reachable
that were not; it asks nothing of the book and nothing of the prices, and so the argument
also covers runs in which a price has left the book in disorder.

`Advances` carries this through a call of the engine, together with the numbers of the
trades, which follow one another.
-/

namespace OpenHft

open OpenHft.Lib

/-! ## Links -/

/-- All orders that can be reached in the book are among the known ones. -/
structure KnownBook (known : OrderPtr → Prop) (b : ArrayOrderBook) : Prop where
  head : ∀ lv q, (b.levels lv).head = some q → known q
  next : ∀ p q, known p → (b.orders p).next = some q → known q
  index : ∀ q, b.orderIndex.Stores q → known q

/-- Links of the new book lead to orders just added, or were there before. -/
structure Relinks (added : OrderPtr → Prop) (b b' : ArrayOrderBook) : Prop where
  ids : ∀ q, (b'.orders q).id = (b.orders q).id
  head : ∀ lv q, (b'.levels lv).head = some q → added q ∨ (b.levels lv).head = some q
  next : ∀ p q, (b'.orders p).next = some q → added q ∨ (b.orders p).next = some q
  index : ∀ q, b'.orderIndex.Stores q → added q ∨ b.orderIndex.Stores q

variable {known : OrderPtr → Prop} {added : OrderPtr → Prop} {b b' b'' : ArrayOrderBook}
  {p : OrderPtr}

theorem KnownBook.relinks (h : KnownBook known b) (hlinks : Relinks added b b')
    (hadded : ∀ q, added q → known q) : KnownBook known b' where
  head := fun lv q hq => (hlinks.head lv q hq).elim (hadded q) (h.head lv q)
  next := fun p q hp hq => (hlinks.next p q hq).elim (hadded q) (h.next p q hp)
  index := fun q hq => (hlinks.index q hq).elim (hadded q) (h.index q)

namespace Relinks

theorem trans (h : Relinks added b b') (h' : Relinks added b' b'') : Relinks added b b'' where
  ids := fun q => (h'.ids q).trans (h.ids q)
  head := fun lv q hq => (h'.head lv q hq).elim .inl (h.head lv q)
  next := fun p q hq => (h'.next p q hq).elim .inl (h.next p q)
  index := fun q hq => (h'.index q hq).elim .inl (h.index q)

/-- Levels may get another price or total, and what is not a link does not matter. -/
theorem of_same (horders : b'.orders = b.orders)
    (hhead : ∀ lv, (b'.levels lv).head = (b.levels lv).head)
    (hindex : b'.orderIndex = b.orderIndex) : Relinks added b b' where
  ids := fun q => by rw [horders]
  head := fun lv q hq => .inr ((hhead lv).symm.trans hq)
  next := fun p q hq => .inr (by rwa [horders] at hq)
  index := fun q hq => .inr (hindex ▸ hq)

theorem of_sameLinks (h : SameLinks b b') : Relinks added b b' where
  ids := fun q => by rw [h.orders]
  head := fun lv q hq => .inr (by rwa [h.levels] at hq)
  next := fun p q hq => .inr (by rwa [h.orders] at hq)
  index := fun q hq => .inr (h.orderIndex ▸ hq)

theorem refl (b : ArrayOrderBook) : Relinks added b b := of_same rfl (fun _ => rfl) rfl

end Relinks

namespace PriceLevel

/-- The order that is unlinked need not be linked properly. -/
theorem remove_links (lvl : PriceLevel) (h : Heap) (p q : OrderPtr) :
    ((lvl.remove h (some p)).1 q).id = (h q).id ∧
      ∀ q', ((lvl.remove h (some p)).1 q).next = some q' →
        (h p).next = some q' ∨ (h q).next = some q' := by
  simp only [remove, unlinkFromPrev_eq, unlinkFromNext_eq, Heap.modify_apply, setPrev_apply,
    setNext_apply]
  by_cases hq : q = p
  · rw [if_pos hq]
    exact ⟨rfl, fun q' hnone => by cases hnone⟩
  · rw [if_neg hq]
    refine ⟨rfl, fun q' hnext => ?_⟩
    by_cases hprev : (h p).prev = some q
    · rw [hprev] at hnext
      exact .inl (by simpa [Chain.redirectLink] using hnext)
    · rw [Chain.redirectLink_of_ne hprev] at hnext
      exact .inr hnext

theorem remove_head (lvl : PriceLevel) (h : Heap) (p : OrderPtr) :
    (lvl.remove h (some p)).2.head =
      Chain.redirectStart lvl.head (h p).prev (h p).next := by
  simp only [remove, unlinkFromPrev_eq]

end PriceLevel

namespace ArrayOrderBook

theorem relinks_activateLevel {o : Order} {level : LevelPtr}
    (h : b.activateLevel o level = .ok b') : Relinks added b b' := by
  unfold activateLevel at h
  split at h
  · obtain ⟨bitmap, -, heq⟩ := bind_eq_ok.mp h
    cases heq
    refine .of_same rfl (fun lv => ?_) rfl
    show (Function.update b.levels level { b.levels level with price := o.price } lv).head = _
    by_cases hlv : lv = level
    · rw [hlv, Function.update_self]
    · rw [Function.update_of_ne hlv]
  · cases h
    exact .refl b

theorem relinks_pushBackLevel (b : ArrayOrderBook) (level : LevelPtr) (p : OrderPtr) :
    Relinks (· = p) b (b.pushBackLevel level p) where
  ids := fun q => congrArg OrderData.id (PriceLevel.pushBack_data ..)
  head := by
    intro lv q hq
    change (Function.update b.levels level ((b.levels level).pushBack level b.orders p).2
      lv).head = some q at hq
    by_cases hlv : lv = level
    · subst hlv
      rw [Function.update_self, PriceLevel.pushBack_head] at hq
      cases htail : (b.levels lv).tail with
      | none =>
          rw [htail] at hq
          exact .inl (Option.some.inj hq).symm
      | some last =>
          rw [htail] at hq
          exact .inr hq
    · rw [Function.update_of_ne hlv] at hq
      exact .inr hq
  next := by
    intro q q' hq
    change (((b.levels level).pushBack level b.orders p).1 q).next = some q' at hq
    rw [PriceLevel.pushBack_heap] at hq
    dsimp only at hq
    split at hq
    · exact .inl (Option.some.inj hq).symm
    · split at hq
      · cases hq
      · exact .inr hq
  index := fun q hq => .inr hq

/-- `addOrder` makes the order reachable that it adds. -/
theorem relinks_addOrder (h : b.addOrder p = .ok b') : Relinks (· = p) b b' := by
  unfold addOrder at h
  obtain ⟨level, -, h⟩ := bind_eq_ok.mp h
  obtain ⟨b₁, hactivate, h⟩ := bind_eq_ok.mp h
  cases h
  have htouch : Relinks (· = p) b (b.touch (b.orders p).price) :=
    .of_same rfl (fun _ => rfl) rfl
  have hpush := (htouch.trans (relinks_activateLevel hactivate)).trans
    (relinks_pushBackLevel b₁ level p)
  refine hpush.trans ⟨fun q => ?_, fun lv q hq => .inr ?_, fun q q' hq => .inr ?_,
    fun q hq => ?_⟩
  · rw [raiseBest_eq]
  · rwa [raiseBest_eq] at hq
  · rwa [raiseBest_eq] at hq
  · rw [raiseBest_eq] at hq
    exact (FixedHashMap.stores_insert hq).imp_left Eq.symm

/-- What becomes reachable by unlinking an order was behind it. -/
theorem relinks_removeLevel (b : ArrayOrderBook) (level : LevelPtr) (p : OrderPtr) :
    Relinks (fun q => (b.orders p).next = some q) b (b.removeLevel level p) where
  ids := fun q => (PriceLevel.remove_links (b.levels level) b.orders p q).1
  head := by
    intro lv q hq
    change (Function.update b.levels level ((b.levels level).remove b.orders (some p)).2
      lv).head = some q at hq
    by_cases hlv : lv = level
    · subst hlv
      rw [Function.update_self, PriceLevel.remove_head] at hq
      cases hprev : (b.orders p).prev with
      | none =>
          rw [hprev] at hq
          exact .inl hq
      | some before =>
          rw [hprev] at hq
          exact .inr hq
    · rw [Function.update_of_ne hlv] at hq
      exact .inr hq
  next := fun q => (PriceLevel.remove_links (b.levels level) b.orders p q).2
  index := fun q hq => .inr hq

theorem refreshBestBid_same (h : b.refreshBestBid = .ok b') :
    b'.orders = b.orders ∧ b'.levels = b.levels ∧ b'.orderIndex = b.orderIndex := by
  unfold refreshBestBid at h
  split at h
  · cases h
    exact ⟨rfl, rfl, rfl⟩
  · dsimp only at h
    split at h
    · split at h <;>
      · cases h
        exact ⟨rfl, rfl, rfl⟩
    · cases h

theorem refreshBestAsk_same (h : b.refreshBestAsk = .ok b') :
    b'.orders = b.orders ∧ b'.levels = b.levels ∧ b'.orderIndex = b.orderIndex := by
  unfold refreshBestAsk at h
  split at h
  · cases h
    exact ⟨rfl, rfl, rfl⟩
  · dsimp only at h
    split at h
    · split at h <;>
      · cases h
        exact ⟨rfl, rfl, rfl⟩
    · cases h

theorem deactivateLevel_same {o : Order} (h : b.deactivateLevel o = .ok b') :
    b'.orders = b.orders ∧ b'.levels = b.levels ∧ b'.orderIndex = b.orderIndex := by
  unfold deactivateLevel at h
  obtain ⟨bitmap, -, h⟩ := bind_eq_ok.mp h
  dsimp only at h
  split at h
  · split at h
    · have hsame := refreshBestBid_same h
      exact hsame
    · cases h
      exact ⟨rfl, rfl, rfl⟩
  · split at h
    · have hsame := refreshBestAsk_same h
      exact hsame
    · cases h
      exact ⟨rfl, rfl, rfl⟩

theorem relinks_deactivateLevel {o : Order} (h : b.deactivateLevel o = .ok b') :
    Relinks added b b' := by
  obtain ⟨horders, hlevels, hindex⟩ := deactivateLevel_same h
  exact .of_same horders (fun lv => by rw [hlevels]) hindex

/-- `cancelOrder` reaches the order it removes through the index. -/
theorem relinks_cancelOrder {id : OrderId} {removed : Option OrderPtr}
    (h : b.cancelOrder id = .ok (removed, b')) :
    ∃ added, Relinks added b b' ∧ ∀ q, added q →
      ∃ p, b.orderIndex.Stores p ∧ (b.orders p).next = some q := by
  unfold cancelOrder at h
  split at h
  · cases h
    exact ⟨fun _ => False, .refl b, fun _ h => h.elim⟩
  · next p hfind =>
      split at h
      · cases h
      · next level _ =>
          refine ⟨_, ?_, fun q hq => ⟨p, FixedHashMap.stores_of_find hfind, hq⟩⟩
          have hremove := relinks_removeLevel b level p
          have herase : ∀ b₁ : ArrayOrderBook,
              Relinks (fun q => (b.orders p).next = some q) b₁
                { b₁ with orderIndex := (b₁.orderIndex.erase id).2 } := fun b₁ =>
            ⟨fun _ => rfl, fun _ _ hq => .inr hq, fun _ _ hq => .inr hq,
              fun q hq => .inr (FixedHashMap.stores_erase hq)⟩
          dsimp only at h
          split at h
          · obtain ⟨b₁, hdeactivate, h⟩ := bind_eq_ok.mp h
            cases h
            exact (hremove.trans (relinks_deactivateLevel hdeactivate)).trans (herase b₁)
          · cases h
            exact hremove.trans (herase _)

end ArrayOrderBook

theorem KnownBook.addOrder (h : KnownBook known b) (hp : known p)
    (hok : b.addOrder p = .ok b') : KnownBook known b' :=
  h.relinks (ArrayOrderBook.relinks_addOrder hok) fun _ hq => by rwa [hq]

theorem KnownBook.cancelOrder {id : OrderId} {removed : Option OrderPtr}
    (h : KnownBook known b) (hok : b.cancelOrder id = .ok (removed, b')) :
    KnownBook known b' ∧ ∀ q, (b'.orders q).id = (b.orders q).id := by
  obtain ⟨added, hlinks, hadded⟩ := ArrayOrderBook.relinks_cancelOrder hok
  refine ⟨h.relinks hlinks fun q hq => ?_, hlinks.ids⟩
  obtain ⟨p, hstored, hnext⟩ := hadded q hq
  exact h.next p q (h.index p hstored) hnext

/-- A new order becomes known. -/
theorem KnownBook.rewriteOrder (h : KnownBook known b) {o : Order} (hnext : o.next = none) :
    KnownBook (fun q => q = p ∨ known q) (b.rewriteOrder p o) where
  head := fun lv q hq => .inr (h.head lv q hq)
  next := by
    intro q q' hq hq'
    by_cases hqp : q = p
    · rw [hqp, ArrayOrderBook.rewriteOrder_self, hnext] at hq'
      cases hq'
    · rw [ArrayOrderBook.rewriteOrder_of_ne _ _ hqp] at hq'
      exact .inr (h.next q q' (hq.resolve_left hqp) hq')
  index := fun q hq => .inr (h.index q hq)

/-! ## A call of the engine -/

/-- The trades are numbered one after the other, the first behind `last`. -/
def Consecutive : UInt64 → List Trade → Prop
  | _, [] => True
  | last, t :: trades => t.sequence = last + 1 ∧ Consecutive (last + 1) trades

theorem Consecutive.append {last : UInt64} {new new' : List Trade}
    (h : Consecutive last new)
    (h' : Consecutive (last + UInt64.ofNat new.length) new') :
    Consecutive last (new ++ new') := by
  induction new generalizing last with
  | nil =>
      have hzero : last + UInt64.ofNat ([] : List Trade).length = last := UInt64.add_zero last
      rwa [hzero] at h'
  | cons t new ih =>
      refine ⟨h.1, ih h.2 ?_⟩
      rwa [List.length_cons, Nat.add_comm, UInt64.ofNat_add, ← UInt64.add_assoc] at h'

/-- The id is that of a known order. -/
def KnownId (known : OrderPtr → Prop) (e : MatchingEngine) (id : OrderId) : Prop :=
  ∃ q, known q ∧ (e.book.orders q).id = id

/-- From one state of the engine to a later one: trades are published between known orders,
and the counter counts them. -/
structure Advances (known : OrderPtr → Prop) (e e' : MatchingEngine) : Prop where
  book : KnownBook known e'.book
  ids : ∀ q, (e'.book.orders q).id = (e.book.orders q).id
  trades : ∃ new, e'.published = e.published ++ new ∧
    e'.sequence = e.sequence + UInt64.ofNat new.length ∧ Consecutive e.sequence new ∧
    ∀ t ∈ new, KnownId known e t.buyOrderId ∧ KnownId known e t.sellOrderId

variable {e e' e'' : MatchingEngine} {r : OrderPtr}

namespace Advances

/-- The book has changed, and nothing was published. -/
theorem of_book (h : KnownBook known e'.book)
    (hids : ∀ q, (e'.book.orders q).id = (e.book.orders q).id)
    (hpublished : e'.published = e.published) (hsequence : e'.sequence = e.sequence) :
    Advances known e e' :=
  ⟨h, hids, [], by rw [hpublished, List.append_nil],
    hsequence.trans (UInt64.add_zero _).symm, trivial, fun _ h => absurd h List.not_mem_nil⟩

theorem refl (h : KnownBook known e.book) : Advances known e e :=
  .of_book h (fun _ => rfl) rfl rfl

theorem trans (h : Advances known e e') (h' : Advances known e' e'') :
    Advances known e e'' := by
  obtain ⟨new, hnew, hsequence, hnumbers, hknown⟩ := h.trades
  obtain ⟨new', hnew', hsequence', hnumbers', hknown'⟩ := h'.trades
  refine ⟨h'.book, fun q => (h'.ids q).trans (h.ids q), new ++ new', ?_, ?_, ?_, ?_⟩
  · rw [hnew', hnew, List.append_assoc]
  · rw [hsequence', hsequence, List.length_append, UInt64.ofNat_add, UInt64.add_assoc]
  · rw [hsequence] at hnumbers'
    exact hnumbers.append hnumbers'
  · intro t ht
    have hids : KnownId known e' = KnownId known e := by
      funext id
      simp only [KnownId, h.ids]
    rw [hids] at hknown'
    exact (List.mem_append.mp ht).elim (hknown t) (hknown' t)

theorem publishTrade (h : KnownBook known e.book) (hp : known p) (hr : known r)
    (quantity : Quantity) :
    Advances known e (e.publishTrade p r quantity) := by
  refine ⟨h, fun _ => rfl, [_], rfl, rfl, ⟨?_, trivial⟩, ?_⟩
  · cases hside : (e.book.orders p).side <;> simp only [MatchingEngine.createTrade, hside]
  · intro t ht
    rw [List.mem_singleton.mp ht]
    cases hside : (e.book.orders p).side with
    | buy =>
        simp only [MatchingEngine.createTrade, hside]
        exact ⟨⟨p, hp, rfl⟩, ⟨r, hr, rfl⟩⟩
    | sell =>
        simp only [MatchingEngine.createTrade, hside]
        exact ⟨⟨r, hr, rfl⟩, ⟨p, hp, rfl⟩⟩

end Advances

namespace MatchingEngine

theorem retireFilled_advances (h : KnownBook known e.book)
    (hok : e.retireFilled r = .ok e') : Advances known e e' := by
  unfold retireFilled at hok
  split at hok
  · obtain ⟨⟨removed, book⟩, hcancel, hok⟩ := bind_eq_ok.mp hok
    cases hok
    obtain ⟨hbook, hids⟩ := h.cancelOrder hcancel
    exact .of_book hbook hids rfl rfl
  · cases hok
    exact .refl h

theorem matchOne_advances {again : Bool} (h : KnownBook known e.book)
    (hp : known p) (hok : e.matchOne p = .ok (again, e')) :
    Advances known e e' := by
  unfold matchOne at hok
  obtain ⟨best, -, hok⟩ := bind_eq_ok.mp hok
  split at hok
  · cases hok
    exact .refl h
  · next level =>
      split at hok
      · cases hok
        exact .refl h
      · next r hfront =>
          obtain ⟨e₁, hretire, hok⟩ := bind_eq_ok.mp hok
          cases hok
          have hpublish := Advances.publishTrade h hp (h.head level r hfront)
            (tradedQuantity (e.book.orders p) (e.book.orders r))
          have hfill : Advances known (e.publishTrade p r
              (tradedQuantity (e.book.orders p) (e.book.orders r))) (e.afterTrade p r) := by
            have hlinks : Relinks (fun _ => False) e.book (e.afterTrade p r).book :=
              .of_sameLinks (fill_sameLinks e.book p r _)
            exact .of_book (h.relinks hlinks fun _ hq => hq.elim) hlinks.ids rfl rfl
          exact (hpublish.trans hfill).trans (retireFilled_advances hfill.book hretire)

theorem tradeLoop_advances {rounds : Nat} (h : KnownBook known e.book)
    (hp : known p) (hok : tradeLoop p rounds e = .ok e') :
    Advances known e e' := by
  induction rounds generalizing e with
  | zero =>
      unfold tradeLoop at hok
      split at hok
      · obtain ⟨crosses, -, hok⟩ := bind_eq_ok.mp hok
        cases crosses with
        | true => cases hok
        | false =>
            cases hok
            exact .refl h
      · cases hok
        exact .refl h
  | succ rounds ih =>
      unfold tradeLoop at hok
      split at hok
      · obtain ⟨crosses, -, hok⟩ := bind_eq_ok.mp hok
        cases crosses with
        | false =>
            cases hok
            exact .refl h
        | true =>
            obtain ⟨⟨again, e₁⟩, hmatch, hok⟩ := bind_eq_ok.mp hok
            have hround := matchOne_advances h hp hmatch
            cases again with
            | false =>
                cases hok
                exact hround
            | true =>
                exact hround.trans (ih hround.book hok)
      · cases hok
        exact .refl h

theorem addOrder_advances (h : KnownBook known e.book) (hp : known p)
    (hadd : e.book.addOrder p = .ok b) : Advances known e { e with book := b } :=
  .of_book (h.addOrder hp hadd) (ArrayOrderBook.relinks_addOrder hadd).ids rfl rfl

theorem process_advances (h : KnownBook known e.book) (hp : known p)
    (hok : e.process (some p) = .ok e') : Advances known e e' := by
  unfold process at hok
  obtain ⟨crosses, -, hok⟩ := bind_eq_ok.mp hok
  cases crosses with
  | false =>
      obtain ⟨book, hadd, hok⟩ := bind_eq_ok.mp hok
      cases hok
      exact addOrder_advances h hp hadd
  | true =>
      unfold executeTrade at hok
      obtain ⟨e₁, hloop, hok⟩ := bind_eq_ok.mp hok
      have hrounds := tradeLoop_advances h hp hloop
      split at hok
      · obtain ⟨book, hadd, hok⟩ := bind_eq_ok.mp hok
        cases hok
        exact hrounds.trans (addOrder_advances hrounds.book hp hadd)
      · cases hok
        exact hrounds.trans (.of_book hrounds.book (fun _ => rfl) rfl rfl)

end MatchingEngine

end OpenHft
