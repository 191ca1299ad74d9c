import OpenHft.Proofs.Numbering

/-!
# When the sequencer goes round

Orders and trades are numbered by one 64-bit counter that starts at 1000 and is
never checked. An order that rests long enough sees its own number given out
again. The run here keeps one sell order (1001) resting while 2⁶⁴ - 1 further
numbers are drawn below its price, two orders and a trade at a time; the next
sell order then is 1001 as well, and takes over the entry in the index. When the
first order is filled, `matchOne` cancels the second one in its place, and the
first stays in the book with nothing left.

The long middle of the run is not executed but simulated: the refinement holds
as long as no id is given to two resting orders, and that is so until the last
sell order arrives.
-/

namespace OpenHft

open OpenHft.Lib PriceTime

namespace Wrap

/-- The order that rests throughout. -/
def patient : Submission := ⟨1, .sell, 10, 1⟩

/-- One order that rests below it, and one that takes it. -/
def pair : List Submission := [⟨2, .sell, 5, 1⟩, ⟨3, .buy, 5, 1⟩]

/-- So many pairs. -/
def pairs (n : Nat) : List Submission := (List.replicate n pair).flatten

/-- The order that is given the number of the patient one. -/
def namesake : Submission := ⟨4, .sell, 20, 1⟩

/-- The order that fills the patient one. -/
def taker : Submission := ⟨5, .buy, 10, 1⟩

/-- Three numbers are drawn for each pair. -/
def pairCount : Nat := (2 ^ 64 - 1) / 3

/-- The whole run. -/
def run : List Submission := patient :: (pairs pairCount ++ [namesake, taker])

/-- The patient order alone in the book. -/
def Waiting (R : Book) (sequence : UInt64) : Prop :=
  R.resting .buy = [] ∧ R.resting .sell = [patient.order 1001] ∧
    R.sequence = sequence

theorem waiting_first : Waiting (Book.empty.submit patient) 1001 := by
  refine ⟨by decide +kernel, by decide +kernel, by decide +kernel⟩

variable {R : Book} {sequence : UInt64}

theorem submit_sell (h : Waiting R sequence) :
    (R.submit ⟨2, .sell, 5, 1⟩).resting .buy = [] ∧
      (R.submit ⟨2, .sell, 5, 1⟩).resting .sell =
        [⟨sequence + 1, 2, .sell, 5, 1⟩, patient.order 1001] ∧
      (R.submit ⟨2, .sell, 5, 1⟩).sequence = sequence + 1 := by
  obtain ⟨hbuy, hsell, hseq⟩ := h
  simp [Book.submit, Book.swept, Book.rest, Book.setSide, Book.incoming, sweep, hbuy,
    hsell, hseq, Side.opposite, Submission.order, insertBehind, OrderData.rank, patient]

theorem submit_buy {id : OrderId} (hbuy : R.resting .buy = [])
    (hsell : R.resting .sell = [⟨id, 2, .sell, 5, 1⟩, patient.order 1001])
    (hseq : R.sequence = sequence) :
    Waiting (R.submit ⟨3, .buy, 5, 1⟩) (sequence + 1 + 1) := by
  have hmin : min (1 : Quantity) 1 = 1 := by decide
  have hreach : reaches .buy 5 5 = true := by decide
  refine ⟨?_, ?_, ?_⟩ <;>
    simp [Book.submit, Book.swept, Book.rest, Book.incoming, sweep, hbuy, hsell, hseq,
      Side.opposite, Submission.order, hmin, hreach]

theorem Waiting.pair (h : Waiting R sequence) :
    Waiting (R.run pair) (sequence + 1 + 1 + 1) := by
  obtain ⟨hbuy, hsell, hseq⟩ := submit_sell h
  exact submit_buy hbuy hsell hseq

/-- The numbers drawn for one pair do not meet the patient order's. -/
theorem pair_fresh (h : Waiting R sequence) (h₁ : sequence + 1 ≠ 1001)
    (h₂ : sequence + 1 + 1 ≠ 1001) :
    (∀ o ∈ R.orders, o.id ≠ R.sequence + 1) ∧
      ∀ o ∈ (R.submit ⟨2, .sell, 5, 1⟩).orders,
        o.id ≠ (R.submit ⟨2, .sell, 5, 1⟩).sequence + 1 := by
  obtain ⟨hbuy, hsell, hseq⟩ := submit_sell h
  refine ⟨fun o ho => ?_, fun o ho => ?_⟩
  · rw [Book.orders, h.1, h.2.1, List.nil_append, List.mem_singleton] at ho
    rw [ho, h.2.2]
    exact h₁.symm
  · rw [Book.orders, hbuy, hsell, List.nil_append, List.mem_cons, List.mem_singleton] at ho
    rw [hseq]
    rcases ho with rfl | rfl
    · intro heq
      have := UInt64.toNat_inj.mpr heq
      simp only [UInt64.toNat_add] at this
      have hlt := (sequence).toNat_lt
      have h1 : (1 : UInt64).toNat = 1 := rfl
      omega
    · exact h₂.symm

theorem Waiting.orders (h : Waiting R sequence) : R.orders = [patient.order 1001] := by
  rw [Book.orders, h.1, h.2.1, List.nil_append]

theorem ofNat_ne_first {m : Nat} (h₁ : 1001 < m) (h₂ : m < 1001 + 2 ^ 64) :
    UInt64.ofNat m ≠ 1001 := by
  intro heq
  have hnat := UInt64.toNat_inj.mpr heq
  rw [UInt64.toNat_ofNat', show (1001 : UInt64).toNat = 1001 from rfl] at hnat
  omega

/-- Pairs until the counter has gone round: the reference keeps the patient
order alone, with room and with fresh numbers at every call. -/
theorem Waiting.pairs (n k : Nat) (h : Waiting R (UInt64.ofNat (1001 + 3 * k)))
    (hk : k + n ≤ pairCount) :
    Waiting (R.runWithin defaultOrderCapacity (Wrap.pairs n))
        (UInt64.ofNat (1001 + 3 * (k + n))) ∧
      FreshRun R (Wrap.pairs n) ∧ RoomRun R (Wrap.pairs n) := by
  induction n generalizing R k with
  | zero => exact ⟨h, trivial, trivial⟩
  | succ n ih =>
      have hlt : 3 * k + 3 < 2 ^ 64 := by
        rw [pairCount] at hk
        omega
      have hsucc : ∀ m, UInt64.ofNat m + 1 = UInt64.ofNat (m + 1) := fun m =>
        (UInt64.ofNat_add m 1).symm
      obtain ⟨hfresh₁, hfresh₂⟩ := pair_fresh h
        (by rw [hsucc]; exact ofNat_ne_first (by omega) (by omega))
        (by rw [hsucc, hsucc]; exact ofNat_ne_first (by omega) (by omega))
      obtain ⟨hbuy, hsell, hseq⟩ := submit_sell h
      have hpair := h.pair
      rw [hsucc, hsucc, hsucc, show 1001 + 3 * k + 1 + 1 + 1 = 1001 + 3 * (k + 1) by omega]
        at hpair
      obtain ⟨hwait, hfresh, hroom⟩ := ih (k + 1) hpair (by omega)
      have hlen₁ : R.orders.length ≠ defaultOrderCapacity := by
        rw [h.orders]
        decide
      have hlen₂ : (R.submit ⟨2, .sell, 5, 1⟩).orders.length ≠ defaultOrderCapacity := by
        rw [Book.orders, hbuy, hsell]
        exact (by decide : 2 ≠ defaultOrderCapacity)
      have hstep₁ : R.submitWithin defaultOrderCapacity ⟨2, .sell, 5, 1⟩ =
          R.submit ⟨2, .sell, 5, 1⟩ := if_neg hlen₁
      have hstep₂ : (R.submit ⟨2, .sell, 5, 1⟩).submitWithin defaultOrderCapacity
          ⟨3, .buy, 5, 1⟩ = R.run Wrap.pair := if_neg hlen₂
      rw [show k + (n + 1) = k + 1 + n by omega]
      refine ⟨?_, ⟨fun _ => hfresh₁, ?_⟩, hlen₁, ?_⟩
      · show Waiting (((R.submitWithin _ _).submitWithin _ _).runWithin _ _) _
        rw [hstep₁, hstep₂]
        exact hwait
      · rw [hstep₁]
        refine ⟨fun _ => hfresh₂, ?_⟩
        rw [hstep₂]
        exact hfresh
      · rw [hstep₁]
        refine ⟨hlen₂, ?_⟩
        rw [hstep₂]
        exact hroom

end Wrap

/-! ## Two orders of one number -/

section Namesake

variable {e : MatchingEngine} {Q : Queues} {p x : OrderPtr} {xs : List OrderPtr}
  {price : Price} {hv : ValidPrice price}

/-- A sell order that has the number of the best ask, and rests behind it, takes
over the entry in the index. -/
theorem namesake_takes_entry (he : EngineInv e Q [p])
    (hside : (e.book.orders p).side = .sell) (hw : ValidPrice (e.book.orders p).price)
    (hlt : price < (e.book.orders p).price) (hbid : e.book.best .buy = 0)
    (hask : e.book.best .sell = price) (hQ : Q (levelAt .sell price hv) = x :: xs)
    (hfind : e.book.orderIndex.find (e.book.orders p).id = some x) :
    ∃ b Q', e.process (some p) = .ok { e with book := b } ∧
      EngineInv { e with book := b } Q' [] ∧ b.best .sell = price ∧
      Q' (levelAt .sell price hv) = x :: xs ∧
      b.orderIndex.find (e.book.orders p).id = some p ∧
      (b.orders x).data = (e.book.orders x).data := by
  obtain ⟨b, hok, heff, hinv⟩ := he.add rfl hw
  have hcross : e.canCross p = .ok false :=
    MatchingEngine.canCross_null (by rw [hside]; exact hbid)
  have hne : levelAt .sell price hv ≠
      levelAt (e.book.orders p).side (e.book.orders p).price hw := fun heq =>
    absurd (priceToIndex_inj (congrArg (fun lv => lv.index.val) heq)) (Int64.ne_of_lt hlt)
  refine ⟨b, _, ?_, hinv, ?_, ?_, ?_, heff.data x⟩
  · simp [MatchingEngine.process, hcross, hok, bind, Except.bind]
  · have hno : ¬ (e.book.best .sell = 0 ∨
        ArrayOrderBook.improves .sell (e.book.orders p).price (e.book.best .sell) = true) := by
      rw [hask, not_or]
      exact ⟨hv.ne_zero, fun h => Int64.lt_asymm hlt (of_decide_eq_true h)⟩
    rw [heff.best, levelAt_side, hside, Function.update_self, if_neg hno, hask]
  · rw [Queues.push, Function.update_of_ne hne, hQ]
  · have hins : (e.book.orderIndex.insert (e.book.orders p).id p).1 = true := by
      rw [← Bool.not_eq_false, FixedHashMap.insert_eq_false_iff he.book.index, hfind]
      exact fun h => by cases h.1
    rw [heff.index, FixedHashMap.find_insert he.book.index hins, if_pos rfl]

/-- Two orders of one quantity are both empty after they have traded. -/
theorem afterTrade_empty (hpx : p ≠ x)
    (hquantity : (e.book.orders x).quantity = (e.book.orders p).quantity)
    {q : OrderPtr} (hq : q = p ∨ q = x) :
    ((e.afterTrade p x).book.orders q).data =
      { (e.book.orders q).data with quantity := 0 } := by
  have hsame : (e.book.orders q).quantity = (e.book.orders p).quantity := by
    rcases hq with rfl | rfl
    · rfl
    · exact hquantity
  show ((MatchingEngine.fill e.book p x _).orders q).data = _
  rw [MatchingEngine.fill_orders hpx, if_pos hq, MatchingEngine.tradedQuantity,
    hquantity, ite_self, hsame, UInt32.sub_self]
  rfl

/-- When the index has another order for its number, a filled order stays
linked. -/
theorem retire_other {e' : MatchingEngine} {Q' : Queues} {lv : LevelPtr} {y : OrderPtr}
    (hret : MatchingEngine.RetireOutcome e Q x e' Q') (hb : BookInv e.book Q)
    (hempty : (e.book.orders x).quantity = 0) (hx : x ∈ Q lv)
    (hfind : e.book.orderIndex.find (e.book.orders x).id = some y) (hxy : x ≠ y) :
    (e'.book.orders x).level = some lv ∧ (e'.book.orders x).quantity = 0 := by
  cases hret with
  | kept hne => exact absurd hempty hne
  | lost _ hf => exact absurd (hf.symm.trans hfind) (by simp)
  | removed q lv' b _ hf hq heff =>
      have hqy : q = y := Option.some.inj (hf.symm.trans hfind)
      refine ⟨?_, (congrArg OrderData.quantity (heff.data hb hq x)).trans hempty⟩
      show (b.orders x).level = _
      rw [heff.orderLevel hb hq, if_neg (hqy ▸ hxy)]
      exact hb.mem_iff.mp hx

/-- A buy order that fills the best ask, when another order has the entry for its
number: the other order is removed, and the filled one stays without quantity. -/
theorem filled_stays (he : EngineInv e Q [p])
    (hside : (e.book.orders p).side = .buy) (hprice : (e.book.orders p).price = price)
    (hask : e.book.best .sell = price) (hQ : Q (levelAt .sell price hv) = x :: xs)
    {y : OrderPtr} (hfind : e.book.orderIndex.find (e.book.orders x).id = some y)
    (hxy : x ≠ y) (hquantity : (e.book.orders x).quantity = (e.book.orders p).quantity)
    (hpos : (e.book.orders p).quantity > 0) :
    ∃ e', e.process (some p) = .ok e' ∧
      (e'.book.orders x).level = some (levelAt .sell price hv) ∧
      (e'.book.orders x).quantity = 0 := by
  have hbest : e.book.best (e.book.orders p).side.opposite = price := by
    rw [hside]
    exact hask
  have hcross : e.canCross p = .ok true := by
    rw [MatchingEngine.canCross_best he.book (by rw [hbest]; exact hv.ne_zero), hbest,
      hside, hprice]
    exact congrArg Except.ok (decide_eq_true (Int64.le_refl price))
  have hmem : x ∈ Q (levelAt .sell price hv) := by
    rw [hQ]
    exact List.mem_cons_self
  have hpx : p ≠ x := he.ne_linked List.mem_cons_self hmem
  have htraded : MatchingEngine.tradedQuantity (e.book.orders p) (e.book.orders x) =
      (e.book.orders p).quantity := by
    rw [MatchingEngine.tradedQuantity, hquantity, ite_self]
  have hb := (MatchingEngine.afterTrade_inv he p x).book
  obtain ⟨again, e₁, Q₁, hok, hout⟩ := MatchingEngine.matchOne_outcome he p
  cases hout with
  | idle h0 => exact absurd (hbest.symm.trans h0) hv.ne_zero
  | traded hv' r rest hQ' _ _ hret =>
      have hlv : levelAt (e.book.orders p).side.opposite
          (e.book.best (e.book.orders p).side.opposite) hv' = levelAt .sell price hv := by
        rw [levelAt_congr hbest hv' hv, hside, Side.opposite]
      rw [hlv, hQ] at hQ'
      obtain ⟨rfl, _⟩ := List.cons.inj hQ'
      have hx := afterTrade_empty hpx hquantity (Or.inr rfl)
      have hid : ((e.afterTrade p x).book.orders x).id = (e.book.orders x).id :=
        congrArg OrderData.id hx
      have hlevel := retire_other hret hb (congrArg OrderData.quantity hx) hmem
        (by rw [hid]; exact hfind) hxy
      have hp₁ : (e₁.book.orders p).quantity = 0 := congrArg OrderData.quantity
        ((hret.data hb p).trans (afterTrade_empty hpx hquantity (Or.inl rfl)))
      rw [htraded, decide_eq_true hpos] at hok
      obtain ⟨rounds, hrounds⟩ : ∃ rounds, (e.book.orders p).quantity.toNat = rounds + 1 :=
        Nat.exists_eq_succ_of_ne_zero (Nat.ne_of_gt (UInt32.lt_iff_toNat_lt.mp hpos))
      have hloop : MatchingEngine.tradeLoop p (e.book.orders p).quantity.toNat e = .ok e₁ := by
        rw [hrounds, Refines.tradeLoop_round hpos hcross hok]
        exact MatchingEngine.tradeLoop_stop rounds hp₁
      have hdone : ¬ (e₁.book.orders p).quantity > 0 := by
        rw [hp₁]
        exact UInt32.lt_irrefl 0
      refine ⟨e₁.releaseIfOwned (some p), ?_, hlevel⟩
      simp [MatchingEngine.process, hcross, MatchingEngine.executeTrade, hloop,
        if_neg hdone, bind, Except.bind]

/-- The call that makes two orders of one number. -/
theorem submitOrder_namesake (he : EngineInv e Q []) {free : List OrderPtr}
    (hfree : e.orderPool.freeList = p :: free) (hbid : e.book.best .buy = 0)
    (hask : e.book.best .sell = price) (hQ : Q (levelAt .sell price hv) = x :: xs)
    (hfind : e.book.orderIndex.find (e.sequence + 1) = some x) (accountId : AccountId)
    {worse : Price} (hw : ValidPrice worse) (hlt : price < worse) (quantity : Quantity) :
    ∃ e' Q', e.submitOrder accountId .sell worse quantity =
        .ok (e.sequence + 1, e') ∧
      EngineInv e' Q' [] ∧ e'.orderPool.freeList = free ∧
      e'.book.best .sell = price ∧ Q' (levelAt .sell price hv) = x :: xs ∧
      e'.book.orderIndex.find (e.sequence + 1) = some p ∧ x ≠ p ∧
      (e'.book.orders x).data = (e.book.orders x).data := by
  have he₁ := he.prepare hfree
    (o := EngineInv.newOrder e accountId .sell worse quantity) rfl
  have hp := EngineInv.prepared_self e p free
    (EngineInv.newOrder e accountId .sell worse quantity)
  have hpx := he₁.ne_linked List.mem_cons_self (by rw [hQ]; exact List.mem_cons_self)
  obtain ⟨b, Q', hok, he', hask', hQ', hfind', hx'⟩ := namesake_takes_entry he₁
    (by rw [hp]; rfl) (by rw [hp]; exact hw) (by rw [hp]; exact hlt) hbid hask hQ
    (by rw [hp]; exact hfind)
  rw [hp] at hfind'
  rw [EngineInv.prepared_of_ne e free _ hpx.symm] at hx'
  exact ⟨_, Q', MatchingEngine.submitOrder_some hfree hok, he', rfl, hask', hQ', hfind',
    hpx.symm, hx'⟩

/-- The call that fills the first of them. -/
theorem submitOrder_fills (he : EngineInv e Q []) {free : List OrderPtr}
    (hfree : e.orderPool.freeList = p :: free) (hask : e.book.best .sell = price)
    (hQ : Q (levelAt .sell price hv) = x :: xs) {y : OrderPtr}
    (hfind : e.book.orderIndex.find (e.book.orders x).id = some y) (hxy : x ≠ y)
    (hpos : (e.book.orders x).quantity > 0) (accountId : AccountId) :
    ∃ e', e.submitOrder accountId .buy price (e.book.orders x).quantity =
        .ok (e.sequence + 1, e') ∧
      (e'.book.orders x).level = some (levelAt .sell price hv) ∧
      (e'.book.orders x).quantity = 0 := by
  have he₁ := he.prepare hfree
    (o := EngineInv.newOrder e accountId .buy price (e.book.orders x).quantity) rfl
  have hp := EngineInv.prepared_self e p free
    (EngineInv.newOrder e accountId .buy price (e.book.orders x).quantity)
  have hpx := he₁.ne_linked List.mem_cons_self (by rw [hQ]; exact List.mem_cons_self)
  have hx := EngineInv.prepared_of_ne e free
    (EngineInv.newOrder e accountId .buy price (e.book.orders x).quantity) hpx.symm
  obtain ⟨e', hok, hlevel⟩ := filled_stays he₁ (by rw [hp]; rfl) (by rw [hp]; rfl) hask hQ
    (by rw [hx]; exact hfind) hxy (by rw [hx, hp]; rfl) (by rw [hp]; exact hpos)
  exact ⟨e', MatchingEngine.submitOrder_some hfree hok, hlevel⟩

end Namesake

namespace Wrap

theorem pairs_valid (n : Nat) : ∀ s ∈ pairs n, s.Valid := by
  intro s hs
  obtain ⟨l, hl, hsl⟩ := List.mem_flatten.mp hs
  rw [List.eq_of_mem_replicate hl] at hsl
  exact (by decide : ∀ s ∈ pair, s.Valid) s hsl

theorem run_valid : ∀ s ∈ run, ValidPrice s.price ∧ s.quantity ≠ 0 := by
  intro s hs
  rw [run, List.mem_cons, List.mem_append] at hs
  rcases hs with rfl | hs | hs
  · decide
  · exact pairs_valid pairCount s hs
  · exact (by decide : ∀ s ∈ [namesake, taker], s.Valid) s hs

/-- An order in the book that has nothing left to trade. -/
def HoldsFilled (e : MatchingEngine) : Prop :=
  ∃ p lv, (e.book.orders p).level = some lv ∧ (e.book.orders p).quantity = 0

/-- The pool has objects left while the patient order waits. -/
theorem Waiting.free {e : MatchingEngine} {Q : Queues} {R : Book} {sequence : UInt64}
    (hw : Waiting R sequence) (h : Refines e Q [] R) :
    ∃ p q free, e.orderPool.freeList = p :: q :: free := by
  have hroom := h.store.room
  rw [h.size, hw.orders, defaultOrderCapacity] at hroom
  match e.orderPool.freeList, hroom with
  | p :: q :: free, _ => exact ⟨p, q, free, rfl⟩

/-- The last two calls, made when the counter is back where it started. -/
theorem last_two {e : MatchingEngine} {Q : Queues} {R : Book} (h : Refines e Q [] R)
    (hw : Waiting R 1000) :
    ∃ ids e', e.submitAll [namesake, taker] = .ok (ids, e') ∧
      e.poolSuffices [namesake, taker] = true ∧ HoldsFilled e' := by
  obtain ⟨hv, hask, x, xs, hQ, hx⟩ := h.front hw.2.1
  obtain ⟨p, q, free, hfree⟩ := hw.free h
  have hseq : e.sequence = 1000 := h.sequence.trans hw.2.2
  have hfind : e.book.orderIndex.find (e.sequence + 1) = some x := by
    rw [hseq]
    exact h.holds.find_iff.mpr
      ⟨⟨_, by rw [hQ]; exact List.mem_cons_self⟩, congrArg OrderData.id hx⟩
  obtain ⟨e₁, Q₁, hok₁, he₁, hfree₁, hask₁, hQ₁, hfind₁, hxp, hx₁⟩ :=
    submitOrder_namesake h.engine hfree (best_of_nil h.holds hw.1) hask hQ hfind
      namesake.accountId (by decide : ValidPrice 20) (by decide) namesake.quantity
  rw [hx] at hx₁
  rw [hseq] at hfind₁
  have hid : (e₁.book.orders x).id = 1001 := congrArg OrderData.id hx₁
  have hquantity : (e₁.book.orders x).quantity = 1 := congrArg OrderData.quantity hx₁
  obtain ⟨e₂, hok₂, hlevel, hempty⟩ := submitOrder_fills he₁ hfree₁ hask₁ hQ₁
    (by rw [hid]; exact hfind₁) hxp (by rw [hquantity]; decide) taker.accountId
  rw [hquantity] at hok₂
  have hend : e₂.submitAll [] = .ok ([], e₂) := rfl
  have hlast := MatchingEngine.submitAll_cons (s := taker) hok₂ hend
  refine ⟨_, e₂, MatchingEngine.submitAll_cons (s := namesake) hok₁ hlast, ?_,
    x, _, hlevel, hempty⟩
  have hroom₀ : e.orderPool.freeList ≠ [] := by
    rw [hfree]
    exact List.cons_ne_nil _ _
  have hroom₁ : e₁.orderPool.freeList ≠ [] := by
    rw [hfree₁]
    exact List.cons_ne_nil _ _
  exact MatchingEngine.poolSuffices_cons (s := namesake) hroom₀ hok₁
    (MatchingEngine.poolSuffices_cons (s := taker) hroom₁ hok₂ rfl)

/-- The run up to the point where the counter is back where it started. -/
theorem waiting_reached (stdHash : OrderId → Nat) :
    ∃ ids e Q R, (MatchingEngine.init stdHash).submitAll (patient :: pairs pairCount) =
        .ok (ids, e) ∧
      (MatchingEngine.init stdHash).poolSuffices (patient :: pairs pairCount) = true ∧
      Refines e Q [] R ∧ Waiting R 1000 := by
  have hstart : Waiting (Book.empty.submit patient) (UInt64.ofNat (1001 + 3 * 0)) :=
    waiting_first
  obtain ⟨hwait, hfresh, hroom⟩ := hstart.pairs pairCount 0 (Nat.le_of_eq (Nat.zero_add _))
  have hstep : Book.empty.submitWithin defaultOrderCapacity patient =
      Book.empty.submit patient := if_neg (by decide)
  have hvalid : ∀ s ∈ patient :: pairs pairCount, s.Valid := by
    intro s hs
    rcases List.mem_cons.mp hs with rfl | hs
    · decide
    · exact pairs_valid pairCount s hs
  have hfresh' : FreshRun Book.empty (patient :: pairs pairCount) := by
    refine ⟨fun _ o ho => absurd ho List.not_mem_nil, ?_⟩
    rw [hstep]
    exact hfresh
  have hroom' : RoomRun Book.empty (patient :: pairs pairCount) := by
    refine ⟨by decide, ?_⟩
    rw [hstep]
    exact hroom
  have hinit := init_refines stdHash
  obtain ⟨hids, hpool⟩ := hinit.of_reference Sound.empty.positive hvalid hfresh'
  obtain ⟨ids, e, Q, hok, href, _, _⟩ := hinit.submitAll Sound.empty hvalid hids
  rw [Book.runWithin, List.foldl_cons, hstep] at href
  have hback : UInt64.ofNat (1001 + 3 * (0 + pairCount)) = 1000 := by decide
  rw [hback] at hwait
  exact ⟨ids, e, Q, _, hok, hpool hroom', href, hwait⟩

/-- The whole run. -/
theorem run_leaves_filled (stdHash : OrderId → Nat) :
    ∃ ids e, (MatchingEngine.init stdHash).submitAll run = .ok (ids, e) ∧
      (MatchingEngine.init stdHash).poolSuffices run = true ∧ HoldsFilled e := by
  obtain ⟨ids, e, Q, R, hok, hpool, href, hwait⟩ := waiting_reached stdHash
  obtain ⟨ids', e', hok', hpool', hfilled⟩ := last_two href hwait
  refine ⟨ids ++ ids', e', MatchingEngine.submitAll_append hok hok', ?_, hfilled⟩
  rw [run, ← List.cons_append, MatchingEngine.poolSuffices_append hok, hpool, hpool']
  rfl

/-- The same without the last order. -/
def shortRun : List Submission := patient :: (pairs pairCount ++ [namesake])

theorem shortRun_valid : ∀ s ∈ shortRun, ValidPrice s.price := by
  intro s hs
  rw [shortRun, List.mem_cons, List.mem_append, List.mem_singleton] at hs
  rcases hs with rfl | hs | rfl
  · decide
  · exact (pairs_valid pairCount s hs).1
  · decide

theorem shortRun_pool (stdHash : OrderId → Nat) :
    (MatchingEngine.init stdHash).poolSuffices shortRun = true := by
  obtain ⟨ids, e, Q, R, hok, hpool, h, hw⟩ := waiting_reached stdHash
  obtain ⟨p, q, free, hfree⟩ := hw.free h
  have hroom : e.orderPool.available ≠ 0 := by
    rw [OrderPool.available, hfree]
    exact Nat.succ_ne_zero _
  rw [shortRun, ← List.cons_append, MatchingEngine.poolSuffices_append hok, hpool,
    MatchingEngine.poolSuffices, decide_eq_true hroom]
  cases e.submitOrder namesake.accountId namesake.side namesake.price namesake.quantity <;> rfl

/-- Two orders in the book that have one number, and of which only the second has an
entry in the index. -/
structure Namesakes (e : MatchingEngine) (x p : OrderPtr) (id : OrderId) : Prop where
  ne : x ≠ p
  first : x < defaultOrderCapacity ∧ (e.book.orders x).level.isSome ∧
    (e.book.orders x).id = id
  second : p < defaultOrderCapacity ∧ (e.book.orders p).level.isSome ∧
    (e.book.orders p).id = id
  indexed : e.book.orderIndex.find id = some p

theorem linked_lt {e : MatchingEngine} {Q : Queues} (he : EngineInv e Q [])
    {q : OrderPtr} {lv : LevelPtr} (hq : q ∈ Q lv) :
    q < defaultOrderCapacity ∧ (e.book.orders q).level.isSome := by
  have howned := he.wf.owned q (he.linked_inUse hq)
  rw [he.capacity] at howned
  refine ⟨howned, ?_⟩
  rw [he.book.mem_iff.mp hq]
  rfl

/-- After the short run the book holds two orders of the number 1001, which two calls
of the run returned. -/
theorem shortRun_namesakes (stdHash : OrderId → Nat) :
    ∃ ids e, (MatchingEngine.init stdHash).submitAll shortRun = .ok (1001 :: ids ++ [1001], e) ∧
      ∃ x p, Namesakes e x p 1001 := by
  obtain ⟨ids, e, Q, R, hok, -, h, hw⟩ := waiting_reached stdHash
  obtain ⟨hv, hask, x, xs, hQ, hx⟩ := h.front hw.2.1
  obtain ⟨p, q, free, hfree⟩ := hw.free h
  have hseq : e.sequence = 1000 := h.sequence.trans hw.2.2
  have hfind : e.book.orderIndex.find (e.sequence + 1) = some x := by
    rw [hseq]
    exact h.holds.find_iff.mpr
      ⟨⟨_, by rw [hQ]; exact List.mem_cons_self⟩, congrArg OrderData.id hx⟩
  obtain ⟨e₁, Q₁, hok₁, he₁, -, -, hQ₁, hfind₁, hxp, hx₁⟩ :=
    submitOrder_namesake h.engine hfree (best_of_nil h.holds hw.1) hask hQ hfind
      namesake.accountId (by decide : ValidPrice 20) (by decide) namesake.quantity
  rw [hx] at hx₁
  rw [hseq] at hfind₁ hok₁
  obtain ⟨lv, hp⟩ := ArrayOrderBook.find_linked he₁.book hfind₁
  have hlast : e.submitAll [namesake] = .ok ([1001], e₁) :=
    MatchingEngine.submitAll_cons (s := namesake) hok₁ rfl
  obtain ⟨id, e₀, ids', hfirst, -, rfl⟩ := MatchingEngine.submitAll_cons_ok hok
  have hid : id = 1001 := by
    obtain ⟨e', hok'⟩ : ∃ e', (MatchingEngine.init stdHash).submitOrder patient.accountId
        patient.side patient.price patient.quantity = .ok (1001, e') := by
      obtain ⟨e', Q', hok', -⟩ := (init_refines stdHash).enter (s := patient) (by decide)
        (by intro hnil; cases hnil) (fun _ ho => absurd ho List.not_mem_nil)
      exact ⟨e', hok'⟩
    rw [hok'] at hfirst
    cases hfirst
    rfl
  subst hid
  refine ⟨ids', e₁, MatchingEngine.submitAll_append hok hlast, x, p, hxp, ?_, ?_, hfind₁⟩
  · obtain ⟨hlt, hsome⟩ := linked_lt he₁ (by rw [hQ₁]; exact List.mem_cons_self)
    exact ⟨hlt, hsome, congrArg OrderData.id hx₁⟩
  · obtain ⟨hlt, hsome⟩ := linked_lt he₁ hp
    exact ⟨hlt, hsome, (he₁.book.indexed _ _ hfind₁).1⟩

end Wrap

/-- Once the sequencer has gone round, the book a run leaves need not be the
reference book, although every call was valid and found an object in the pool. -/
theorem wrapped_run_breaks_priority :
    (∀ s ∈ Wrap.run, ValidPrice s.price ∧ s.quantity ≠ 0) ∧
      ∀ stdHash, (MatchingEngine.init stdHash).poolSuffices Wrap.run = true ∧
        ∃ ids e, (MatchingEngine.init stdHash).submitAll Wrap.run = .ok (ids, e) ∧
          ¬ ShowsBook e (Book.empty.run Wrap.run) := by
  refine ⟨Wrap.run_valid, fun stdHash => ?_⟩
  obtain ⟨ids, e, hok, hpool, p, lv, hlevel, hempty⟩ := Wrap.run_leaves_filled stdHash
  refine ⟨hpool, ids, e, hok, fun hshows => ?_⟩
  exact hshows.linked_pos (Sound.empty.positive.run Wrap.run) hlevel hempty

/-- Nor need every resting order have something left. -/
theorem wrapped_run_keeps_filled_order :
    (∀ s ∈ Wrap.run, ValidPrice s.price ∧ s.quantity ≠ 0) ∧
      ∀ stdHash, ∃ ids e,
        (MatchingEngine.init stdHash).submitAll Wrap.run = .ok (ids, e) ∧
        ∃ p lv, (e.book.orders p).level = some lv ∧ (e.book.orders p).quantity = 0 := by
  refine ⟨Wrap.run_valid, fun stdHash => ?_⟩
  obtain ⟨ids, e, hok, _, hfilled⟩ := Wrap.run_leaves_filled stdHash
  exact ⟨ids, e, hok, hfilled⟩

end OpenHft
