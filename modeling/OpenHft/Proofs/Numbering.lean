import OpenHft.Proofs.EngineRun
import OpenHft.Proofs.Ledger

/-!
# Numbers given out in a run

One counter numbers orders and trades, so a run draws more numbers than it has
calls. How many more is bounded: each trade takes a resting order out of the book
or is the last of its call, so every number drawn for a trade is paid for by an
order that was resting or by the call itself. A run of `n` calls therefore draws
at most `2 n` numbers, and as long as that stays below 2⁶⁴ no number is given
out twice.
-/

namespace OpenHft

open OpenHft.Lib PriceTime Refines

/-! ## What the reference says about a run's ids -/

namespace PriceTime

/-- No submission of the run is given the number of an order that rests. -/
def FreshRun (R : Book) : List Submission → Prop
  | [] => True
  | s :: subs =>
      (R.orders.length ≠ defaultOrderCapacity → ∀ o ∈ R.orders, o.id ≠ R.sequence + 1) ∧
        FreshRun (R.submitWithin defaultOrderCapacity s) subs

/-- No submission of the run finds the book full. -/
def RoomRun (R : Book) : List Submission → Prop
  | [] => True
  | s :: subs => R.orders.length ≠ defaultOrderCapacity ∧
      RoomRun (R.submitWithin defaultOrderCapacity s) subs

end PriceTime

namespace Refines

variable {e : MatchingEngine} {Q : Queues} {R : Book}

/-- What the reference says about the ids and the room of a run is so of the
engine. -/
theorem of_reference {subs : List Submission} (h : Refines e Q [] R)
    (hpos : Positive R) (hsubs : ∀ s ∈ subs, s.Valid) (hfresh : FreshRun R subs) :
    e.idsFresh subs = true ∧ (RoomRun R subs → e.poolSuffices subs = true) := by
  induction subs generalizing e Q R with
  | nil => exact ⟨rfl, fun _ => rfl⟩
  | cons s subs ih =>
      have hid : (decide (e.orderPool.available = 0) ||
          !e.book.orderIndex.contains (e.sequence + 1)) = true := by
        by_cases hfull : e.orderPool.available = 0
        · rw [decide_eq_true hfull, Bool.true_or]
        · rw [decide_eq_false hfull, Bool.false_or, Bool.not_eq_true',
            h.contains_eq_false_iff]
          exact hfresh.1 fun hlen => hfull (h.available_eq_zero_iff.mpr hlen)
      obtain ⟨id, e₁, Q₁, hok, h₁, _⟩ := h.submitWithin hpos
        (hsubs s List.mem_cons_self) hid
      have hpos₁ : Positive (R.submitWithin defaultOrderCapacity s) := by
        rw [Book.submitWithin]
        split
        · exact hpos
        · exact hpos.submit
      obtain ⟨hids, hpool⟩ := ih h₁ hpos₁
        (fun x hx => hsubs x (List.mem_cons_of_mem s hx)) hfresh.2
      refine ⟨?_, fun hroom => ?_⟩
      · rw [MatchingEngine.idsFresh, hid, hok]
        exact hids
      · have hne : e.orderPool.available ≠ 0 := fun h0 =>
          hroom.1 (h.available_eq_zero_iff.mp h0)
        rw [MatchingEngine.poolSuffices, decide_eq_true hne, hok]
        exact hpool hroom.2

end Refines

/-! ## Short runs -/

namespace PriceTime

section Weight

variable {i i' : OrderData} {R R' : Book}

/-- What is still to be traded of the order worked on counts as one. -/
def toTrade (i : OrderData) : Nat := if i.quantity = 0 then 0 else 1

/-- The numbers drawn, and those that the orders at hand may still draw. -/
def weight (i : OrderData) (R : Book) : Nat :=
  R.sequence.toNat + R.orders.length + toTrade i

theorem toTrade_le (i : OrderData) : toTrade i ≤ 1 := by
  rw [toTrade]
  split <;> omega

/-- A trade either takes the head out of the book or uses up the order worked on. -/
theorem Round.length_le (h : Round i R i' R') :
    R'.orders.length + toTrade i' + 1 ≤ R.orders.length + toTrade i := by
  cases h with
  | @mk r rest hr hq hreach quantity hquantity =>
      have hlength : (R.setSide i.side.opposite (afterRound r rest quantity)).orders.length +
          (rest.length + 1) = R.orders.length + (afterRound r rest quantity).length := by
        have hrest : rest.length + 1 = (R.resting i.side.opposite).length := by
          rw [hr, List.length_cons]
        rw [hrest, orders_setSide, Book.orders]
        cases i.side.opposite with
        | buy => simp only [List.length_append]; omega
        | sell => simp only [List.length_append]; omega
      have hi : toTrade i = 1 := if_neg hq
      have hi' := toTrade_le (OrderData.less i quantity)
      show (R.setSide i.side.opposite (afterRound r rest quantity)).orders.length + _ + 1 ≤ _
      by_cases hfilled : r.quantity = quantity
      · rw [afterRound, if_pos hfilled] at hlength ⊢
        omega
      · have hmin : i.quantity = quantity := by
          rcases Quantity.min_cases i.quantity r.quantity with ⟨heq, _⟩ | ⟨heq, _⟩
          · exact heq.symm.trans hquantity
          · exact absurd (heq.symm.trans hquantity) hfilled
        have hi0 : toTrade (OrderData.less i quantity) = 0 :=
          if_pos (Quantity.sub_eq_zero_iff.mpr hmin)
        rw [afterRound, if_neg hfilled, List.length_cons] at hlength
        rw [afterRound, if_neg hfilled]
        omega

theorem Round.sequence_eq (h : Round i R i' R') : R'.sequence = R.sequence + 1 := by
  cases h
  rfl

theorem toNat_succ {n : UInt64} (h : n.toNat + 1 < 2 ^ 64) : (n + 1).toNat = n.toNat + 1 := by
  rw [UInt64.toNat_add, UInt64.toNat_one]
  omega

theorem Rounds.weight_le (h : Rounds i R i' R') (hfit : weight i R < 2 ^ 64) :
    weight i' R' ≤ weight i R ∧ R.sequence.toNat ≤ R'.sequence.toNat := by
  induction h with
  | done i R => exact ⟨Nat.le_refl _, Nat.le_refl _⟩
  | @more i i₁ i' R R₁ R' first others ih =>
      have hlength := first.length_le
      rw [weight] at hfit ⊢
      have hseq : R₁.sequence.toNat = R.sequence.toNat + 1 := by
        rw [first.sequence_eq]
        exact toNat_succ (by omega)
      have hfit₁ : weight i₁ R₁ < 2 ^ 64 := by
        rw [weight]
        omega
      obtain ⟨hle, hmono⟩ := ih hfit₁
      rw [weight, weight] at hle
      rw [weight]
      omega

/-- As long as they fit, the numbers of the trades go up. -/
theorem Rounds.trades_increasing (h : Rounds i R i' R') (hfit : weight i R < 2 ^ 64)
    {new : List Trade} (hnew : R'.trades = R.trades ++ new) :
    (∀ t ∈ new, R.sequence.toNat < t.sequence.toNat ∧
        t.sequence.toNat ≤ R'.sequence.toNat) ∧
      new.Pairwise fun t t' => t.sequence.toNat < t'.sequence.toNat := by
  induction h generalizing new with
  | done i R =>
      rw [List.self_eq_append_right.mp hnew]
      exact ⟨fun t ht => absurd ht List.not_mem_nil, .nil⟩
  | @more i i₁ i' R R₁ R' first others ih =>
      obtain ⟨hle, hmono⟩ := (Rounds.more first (.done _ _)).weight_le hfit
      obtain ⟨-, hmono'⟩ := others.weight_le (Nat.lt_of_le_of_lt hle hfit)
      obtain ⟨new', hnew', -⟩ := others.trades_suffix
      obtain ⟨hbounds, hpairs⟩ := ih (Nat.lt_of_le_of_lt hle hfit) hnew'
      have hseq := first.sequence_eq
      have hsucc : R₁.sequence.toNat = R.sequence.toNat + 1 := by
        rw [hseq]
        rw [weight] at hfit
        have := first.length_le
        exact toNat_succ (by omega)
      obtain ⟨t₀, ht₀, hnumber⟩ : ∃ t₀, R₁.trades = R.trades ++ [t₀] ∧
          t₀.sequence = R₁.sequence := by
        cases first with
        | @mk r rest hr hq hreach quantity hquantity =>
            refine ⟨_, rfl, ?_⟩
            rw [tradeOf_sequence]
            rfl
      have hcons : new = t₀ :: new' := by
        rw [hnew', ht₀, List.append_assoc] at hnew
        exact (List.append_cancel_left hnew).symm
      subst hcons
      refine ⟨fun t ht => ?_, List.pairwise_cons.mpr ⟨fun t ht => ?_, hpairs⟩⟩
      · rcases List.mem_cons.mp ht with rfl | ht
        · rw [hnumber]
          omega
        · have := hbounds t ht
          omega
      · rw [hnumber]
        exact (hbounds t ht).1

end Weight

section Numbered

variable {R R' : Book} {s : Submission} {n : Nat}

/-- A call draws at least the number of its order, and at most one more for every
order that has left the book, and one for what it leaves there. -/
theorem Taken.drawn_le (h : Taken R s R')
    (hfit : R.sequence.toNat + R.orders.length + 2 < 2 ^ 64) :
    R'.sequence.toNat + R'.orders.length ≤ R.sequence.toNat + R.orders.length + 2 ∧
      R.sequence.toNat + 1 ≤ R'.sequence.toNat := by
  have hseq : R.drawn.sequence.toNat = R.sequence.toNat + 1 := toNat_succ (by omega)
  have hlen : R.drawn.orders.length = R.orders.length := rfl
  have hone := toTrade_le (R.incoming s)
  have hfit' : weight (R.incoming s) R.drawn < 2 ^ 64 := by
    rw [weight]
    omega
  cases h with
  | @used i R' hrounds h0 =>
      obtain ⟨hle, hmono⟩ := hrounds.weight_le hfit'
      rw [weight, weight] at hle
      omega
  | @rests i R' hrounds hempty =>
      have hinsert : (R'.insert i).orders.length = R'.orders.length + 1 :=
        (orders_insertBehind R' i).length_eq
      show R'.sequence.toNat + (R'.insert i).orders.length ≤ _ ∧ _ ≤ R'.sequence.toNat
      rw [hinsert]
      by_cases h0 : i.quantity = 0
      · rw [hempty h0]
        omega
      · obtain ⟨hle, hmono⟩ := hrounds.weight_le hfit'
        have hi : toTrade i = 1 := if_neg h0
        rw [weight, weight] at hle
        omega

theorem Taken.trades_increasing (h : Taken R s R')
    (hfit : R.sequence.toNat + R.orders.length + 2 < 2 ^ 64) {new : List Trade}
    (hnew : R'.trades = R.trades ++ new) :
    (∀ t ∈ new, R.sequence.toNat + 1 < t.sequence.toNat ∧
        t.sequence.toNat ≤ R'.sequence.toNat) ∧
      new.Pairwise fun t t' => t.sequence.toNat < t'.sequence.toNat := by
  have hseq : R.drawn.sequence.toNat = R.sequence.toNat + 1 := toNat_succ (by omega)
  have hlen : R.drawn.orders.length = R.orders.length := rfl
  have hone := toTrade_le (R.incoming s)
  have hfit' : weight (R.incoming s) R.drawn < 2 ^ 64 := by
    rw [weight]
    omega
  rw [← hseq]
  cases h with
  | used hrounds h0 => exact hrounds.trades_increasing hfit' hnew
  | rests hrounds hempty => exact hrounds.trades_increasing hfit' hnew

/-- After `n` calls: what was drawn, and that every resting order's number was. -/
structure Numbered (R : Book) (n : Nat) : Prop where
  drawn : R.sequence.toNat + R.orders.length ≤ 1000 + 2 * n
  issued : ∀ o ∈ R.orders, o.id.toNat ≤ R.sequence.toNat

theorem Numbered.empty : Numbered Book.empty 0 where
  drawn := by decide
  issued := fun _ ho => absurd ho List.not_mem_nil

theorem Numbered.fresh (h : Numbered R n) (hn : 1000 + 2 * (n + 1) < 2 ^ 64) :
    ∀ o ∈ R.orders, o.id ≠ R.sequence + 1 := by
  intro o ho heq
  have hle := h.issued o ho
  have hdrawn := h.drawn
  rw [heq, UInt64.toNat_add, UInt64.toNat_one] at hle
  omega

theorem Numbered.taken (h : Numbered R n) (hcall : Taken R s R')
    (hn : 1000 + 2 * (n + 1) < 2 ^ 64) : Numbered R' (n + 1) := by
  have hdrawn := h.drawn
  obtain ⟨hle, hmono⟩ := hcall.drawn_le (by omega)
  refine ⟨by omega, fun o ho => ?_⟩
  rcases hcall.orders_ids ho with ⟨x, hx, hox⟩ | hox
  · have := h.issued x hx
    rw [hox]
    omega
  · rw [hox, toNat_succ (by omega)]
    exact hmono

end Numbered

end PriceTime

/-- The next id of a run whose numbers fit into 64 bits is not in the index. -/
theorem Refines.fresh_of_numbered {e : MatchingEngine} {Q : Queues} {R : Book} {n : Nat}
    (h : Refines e Q [] R) (hnumbered : Numbered R n) (hn : 1000 + 2 * (n + 1) < 2 ^ 64) :
    (decide (e.orderPool.available = 0) ||
      !e.book.orderIndex.contains (e.sequence + 1)) = true := by
  rw [h.contains_eq_false_iff.mpr (hnumbered.fresh hn)]
  exact Bool.or_true _

theorem Refines.idsFresh_of_numbered {e : MatchingEngine} {Q : Queues} {R : Book}
    {subs : List Submission} {n : Nat} (h : Refines e Q [] R) (hnumbered : Numbered R n)
    (hprices : ∀ s ∈ subs, ValidPrice s.price)
    (hn : 1000 + 2 * (n + subs.length) < 2 ^ 64) : e.idsFresh subs = true := by
  induction subs generalizing e Q R n with
  | nil => rfl
  | cons s subs ih =>
      rw [List.length_cons] at hn
      have hdrawn := hnumbered.drawn
      have hfresh := h.fresh_of_numbered hnumbered (by omega)
      obtain ⟨id, e₁, Q₁, hok, h₁, -⟩ := h.enterWithin (hprices s List.mem_cons_self) hfresh
      have hnumbered₁ : Numbered (R.enterWithin defaultOrderCapacity s) (n + 1) := by
        rw [Book.enterWithin]
        split
        · exact ⟨by omega, hnumbered.issued⟩
        · exact hnumbered.taken (enter_taken R s) (by omega)
      rw [MatchingEngine.idsFresh, hfresh, hok]
      exact ih h₁ hnumbered₁ (fun x hx => hprices x (List.mem_cons_of_mem s hx)) (by omega)

/-- Every run short enough for the counter never gives out an id that the book
still knows. -/
theorem idsFresh_of_length (stdHash : OrderId → Nat) (subs : List Submission)
    (hprices : ∀ s ∈ subs, ValidPrice s.price) (hlen : subs.length < 2 ^ 63 - 500) :
    (MatchingEngine.init stdHash).idsFresh subs = true :=
  (init_refines stdHash).idsFresh_of_numbered Numbered.empty hprices (by omega)

end OpenHft
