import Mathlib.Algebra.BigOperators.Group.List.Basic
import OpenHft.Proofs.Rounds

/-!
# Where the quantity of an order went

Every quantity a round takes from two orders goes into the trade that names both of
them. So for any id, what its trades moved, what rests under it and what the order
being worked on still has under it add up to the same number before and after a round.
A call adds what it was asked for under the id it was given, and nothing under any
other (`Taken.accounted_eq`). With ids that are not given out twice, that makes the sum of
an order's trades and of what is left of it the quantity it came with (`Ledger`).
-/

namespace OpenHft

open OpenHft.Lib

/-- The trade names the order as its buyer or its seller. -/
def Trade.Names (t : Trade) (id : OrderId) : Prop :=
  t.buyOrderId = id ∨ t.sellOrderId = id

instance (t : Trade) (id : OrderId) : Decidable (t.Names id) :=
  inferInstanceAs (Decidable (_ ∨ _))

namespace PriceTime

open Refines

/-- What the trades that name the order have moved. -/
def tradedUnder (id : OrderId) (trades : List Trade) : Nat :=
  (trades.map fun t => if t.Names id then t.quantity.toNat else 0).sum

/-- What the order with this id still has. -/
def restingUnder (id : OrderId) (orders : List OrderData) : Nat :=
  (orders.map fun o => if o.id = id then o.quantity.toNat else 0).sum

section Sums

variable {id : OrderId}

@[simp] theorem tradedUnder_append (trades trades' : List Trade) :
    tradedUnder id (trades ++ trades') = tradedUnder id trades + tradedUnder id trades' := by
  simp [tradedUnder]

@[simp] theorem tradedUnder_singleton (t : Trade) :
    tradedUnder id [t] = if t.Names id then t.quantity.toNat else 0 := by
  simp [tradedUnder]

@[simp] theorem restingUnder_cons (o : OrderData) (orders : List OrderData) :
    restingUnder id (o :: orders) =
      (if o.id = id then o.quantity.toNat else 0) + restingUnder id orders := by
  simp [restingUnder]

@[simp] theorem restingUnder_append (orders orders' : List OrderData) :
    restingUnder id (orders ++ orders') =
      restingUnder id orders + restingUnder id orders' := by
  simp [restingUnder]

theorem restingUnder_perm {orders orders' : List OrderData} (h : orders.Perm orders') :
    restingUnder id orders = restingUnder id orders' :=
  (h.map _).sum_eq

theorem tradedUnder_eq_zero {trades : List Trade} (h : ∀ t ∈ trades, ¬ t.Names id) :
    tradedUnder id trades = 0 := by
  rw [tradedUnder, List.sum_eq_zero]
  intro n hn
  obtain ⟨t, ht, rfl⟩ := List.mem_map.mp hn
  exact if_neg (h t ht)

theorem restingUnder_eq_zero {orders : List OrderData} (h : ∀ o ∈ orders, o.id ≠ id) :
    restingUnder id orders = 0 := by
  rw [restingUnder, List.sum_eq_zero]
  intro n hn
  obtain ⟨o, ho, rfl⟩ := List.mem_map.mp hn
  exact if_neg (h o ho)

end Sums

/-! ## One round -/

section Accounted

variable {id : OrderId} {i i' : OrderData} {R R' : Book}

/-- All that is accounted for under an id while an order `i` is being worked on. -/
def accounted (id : OrderId) (i : OrderData) (R : Book) : Nat :=
  tradedUnder id R.trades + restingUnder id R.orders +
    if i.id = id then i.quantity.toNat else 0

theorem tradeOf_names (i r : OrderData) (quantity : Quantity) (sequence : UInt64) :
    (tradeOf i r quantity sequence).Names id ↔ i.id = id ∨ r.id = id := by
  cases hi : i.side with
  | buy => simp [tradeOf, hi, Trade.Names]
  | sell => simp [tradeOf, hi, Trade.Names, or_comm]

theorem tradeOf_quantity (i r : OrderData) (quantity : Quantity) (sequence : UInt64) :
    (tradeOf i r quantity sequence).quantity = quantity := by
  cases hi : i.side with
  | buy => simp [tradeOf, hi]
  | sell => simp [tradeOf, hi]

theorem tradeOf_sequence (i r : OrderData) (quantity : Quantity) (sequence : UInt64) :
    (tradeOf i r quantity sequence).sequence = sequence := by
  cases hi : i.side with
  | buy => simp [tradeOf, hi]
  | sell => simp [tradeOf, hi]

/-- What a side has under an id, and what the other side has. -/
theorem restingUnder_setSide (id : OrderId) (R : Book) (side : Side) (l : List OrderData) :
    restingUnder id (R.setSide side l).orders + restingUnder id (R.resting side) =
      restingUnder id R.orders + restingUnder id l := by
  rw [orders_setSide]
  cases side with
  | buy =>
      rw [Book.orders, restingUnder_append, restingUnder_append]
      omega
  | sell =>
      rw [Book.orders, restingUnder_append, restingUnder_append]
      omega

theorem restingUnder_afterRound (id : OrderId) (r : OrderData) (rest : List OrderData)
    {quantity : Quantity} (h : quantity ≤ r.quantity) :
    restingUnder id (afterRound r rest quantity) +
        (if r.id = id then quantity.toNat else 0) =
      restingUnder id (r :: rest) := by
  rw [afterRound, restingUnder_cons]
  split
  · next hfilled =>
      rw [hfilled]
      omega
  · have hle := UInt32.le_iff_toNat_le.mp h
    rw [restingUnder_cons, UInt32.toNat_sub_of_le _ _ h]
    split <;> omega

/-- A round moves quantity around under the ids it touches. -/
theorem Round.accounted_eq (h : Round i R i' R') (hid : ∀ o ∈ R.orders, o.id ≠ i.id) :
    accounted id i' R' = accounted id i R := by
  cases h with
  | @mk r rest hr hq hreach quantity hquantity =>
      have hri : r.id ≠ i.id := hid r (Book.mem_orders.mpr
        ⟨i.side.opposite, by rw [hr]; exact List.mem_cons_self⟩)
      obtain ⟨hli, hlr⟩ := Quantity.min_le i.quantity r.quantity
      rw [hquantity] at hli hlr
      have hside := restingUnder_setSide id R i.side.opposite
        (afterRound r rest quantity)
      have hround := restingUnder_afterRound id r rest hlr
      have hle := UInt32.le_iff_toNat_le.mp hli
      rw [hr] at hside
      show tradedUnder id (R.trades ++ [_]) +
        restingUnder id (R.setSide i.side.opposite _).orders +
          (if i.id = id then (i.quantity - quantity).toNat else 0) = accounted id i R
      rw [accounted, tradedUnder_append, tradedUnder_singleton, tradeOf_quantity,
        UInt32.toNat_sub_of_le _ _ hli]
      simp only [tradeOf_names]
      by_cases hi : i.id = id
      · have hr' : r.id ≠ id := fun heq => hri (heq.trans hi.symm)
        rw [if_neg hr'] at hround
        rw [if_pos (Or.inl hi), if_pos hi, if_pos hi]
        omega
      · by_cases hr' : r.id = id
        · rw [if_pos hr'] at hround
          rw [if_pos (Or.inr hr'), if_neg hi, if_neg hi]
          omega
        · rw [if_neg hr'] at hround
          rw [if_neg (not_or.mpr ⟨hi, hr'⟩), if_neg hi, if_neg hi]
          omega

theorem Round.id_eq (h : Round i R i' R') : i'.id = i.id := by
  cases h
  rfl

theorem Rounds.accounted_eq (h : Rounds i R i' R') (hid : ∀ o ∈ R.orders, o.id ≠ i.id) :
    accounted id i' R' = accounted id i R := by
  induction h with
  | done i R => rfl
  | more first others ih =>
      rw [ih, first.accounted_eq hid]
      rw [first.id_eq]
      exact (Rounds.more first (.done _ _)).id_ne hid

/-- The trades made by rounds come behind the others, and each names the order worked on
and an order that rested. -/
theorem Rounds.trades_suffix (h : Rounds i R i' R') :
    ∃ new, R'.trades = R.trades ++ new ∧
      ∀ t ∈ new, ∃ r ∈ R.orders, ∀ id, t.Names id ↔ i.id = id ∨ r.id = id := by
  induction h with
  | done i R => exact ⟨[], (List.append_nil _).symm, fun t ht => absurd ht List.not_mem_nil⟩
  | @more i i₁ i' R R₁ R' first others ih =>
      obtain ⟨new, hnew, hnamed⟩ := ih
      have hrest : ∀ t ∈ new, ∃ r ∈ R.orders, ∀ id, t.Names id ↔ i.id = id ∨ r.id = id := by
        intro t ht
        obtain ⟨r, hr, hnames⟩ := hnamed t ht
        obtain ⟨side, hr⟩ := Book.mem_orders.mp hr
        obtain ⟨x, hx, hrx⟩ := first.resting_terms hr
        refine ⟨x, Book.mem_orders.mpr ⟨side, hx⟩, fun id => ?_⟩
        rw [hnames, first.id_eq, (OrderData.terms_eq_iff.mp hrx).1]
      cases first with
      | @mk r rest hr hq hreach quantity hquantity =>
          refine ⟨tradeOf i r quantity (R.sequence + 1) :: new, ?_, fun t ht => ?_⟩
          · rw [hnew]
            exact List.append_assoc _ _ _
          · rcases List.mem_cons.mp ht with rfl | ht
            · refine ⟨r, Book.mem_orders.mpr ⟨i.side.opposite, ?_⟩, fun id => ?_⟩
              · rw [hr]
                exact List.mem_cons_self
              · exact tradeOf_names i r quantity _
            · exact hrest t ht

end Accounted

/-! ## A whole call -/

section Taken

variable {id : OrderId} {R R' : Book} {s : Submission}

theorem restingUnder_insert (R : Book) (o : OrderData) :
    restingUnder id (R.insert o).orders =
      (if o.id = id then o.quantity.toNat else 0) + restingUnder id R.orders := by
  rw [Book.insert, restingUnder_perm (orders_insertBehind R o), restingUnder_cons]

/-- A call accounts for what it was asked for under the id it was given, and leaves
all other ids alone. -/
theorem Taken.accounted_eq (h : Taken R s R')
    (hfresh : ∀ o ∈ R.orders, o.id ≠ R.sequence + 1) :
    tradedUnder id R'.trades + restingUnder id R'.orders =
      tradedUnder id R.trades + restingUnder id R.orders +
        if R.sequence + 1 = id then s.quantity.toNat else 0 := by
  have hstart : tradedUnder id R.trades + restingUnder id R.orders +
      (if R.sequence + 1 = id then s.quantity.toNat else 0) =
        accounted id (R.incoming s) R.drawn := rfl
  cases h with
  | @used i R' hrounds h0 =>
      rw [hstart, ← hrounds.accounted_eq hfresh, accounted, h0]
      simp
  | @rests i R' hrounds hempty =>
      rw [hstart, ← hrounds.accounted_eq hfresh, accounted, restingUnder_insert]
      show tradedUnder id R'.trades + _ = _
      omega

/-- A trade of the call names the order that was given and one that rested. -/
theorem Taken.trades_suffix (h : Taken R s R') :
    ∃ new, R'.trades = R.trades ++ new ∧
      ∀ t ∈ new, ∃ r ∈ R.orders, ∀ id, t.Names id ↔ R.sequence + 1 = id ∨ r.id = id := by
  cases h with
  | used hrounds h0 => exact hrounds.trades_suffix
  | rests hrounds hempty => exact hrounds.trades_suffix

theorem Taken.orders_ids (h : Taken R s R') {o : OrderData} (ho : o ∈ R'.orders) :
    (∃ x ∈ R.orders, o.id = x.id) ∨ o.id = R.sequence + 1 := by
  cases h with
  | used hrounds h0 => exact Or.inl (hrounds.mem_orders_id ho)
  | @rests i R' hrounds hempty =>
      rw [Book.insert, (orders_insertBehind R' i).mem_iff, List.mem_cons] at ho
      rcases ho with rfl | ho
      · exact Or.inr (OrderData.terms_eq_iff.mp hrounds.terms).1
      · exact Or.inl (hrounds.mem_orders_id ho)

end Taken

/-- The orders taken so far, each with the quantity it came with, and what became of
them. -/
structure Ledger (log : List OrderData) (R : Book) : Prop where
  resting : ∀ o ∈ R.orders, o.id ∈ log.map OrderData.id
  trades : ∀ t ∈ R.trades, ∀ id, t.Names id → id ∈ log.map OrderData.id
  balance : ∀ o ∈ log, o.quantity.toNat =
    tradedUnder o.id R.trades + restingUnder o.id R.orders

namespace Ledger

variable {log : List OrderData} {R : Book}

theorem empty : Ledger [] .empty where
  resting := fun _ h => absurd h List.not_mem_nil
  trades := fun _ h => absurd h List.not_mem_nil
  balance := fun _ h => absurd h List.not_mem_nil

theorem taken (h : Ledger log R) {s : Submission} {R' : Book} (hcall : Taken R s R')
    (hnew : R.sequence + 1 ∉ log.map OrderData.id) :
    Ledger (log ++ [R.incoming s]) R' := by
  have hfresh : ∀ o ∈ R.orders, o.id ≠ R.sequence + 1 := by
    intro o ho heq
    exact hnew (heq ▸ h.resting o ho)
  have hids : (log ++ [R.incoming s]).map OrderData.id =
      log.map OrderData.id ++ [R.sequence + 1] := by
    rw [List.map_append]
    rfl
  refine ⟨fun o ho => ?_, fun t ht id hid => ?_, fun o ho => ?_⟩
  · rw [hids, List.mem_append, List.mem_singleton]
    rcases hcall.orders_ids ho with ⟨x, hx, hox⟩ | hox
    · rw [hox]
      exact Or.inl (h.resting x hx)
    · exact Or.inr hox
  · rw [hids, List.mem_append, List.mem_singleton]
    obtain ⟨new, htrades, hnamed⟩ := hcall.trades_suffix
    rw [htrades, List.mem_append] at ht
    rcases ht with ht | ht
    · exact Or.inl (h.trades t ht id hid)
    · obtain ⟨r, hr, hnames⟩ := hnamed t ht
      rcases (hnames id).mp hid with heq | heq
      · exact Or.inr heq.symm
      · exact Or.inl (heq ▸ h.resting r hr)
  · rw [hcall.accounted_eq hfresh]
    rcases List.mem_append.mp ho with ho | ho
    · have hne : R.sequence + 1 ≠ o.id := fun heq =>
        hnew (heq ▸ List.mem_map_of_mem ho)
      rw [if_neg hne, h.balance o ho]
      rfl
    · rw [List.mem_singleton.mp ho]
      have htraded : tradedUnder (R.incoming s).id R.trades = 0 :=
        tradedUnder_eq_zero fun t ht hid => hnew (h.trades t ht _ hid)
      have hresting : restingUnder (R.incoming s).id R.orders = 0 :=
        restingUnder_eq_zero hfresh
      have hid : R.sequence + 1 = (R.incoming s).id := rfl
      rw [htraded, hresting, if_pos hid, Nat.zero_add]
      rfl

end Ledger

end PriceTime

end OpenHft
