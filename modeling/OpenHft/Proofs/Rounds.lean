import OpenHft.Proofs.Reference
import OpenHft.Spec.Rounds

/-!
# One round, and what follows from it

Whatever the quantities are, a call of the engine is a number of rounds, each of which
trades with the head of the other side's list, and then the order that was given is
either used up or put into the book. `Round` says all a round can do; a property of a
whole call is shown for one round and carried along `Rounds`. `Taken` is the inversion
of a call.
-/

namespace OpenHft

open OpenHft.Lib PriceTime

namespace Refines

variable {R : Book} {side : Side} {rest : List OrderData}

/-- The reference book after a trade that leaves one side as given. -/
def traded (R : Book) (side : Side) (l : List OrderData) (trade : Trade) : Book :=
  { R.setSide side l with
    sequence := R.sequence + 1
    trades := R.trades ++ [trade] }

theorem traded_resting (R : Book) (side : Side) (l : List OrderData) (trade : Trade) :
    (traded R side l trade).resting side = l := Function.update_self _ _ _

theorem traded_setSide (R : Book) (side : Side) (l l' : List OrderData)
    (trade : Trade) : (traded R side l trade).setSide side l' = traded R side l' trade := by
  simp only [traded, Book.setSide, Function.update_idem]

/-- The reference lists after one trade of `quantity` with the head. -/
def afterRound (r : OrderData) (rest : List OrderData) (quantity : Quantity) :
    List OrderData :=
  if r.quantity = quantity then rest
  else { r with quantity := r.quantity - quantity } :: rest

theorem swept_self (hr : R.resting side = rest) (o : OrderData) :
    R.swept side ⟨o, rest, R.sequence, []⟩ = R := by
  subst hr
  rw [Book.swept, Function.update_eq_self, List.append_nil]

theorem traded_swept (R : Book) (side : Side) (l : List OrderData) (trade : Trade)
    (s : Sweep) : (traded R side l trade).swept side s =
      R.swept side { s with trades := trade :: s.trades } := by
  simp [traded, Book.setSide, Book.swept]

end Refines

open Refines

namespace PriceTime

/-- What is left of an order that has traded. -/
def OrderData.less (o : OrderData) (quantity : Quantity) : OrderData :=
  { o with quantity := o.quantity - quantity }

/-- An order `i` with a quantity trades with the head of the other side's list. -/
inductive Round (i : OrderData) (R : Book) : OrderData → Book → Prop
  | mk {r : OrderData} {rest : List OrderData} (hr : R.resting i.side.opposite = r :: rest)
      (hq : i.quantity ≠ 0) (hreach : reaches i.side i.price r.price = true)
      {quantity : Quantity} (hquantity : min i.quantity r.quantity = quantity) :
      Round i R (OrderData.less i quantity)
        (traded R i.side.opposite (afterRound r rest quantity)
          (tradeOf i r quantity (R.sequence + 1)))

/-- A number of rounds, one after the other. -/
inductive Rounds : OrderData → Book → OrderData → Book → Prop
  | done (i : OrderData) (R : Book) : Rounds i R i R
  | more {i i₁ i' : OrderData} {R R₁ R' : Book} (first : Round i R i₁ R₁)
      (others : Rounds i₁ R₁ i' R') : Rounds i R i' R'

/-- The matcher goes from book to book by rounds. -/
theorem rounds_reached {l : List OrderData} {i : OrderData} {R : Book}
    (hr : R.resting i.side.opposite = l) :
    Rounds i R (rounds i R.sequence l).incoming
      (R.swept i.side.opposite (rounds i R.sequence l)) := by
  induction l generalizing i R with
  | nil =>
      rw [rounds, swept_self hr]
      exact .done i R
  | cons r rest ih =>
      rw [rounds]
      split
      · rw [swept_self hr]
        exact .done i R
      · next hgo =>
          obtain ⟨hq, hreach⟩ := not_or.mp hgo
          have hround := Round.mk hr hq (Bool.eq_true_of_not_eq_false hreach) rfl
          rw [afterRound] at hround
          dsimp only
          split
          · next hfilled =>
              rw [if_pos hfilled] at hround
              split
              · exact .more hround (.done _ _)
              · have hrest := ih (i := OrderData.less i (min i.quantity r.quantity))
                  (traded_resting R i.side.opposite rest
                    (tradeOf i r (min i.quantity r.quantity) (R.sequence + 1)))
                rw [show (OrderData.less i _).side = i.side from rfl, traded_swept] at hrest
                exact .more hround hrest
          · next hleft =>
              rw [if_neg hleft] at hround
              exact .more hround (.done _ _)

/-! ## A call -/

/-- The two ways an order can be taken: it is used up by rounds, or what they leave of
it goes into the book. An empty order goes into the book only as it came. -/
inductive Taken (R : Book) (s : Submission) : Book → Prop
  | used {i : OrderData} {R' : Book} (hrounds : Rounds (R.incoming s) R.drawn i R')
      (h0 : i.quantity = 0) : Taken R s R'
  | rests {i : OrderData} {R' : Book} (hrounds : Rounds (R.incoming s) R.drawn i R')
      (hempty : i.quantity = 0 → R' = R.drawn) : Taken R s (R'.insert i)

theorem Taken.of_rest {R R' : Book} {s : Submission} {i : OrderData}
    (hrounds : Rounds (R.incoming s) R.drawn i R') : Taken R s (R'.rest i) := by
  rw [Book.rest]
  split
  · next h0 => exact .used hrounds h0
  · next h0 => exact .rests hrounds fun h => absurd h h0

theorem enter_taken (R : Book) (s : Submission) : Taken R s (R.enter s) := by
  rw [Book.enter]
  split
  · exact .of_rest (rounds_reached (R := R.drawn) (i := R.incoming s) rfl)
  · exact .rests (.done _ _) fun _ => rfl

/-! ## Terms -/

section Terms

variable {i i' : OrderData} {R R' : Book}

theorem Round.terms (h : Round i R i' R') : i'.terms = i.terms := by
  cases h
  rfl

theorem Rounds.terms (h : Rounds i R i' R') : i'.terms = i.terms := by
  induction h with
  | done i R => rfl
  | more first _ ih => exact ih.trans first.terms

theorem mem_afterRound {o r : OrderData} {rest : List OrderData} {quantity : Quantity}
    (ho : o ∈ afterRound r rest quantity) : ∃ x ∈ r :: rest, o.terms = x.terms := by
  rw [afterRound] at ho
  split at ho
  · exact ⟨o, List.mem_cons_of_mem r ho, rfl⟩
  · rcases List.mem_cons.mp ho with rfl | ho
    · exact ⟨r, List.mem_cons_self, rfl⟩
    · exact ⟨o, List.mem_cons_of_mem r ho, rfl⟩

/-- What rests after a round rested before it. -/
theorem Round.resting_terms (h : Round i R i' R') {o : OrderData} {side : Side}
    (ho : o ∈ R'.resting side) : ∃ x ∈ R.resting side, o.terms = x.terms := by
  cases h with
  | mk hr hq hreach hquantity =>
      have ho' : o ∈ Function.update R.resting i.side.opposite (afterRound _ _ _) side := ho
      by_cases hside : side = i.side.opposite
      · subst hside
        rw [Function.update_self] at ho'
        rw [hr]
        exact mem_afterRound ho'
      · rw [Function.update_of_ne hside] at ho'
        exact ⟨o, ho', rfl⟩

theorem Rounds.resting_terms (h : Rounds i R i' R') {o : OrderData} {side : Side}
    (ho : o ∈ R'.resting side) : ∃ x ∈ R.resting side, o.terms = x.terms := by
  induction h with
  | done i R => exact ⟨o, ho, rfl⟩
  | more first _ ih =>
      obtain ⟨x, hx, hox⟩ := ih ho
      obtain ⟨y, hy, hxy⟩ := first.resting_terms hx
      exact ⟨y, hy, hox.trans hxy⟩

theorem Rounds.mem_orders_id (h : Rounds i R i' R') {o : OrderData} (ho : o ∈ R'.orders) :
    ∃ x ∈ R.orders, o.id = x.id := by
  obtain ⟨side, ho⟩ := Book.mem_orders.mp ho
  obtain ⟨x, hx, hox⟩ := h.resting_terms ho
  exact ⟨x, Book.mem_orders.mpr ⟨side, hx⟩, (OrderData.terms_eq_iff.mp hox).1⟩

/-- No order comes to have an id by rounds. -/
theorem Rounds.id_ne (h : Rounds i R i' R') {id : OrderId}
    (hid : ∀ o ∈ R.orders, o.id ≠ id) : ∀ o ∈ R'.orders, o.id ≠ id := by
  intro o ho
  obtain ⟨x, hx, hox⟩ := h.mem_orders_id ho
  rw [hox]
  exact hid x hx

end Terms

end PriceTime

end OpenHft
