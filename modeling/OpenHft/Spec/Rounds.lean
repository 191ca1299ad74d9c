import OpenHft.Spec.PriceTime

/-!
# Matching orders of any quantity

The price-time matcher of `PriceTime` says what matching is for. The engine also
takes orders without quantity, and then does something else: an order that crosses
nothing is put into the book as it is, and one that meets an empty order trades
nothing with it, takes it out of the book and stops there, even if it crosses what
comes next. `rounds` and `Book.enter` are the matcher with these cases; on a book
without empty orders, and for an order with a quantity, they are `sweep` and
`Book.submit`.
-/

namespace OpenHft

open OpenHft.Lib

namespace PriceTime

/-- The incoming order trades down the other side's list until a round trades
nothing. -/
def rounds (incoming : OrderData) (sequence : UInt64) : List OrderData → Sweep
  | [] => ⟨incoming, [], sequence, []⟩
  | r :: rest =>
      if incoming.quantity = 0 ∨ reaches incoming.side incoming.price r.price = false
      then ⟨incoming, r :: rest, sequence, []⟩
      else
        let quantity := min incoming.quantity r.quantity
        let trade := tradeOf incoming r quantity (sequence + 1)
        let incoming := { incoming with quantity := incoming.quantity - quantity }
        if r.quantity = quantity then
          if quantity = 0 then ⟨incoming, rest, sequence + 1, [trade]⟩
          else
            let s := rounds incoming (sequence + 1) rest
            { s with trades := trade :: s.trades }
        else
          ⟨incoming, { r with quantity := r.quantity - quantity } :: rest,
            sequence + 1, [trade]⟩

/-- The order would trade with the first order of the list. -/
def crosses (o : OrderData) : List OrderData → Bool
  | [] => false
  | r :: _ => reaches o.side o.price r.price

/-- The order goes behind the orders of its price. -/
def Book.insert (b : Book) (o : OrderData) : Book :=
  b.setSide o.side (insertBehind OrderData.rank o (b.resting o.side))

/-- The book once it has given out one number. -/
def Book.drawn (b : Book) : Book := { b with sequence := b.sequence + 1 }

/-- An order that crosses trades by rounds; one that does not goes into the book as it came. -/
def Book.enter (b : Book) (s : Submission) : Book :=
  if crosses (b.incoming s) (b.resting s.side.opposite) then
    let swept := rounds (b.incoming s) b.drawn.sequence (b.resting s.side.opposite)
    (b.drawn.swept s.side.opposite swept).rest swept.incoming
  else b.drawn.insert (b.incoming s)

/-- The same with room for so many resting orders. -/
def Book.enterWithin (capacity : Nat) (b : Book) (s : Submission) : Book :=
  if b.orders.length = capacity then b else b.enter s

/-- Orders one after the other, with room for so many. -/
def Book.enterAllWithin (capacity : Nat) (b : Book) (subs : List Submission) : Book :=
  subs.foldl (enterWithin capacity) b

/-- On orders that all have a quantity the rounds are the sweep. -/
theorem rounds_eq_sweep {l : List OrderData} (hpos : ∀ o ∈ l, o.quantity ≠ 0)
    (incoming : OrderData) (sequence : UInt64) :
    rounds incoming sequence l = sweep incoming sequence l := by
  induction l generalizing incoming sequence with
  | nil => rfl
  | cons r rest ih =>
      rw [rounds, sweep]
      split
      · rfl
      · next hgo =>
          dsimp only
          split
          · next hfilled =>
              -- the head has a quantity, so the round trades something
              have hne : min incoming.quantity r.quantity ≠ 0 := by
                rw [← hfilled]
                exact hpos r List.mem_cons_self
              rw [if_neg hne, ih fun o ho => hpos o (List.mem_cons_of_mem r ho)]
          · rfl

/-- An order that crosses nothing sweeps nothing. -/
theorem sweep_of_not_crosses {incoming : OrderData} {l : List OrderData}
    (h : crosses incoming l = false) (sequence : UInt64) :
    sweep incoming sequence l = ⟨incoming, l, sequence, []⟩ := by
  cases l with
  | nil => rfl
  | cons r rest =>
      rw [sweep]
      exact if_pos (Or.inr h)

theorem Book.enter_eq_submit {b : Book} {s : Submission}
    (hpos : ∀ o ∈ b.resting s.side.opposite, o.quantity ≠ 0) (hq : s.quantity ≠ 0) :
    b.enter s = b.submit s := by
  rw [Book.enter, Book.submit]
  split
  · rw [rounds_eq_sweep hpos]
    rfl
  · next hno =>
      rw [sweep_of_not_crosses (Bool.eq_false_of_not_eq_true hno)]
      have hq' : (b.incoming s).quantity ≠ 0 := hq
      show b.drawn.insert (b.incoming s) = Book.rest _ (b.incoming s)
      rw [Book.rest, if_neg hq', Book.insert, Book.swept, Function.update_eq_self,
        List.append_nil]
      rfl

end PriceTime

end OpenHft
