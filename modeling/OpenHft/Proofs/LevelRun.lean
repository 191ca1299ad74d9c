import OpenHft.Proofs.Level

/-!
# A price level through any sequence of calls

`push_back`, `remove` and `pop_front` on one level, called in any order, next to the list
that appending and deleting would leave. The caller keeps two rules, and they are all that
is asked of it: an order is pushed only while the level does not hold it, and removed only
while the level does. Where in the queue a removed order stands makes no difference.

What is carried along a run is not only the queue. `Relinks` also accounts for every order
that is not in it: one that was in the queue and has left it has all three links null, and
one that was never in it is as it was, field for field. The second half needs no other level
to be mentioned, and for that reason holds of the orders of every other level at once.
-/

namespace OpenHft

open OpenHft.Lib

/-- A call on one level, with an order that is not null. -/
inductive LevelCall where
  | pushBack (order : OrderPtr)
  | remove (order : OrderPtr)
  | popFront
  deriving DecidableEq

namespace LevelCall

/-- What the call makes of the queue as a list. -/
def onList (l : List OrderPtr) : LevelCall → List OrderPtr
  | pushBack p => l ++ [p]
  | remove p => l.erase p
  | popFront => l.tail

/-- The caller's side: no order is pushed twice, and none is removed that is not there. -/
def Allowed (l : List OrderPtr) : LevelCall → Prop
  | pushBack p => p ∉ l
  | remove p => p ∈ l
  | popFront => True

instance (l : List OrderPtr) : (c : LevelCall) → Decidable (c.Allowed l)
  | pushBack p => inferInstanceAs (Decidable (p ∉ l))
  | remove p => inferInstanceAs (Decidable (p ∈ l))
  | popFront => inferInstanceAs (Decidable True)

/-- Calls one after the other, on the list. -/
def onListAll (l : List OrderPtr) (calls : List LevelCall) : List OrderPtr :=
  calls.foldl onList l

/-- Every call of the sequence is allowed at the list that the calls before it leave. -/
def AllowedAll : List OrderPtr → List LevelCall → Prop
  | _, [] => True
  | l, c :: calls => c.Allowed l ∧ AllowedAll (c.onList l) calls

instance decidableAllowedAll :
    (l : List OrderPtr) → (calls : List LevelCall) → Decidable (AllowedAll l calls)
  | _, [] => inferInstanceAs (Decidable True)
  | l, c :: calls =>
      have := decidableAllowedAll (c.onList l) calls
      inferInstanceAs (Decidable (c.Allowed l ∧ AllowedAll (c.onList l) calls))

end LevelCall

/-- The order memory and the one level that is called. -/
structure LevelUse where
  orders : Heap
  level : PriceLevel

/-- An order that no level holds, as `remove` leaves it. -/
def Order.Unlinked (o : Order) : Prop := o.level = none ∧ o.prev = none ∧ o.next = none

namespace LevelUse

/-- One call; what `pop_front` returns is not looked at. -/
def call (this : LevelPtr) (u : LevelUse) : LevelCall → LevelUse
  | .pushBack p =>
      let pushed := u.level.pushBack this u.orders p
      ⟨pushed.1, pushed.2⟩
  | .remove p =>
      let removed := u.level.remove u.orders (some p)
      ⟨removed.1, removed.2⟩
  | .popFront =>
      let popped := u.level.popFront u.orders
      ⟨popped.2.1, popped.2.2⟩

/-- Calls one after the other, on the level. -/
def callAll (this : LevelPtr) (u : LevelUse) (calls : List LevelCall) : LevelUse :=
  calls.foldl (call this) u

variable {this : LevelPtr} {u u' u'' : LevelUse} {l l' l'' : List OrderPtr}
  {calls calls' : List LevelCall} {p : OrderPtr}

/-- The calls turn the queue `l` into the queue `l'`, and account for every order: each one
of the queue came from `l` or was pushed, one that came so far and is not in the queue is
linked nowhere, and all others are untouched. -/
structure Relinks (this : LevelPtr) (calls : List LevelCall) (l l' : List OrderPtr)
    (u u' : LevelUse) : Prop where
  queue : IsQueue u'.orders u'.level this l'
  source : ∀ p ∈ l', p ∈ l ∨ .pushBack p ∈ calls
  gone : ∀ p, p ∈ l ∨ .pushBack p ∈ calls → p ∉ l' → (u'.orders p).Unlinked
  other : ∀ p, p ∉ l → .pushBack p ∉ calls → u'.orders p = u.orders p

theorem Relinks.refl (hq : IsQueue u.orders u.level this l) : Relinks this [] l l u u where
  queue := hq
  source := fun _ hp => Or.inl hp
  gone := fun _ hp hnot => absurd (hp.resolve_right List.not_mem_nil) hnot
  other := fun _ _ _ => rfl

theorem Relinks.trans (h : Relinks this calls l l' u u')
    (h' : Relinks this calls' l' l'' u' u'') :
    Relinks this (calls ++ calls') l l'' u u'' where
  queue := h'.queue
  source := by
    intro p hp
    rw [List.mem_append]
    rcases h'.source p hp with hp | hp
    · exact (h.source p hp).imp_right Or.inl
    · exact Or.inr (Or.inr hp)
  gone := by
    intro p hp hnot
    by_cases hlast : p ∈ l' ∨ .pushBack p ∈ calls'
    · exact h'.gone p hlast hnot
    · -- gone before the second part began, which then left it alone
      obtain ⟨hmem, hpush⟩ := not_or.mp hlast
      rw [h'.other p hmem hpush]
      rw [List.mem_append] at hp
      exact h.gone p (hp.imp_right fun hc => hc.resolve_right hpush) hmem
  other := by
    intro p hp hpush
    rw [List.mem_append, not_or] at hpush
    have hmem : p ∉ l' := fun hl => (h.source p hl).elim hp hpush.1
    rw [h'.other p hmem hpush.2, h.other p hp hpush.1]

/-! ## One call -/

theorem relinks_pushBack (hq : IsQueue u.orders u.level this l) (hp : p ∉ l) :
    Relinks this [.pushBack p] l (l ++ [p]) u (u.call this (.pushBack p)) where
  queue := PriceLevel.pushBack_queue hq hp
  source := by
    intro q hmem
    rcases List.mem_append.mp hmem with hmem | hmem
    · exact Or.inl hmem
    · rw [List.mem_singleton.mp hmem]
      exact Or.inr (List.mem_singleton_self _)
  gone := by
    intro q hmem hnot
    refine absurd ?_ hnot
    rcases hmem with hmem | hmem
    · exact List.mem_append_left _ hmem
    · cases List.mem_singleton.mp hmem
      simp
  other := by
    intro q hmem hpush
    have hne : q ≠ p := fun e => hpush (by rw [e]; exact List.mem_singleton_self _)
    exact PriceLevel.pushBack_other hq hmem hne

theorem relinks_remove (hq : IsQueue u.orders u.level this l) (hp : p ∈ l) :
    Relinks this [.remove p] l (l.erase p) u (u.call this (.remove p)) where
  queue := by
    obtain ⟨xs, ys, rfl⟩ := List.append_of_mem hp
    have hxs : p ∉ xs := fun hmem =>
      (List.nodup_append.mp hq.dll.nodup).2.2 p hmem p (List.mem_cons_self) rfl
    rw [List.erase_append_right _ hxs, List.erase_cons_head]
    exact PriceLevel.remove_queue hq
  source := fun q hmem => Or.inl (List.mem_of_mem_erase hmem)
  gone := by
    intro q hmem hnot
    have hq' : q ∈ l := hmem.resolve_right (by simp)
    have hqp : q = p := by
      by_contra hne
      exact hnot ((List.mem_erase_of_ne hne).mpr hq')
    subst hqp
    show ((u.level.remove u.orders (some q)).1 q).Unlinked
    rw [PriceLevel.remove_heap q (hq.not_self hp).1]
    simp [Order.Unlinked]
  other := fun q hmem _ => PriceLevel.remove_other hq hp hmem

/-- `pop_front` returns the first order, and is a `remove` of it. -/
theorem popFront_eq (hq : IsQueue u.orders u.level this l) :
    u.level.popFront u.orders =
      (l.head?, u.level.remove u.orders l.head?) := by
  have hhead : u.level.head = l.head? := hq.front_eq
  rw [PriceLevel.popFront, hhead]
  cases l.head? <;> rfl

theorem relinks_popFront (hq : IsQueue u.orders u.level this l) :
    Relinks this [.popFront] l l.tail u (u.call this .popFront) := by
  cases l with
  | nil =>
      have hsame : u.call this .popFront = u := by
        simp only [call, popFront_eq hq]
        rfl
      rw [hsame]
      exact ⟨hq, fun _ hp => Or.inl hp, fun _ hp hnot => absurd (hp.resolve_right (by simp)) hnot,
        fun _ _ _ => rfl⟩
  | cons p l =>
      have hstep : u.call this .popFront = u.call this (.remove p) := by
        simp only [call, popFront_eq hq]
        rfl
      have hremove := relinks_remove hq (List.mem_cons_self (a := p))
      rw [List.erase_cons_head, ← hstep] at hremove
      exact ⟨hremove.queue, fun q hmem => Or.inl (List.mem_cons_of_mem p hmem),
        fun q hmem hnot => hremove.gone q (hmem.imp_right (by simp)) hnot,
        fun q hmem _ => hremove.other q hmem (by simp)⟩

theorem relinks_call (hq : IsQueue u.orders u.level this l) {c : LevelCall}
    (hok : c.Allowed l) : Relinks this [c] l (c.onList l) u (u.call this c) := by
  cases c with
  | pushBack p => exact relinks_pushBack hq hok
  | remove p => exact relinks_remove hq hok
  | popFront => exact relinks_popFront hq

/-! ## Any number of calls -/

theorem relinks_callAll (hq : IsQueue u.orders u.level this l)
    (hok : LevelCall.AllowedAll l calls) :
    Relinks this calls l (LevelCall.onListAll l calls) u (u.callAll this calls) := by
  induction calls generalizing u l with
  | nil => exact Relinks.refl hq
  | cons c calls ih =>
      have hstep := relinks_call hq hok.1
      exact hstep.trans (ih hstep.queue hok.2)

/-- The level is a queue: after any allowed sequence of calls, on a level that held the
orders `l` (none, if it is new), both chains of the level spell the list that the calls leave
of `l`, and every order of it points back at the level; an order that was in the level and
is no longer has null links; no other order has changed; and `pop_front` hands out the first
order of the list and leaves the others. -/
theorem level_is_queue (this : LevelPtr) (u : LevelUse) (l : List OrderPtr)
    (calls : List LevelCall) (hq : IsQueue u.orders u.level this l)
    (hok : LevelCall.AllowedAll l calls) :
    let after := u.callAll this calls
    let left := LevelCall.onListAll l calls
    IsQueue after.orders after.level this left ∧
      (∀ p, p ∈ l ∨ .pushBack p ∈ calls → p ∉ left → (after.orders p).Unlinked) ∧
      (∀ p, p ∉ l → .pushBack p ∉ calls → after.orders p = u.orders p) ∧
      (after.level.popFront after.orders).1 = left.head? ∧
      IsQueue (after.level.popFront after.orders).2.1 (after.level.popFront after.orders).2.2
        this left.tail := by
  intro after left
  have hrun := relinks_callAll hq hok
  refine ⟨hrun.queue, hrun.gone, hrun.other, ?_, (relinks_popFront hrun.queue).queue⟩
  rw [popFront_eq hrun.queue]

/-- Four orders are pushed; one leaves from the middle, one from the back and one from the
front, and the one from the middle comes back. -/
def fourOrders : List LevelCall :=
  [.pushBack 1, .pushBack 2, .pushBack 3, .pushBack 4, .remove 2, .remove 4, .popFront,
    .pushBack 2]

/-- On a new level the four orders leave the third and then the second. -/
theorem level_is_queue_four_orders :
    let this : LevelPtr := ⟨.buy, ⟨7, by decide⟩⟩
    let after := (LevelUse.mk (fun _ => default) {}).callAll this fourOrders
    LevelCall.AllowedAll [] fourOrders ∧
      IsQueue after.orders after.level this [3, 2] ∧
      (after.orders 1).Unlinked ∧ (after.orders 4).Unlinked ∧
      (after.level.popFront after.orders).1 = some 3 := by
  intro this after
  have hok : LevelCall.AllowedAll [] fourOrders := by decide
  obtain ⟨hqueue, hgone, _, hpop, _⟩ := level_is_queue this ⟨fun _ => default, {}⟩ [] fourOrders
    (IsQueue.empty this) hok
  refine ⟨hok, hqueue, hgone 1 (Or.inr ?_) ?_, hgone 4 (Or.inr ?_) ?_, hpop⟩ <;> decide

end LevelUse

end OpenHft
