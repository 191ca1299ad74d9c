import OpenHft.Lib.Chain
import OpenHft.Model.OrderBook

/-!
# The intrusive queue of a price level

`IsQueue` ties a level to the list its head and tail spell through the order
memory. The two operations of `PriceLevel` that change a queue are stated
three times over, once for each reader: what they do to the links (which is
all the list lemmas of `Lib.Chain` ask), what they leave alone everywhere
else, and what they do to the queue itself.

The order's own data never changes here. `remove` reads the cell's links again
after it has written through one of them, so its equations need the cell not
to be its own neighbour; a duplicate-free queue gives that.
-/

namespace OpenHft

open OpenHft.Lib

/-- The links forward. -/
abbrev Heap.next (h : Heap) : OrderPtr → Option OrderPtr := fun q => (h q).next

/-- The links back. -/
abbrev Heap.prev (h : Heap) : OrderPtr → Option OrderPtr := fun q => (h q).prev

/-- The queue of a level: both chains spell the list, and every order in it
points back at the level. -/
structure IsQueue (h : Heap) (lvl : PriceLevel) (this : LevelPtr)
    (l : List OrderPtr) : Prop where
  dll : Dll h.next h.prev lvl.head lvl.tail l
  level : ∀ p ∈ l, (h p).level = some this

namespace IsQueue

variable {h h' : Heap} {lvl lvl' : PriceLevel} {this : LevelPtr}
  {l : List OrderPtr}

theorem empty (this : LevelPtr) : IsQueue h {} this [] :=
  ⟨Dll.empty, fun _ hp => absurd hp (List.not_mem_nil)⟩

theorem empty_iff (hq : IsQueue h lvl this l) : lvl.empty = true ↔ l = [] := by
  rw [PriceLevel.empty, Option.isNone_iff_eq_none]
  exact hq.dll.head_eq_none_iff

theorem front_eq (hq : IsQueue h lvl this l) : lvl.front = l.head? :=
  hq.dll.head_eq

theorem unique {l' : List OrderPtr} (hq : IsQueue h lvl this l)
    (hq' : IsQueue h lvl this l') : l = l' := hq.dll.unique hq'.dll

/-- A queue only reads the links of its own orders and the two ends. -/
theorem congr (hq : IsQueue h lvl this l) (hhead : lvl'.head = lvl.head)
    (htail : lvl'.tail = lvl.tail)
    (heq : ∀ p ∈ l, (h' p).next = (h p).next ∧ (h' p).prev = (h p).prev ∧
      (h' p).level = (h p).level) : IsQueue h' lvl' this l := by
  refine ⟨?_, fun p hp => ?_⟩
  · rw [hhead, htail]
    exact hq.dll.congr (fun p hp => (heq p hp).1) fun p hp => (heq p hp).2.1
  · rw [(heq p hp).2.2]
    exact hq.level p hp

/-- No order of a queue is its own neighbour. -/
theorem not_self (hq : IsQueue h lvl this l) {p : OrderPtr} (hp : p ∈ l) :
    (h p).prev ≠ some p ∧ (h p).next ≠ some p := by
  obtain ⟨xs, ys, rfl⟩ := List.append_of_mem hp
  obtain ⟨hprev, hnext⟩ := hq.dll.links_at
  obtain ⟨_, hpys, hdisj⟩ := List.nodup_append.mp hq.dll.nodup
  refine ⟨fun e => ?_, fun e => ?_⟩
  · have hmem := List.mem_of_getLast? (hprev.symm.trans e)
    exact hdisj p hmem p (by simp) rfl
  · have hmem := List.mem_of_head? (hnext.symm.trans e)
    exact (List.nodup_cons.mp hpys).1 hmem

/-- The neighbours of an order of a queue are in the queue. -/
theorem neighbour_mem (hq : IsQueue h lvl this l) {p q : OrderPtr} (hp : p ∈ l)
    (hn : (h p).prev = some q ∨ (h p).next = some q) : q ∈ l := by
  obtain ⟨xs, ys, rfl⟩ := List.append_of_mem hp
  obtain ⟨hprev, hnext⟩ := hq.dll.links_at
  rcases hn with e | e
  · have := List.mem_of_getLast? (hprev.symm.trans e)
    simp [this]
  · have := List.mem_of_head? (hnext.symm.trans e)
    simp [this]

end IsQueue

namespace PriceLevel

/-! ## `push_back` -/

section PushBack

variable (this : LevelPtr) (lvl : PriceLevel) (h : Heap) (p q : OrderPtr)

theorem pushBack_heap :
    (lvl.pushBack this h p).1 q =
      { h q with
        level := if q = p then some this else (h q).level
        prev := if q = p then lvl.tail else (h q).prev
        next :=
          if lvl.tail = some q then some p
          else if q = p then none else (h q).next } := by
  unfold pushBack
  cases htail : lvl.tail with
  | none => by_cases hq : q = p <;> simp [Heap.modify_apply, hq]
  | some t =>
      by_cases hq : q = p <;> by_cases ht : q = t
      · subst hq; subst ht; simp
      · subst hq; simp [Heap.modify_apply, ht, Ne.symm ht]
      · subst ht; simp [Heap.modify_apply, hq]
      · simp [Heap.modify_apply, hq, ht, Ne.symm ht]

theorem pushBack_data : ((lvl.pushBack this h p).1 q).data = (h q).data := by
  rw [pushBack_heap]
  rfl

theorem pushBack_level :
    ((lvl.pushBack this h p).1 q).level =
      if q = p then some this else (h q).level := by
  rw [pushBack_heap]

@[simp] theorem pushBack_tail : (lvl.pushBack this h p).2.tail = some p := by
  unfold pushBack
  rfl

theorem pushBack_head :
    (lvl.pushBack this h p).2.head =
      Chain.redirectStart lvl.head lvl.tail (some p) := by
  unfold pushBack
  cases lvl.tail <;> rfl

theorem pushBack_totalQuantity :
    (lvl.pushBack this h p).2.totalQuantity =
      lvl.totalQuantity + (h p).quantity := by
  have hdata := congrArg OrderData.quantity (pushBack_data this lvl h p p)
  exact congrArg (lvl.totalQuantity + ·) hdata

end PushBack

variable {h : Heap} {lvl : PriceLevel} {this : LevelPtr} {l : List OrderPtr}
  {p : OrderPtr}

theorem pushBack_queue (hq : IsQueue h lvl this l) (hp : p ∉ l) :
    IsQueue (lvl.pushBack this h p).1 (lvl.pushBack this h p).2 this
      (l ++ [p]) := by
  have htail : lvl.tail ≠ some p := fun e =>
    hp (List.mem_of_getLast? (hq.dll.tail_eq.symm.trans e))
  have hne : ∀ q ∈ l, q ≠ p := fun q hq e => hp (by rw [← e]; exact hq)
  refine ⟨?_, fun q hmem => ?_⟩
  · rw [pushBack_head, pushBack_tail]
    refine hq.dll.pushBack hp ?_ ?_ ?_ ?_
    · show ((lvl.pushBack this h p).1 p).next = none
      rw [pushBack_heap]
      simp [htail]
    · show ((lvl.pushBack this h p).1 p).prev = lvl.tail
      rw [pushBack_heap]
      simp
    · intro q hmem
      show ((lvl.pushBack this h p).1 q).next = _
      rw [pushBack_heap]
      by_cases ht : lvl.tail = some q
      · simp [ht, Chain.redirectLink]
      · rw [Chain.redirectLink_of_ne ht]
        simp [ht, hne q hmem]
    · intro q hmem
      show ((lvl.pushBack this h p).1 q).prev = _
      rw [pushBack_heap]
      simp [hne q hmem]
  · rw [pushBack_level]
    rcases List.mem_append.mp hmem with hmem | hmem
    · rw [if_neg (hne q hmem)]
      exact hq.level q hmem
    · rw [if_pos (List.mem_singleton.mp hmem)]

/-- An order outside the queue is not written to, unless it is the one that is
pushed. -/
theorem pushBack_other (hq : IsQueue h lvl this l) {q : OrderPtr} (hmem : q ∉ l)
    (hne : q ≠ p) : (lvl.pushBack this h p).1 q = h q := by
  have ht : lvl.tail ≠ some q := fun e =>
    hmem (List.mem_of_getLast? (hq.dll.tail_eq.symm.trans e))
  rw [pushBack_heap]
  simp [hne, ht]

/-- A queue that shares no order with the level is not affected. -/
theorem pushBack_frame {lvl' : PriceLevel} {this' : LevelPtr}
    {l' : List OrderPtr} (hq : IsQueue h lvl this l)
    (hq' : IsQueue h lvl' this' l') (hp : p ∉ l') (hdisj : ∀ q ∈ l, q ∉ l') :
    IsQueue (lvl.pushBack this h p).1 lvl' this' l' := by
  refine hq'.congr rfl rfl fun q hmem => ?_
  have hne : q ≠ p := fun e => hp (by rw [← e]; exact hmem)
  rw [pushBack_other hq (fun hl => hdisj q hl hmem) hne]
  exact ⟨rfl, rfl, rfl⟩

/-! ## `remove` -/

/-- A write to the `next` field behind a pointer that may be null. -/
def setNext (h : Heap) (target value : Option OrderPtr) : Heap :=
  match target with
  | some q => h.modify q fun o => { o with next := value }
  | none => h

/-- A write to the `prev` field behind a pointer that may be null. -/
def setPrev (h : Heap) (target value : Option OrderPtr) : Heap :=
  match target with
  | some q => h.modify q fun o => { o with prev := value }
  | none => h

theorem setNext_apply (h : Heap) (target value : Option OrderPtr)
    (q : OrderPtr) :
    setNext h target value q =
      { h q with next := Chain.redirectLink h.next target value q } := by
  cases target with
  | none => rfl
  | some t =>
      by_cases hq : q = t
      · subst hq
        simp [setNext, Chain.redirectLink]
      · simp [setNext, Chain.redirectLink, Heap.modify_of_ne _ _ hq, hq]

theorem setPrev_apply (h : Heap) (target value : Option OrderPtr)
    (q : OrderPtr) :
    setPrev h target value q =
      { h q with prev := Chain.redirectLink h.prev target value q } := by
  cases target with
  | none => rfl
  | some t =>
      by_cases hq : q = t
      · subst hq
        simp [setPrev, Chain.redirectLink]
      · simp [setPrev, Chain.redirectLink, Heap.modify_of_ne _ _ hq, hq]

theorem unlinkFromPrev_eq (head : Option OrderPtr) (h : Heap) (p : OrderPtr) :
    unlinkFromPrev head h p =
      (setNext h (h p).prev (h p).next,
        Chain.redirectStart head (h p).prev (h p).next) := by
  rw [unlinkFromPrev]
  cases (h p).prev <;> rfl

theorem unlinkFromNext_eq (tail : Option OrderPtr) (h : Heap) (p : OrderPtr) :
    unlinkFromNext tail h p =
      (setPrev h (h p).next (h p).prev,
        Chain.redirectStart tail (h p).next (h p).prev) := by
  rw [unlinkFromNext]
  cases (h p).next <;> rfl

/-- `remove`, with the two null tests as redirections. -/
theorem remove_eq (hpp : (h p).prev ≠ some p) :
    lvl.remove h (some p) =
      ((setPrev (setNext h (h p).prev (h p).next) (h p).next (h p).prev).modify p
          fun o => { o with level := none, prev := none, next := none },
        { lvl with
          head := Chain.redirectStart lvl.head (h p).prev (h p).next
          tail := Chain.redirectStart lvl.tail (h p).next (h p).prev
          totalQuantity := lvl.totalQuantity - (h p).quantity }) := by
  have hstep : setNext h (h p).prev (h p).next p = h p := by
    rw [setNext_apply, Chain.redirectLink_of_ne hpp]
  have hquant : ∀ q, (setPrev (setNext h (h p).prev (h p).next) (h p).next
      (h p).prev q).quantity = (h q).quantity := by
    intro q
    rw [setPrev_apply, setNext_apply]
  simp only [remove, unlinkFromPrev_eq, unlinkFromNext_eq, hstep, hquant]

section Remove

variable (q : OrderPtr) (hpp : (h p).prev ≠ some p)

include hpp

theorem remove_heap :
    (lvl.remove h (some p)).1 q =
      { h q with
        level := if q = p then none else (h q).level
        prev :=
          if q = p then none else Chain.redirectLink h.prev (h p).next (h p).prev q
        next :=
          if q = p then none
          else Chain.redirectLink h.next (h p).prev (h p).next q } := by
  simp only [remove_eq hpp, Heap.modify_apply, setPrev_apply, setNext_apply]
  have hprev : (setNext h (h p).prev (h p).next).prev = h.prev :=
    funext fun r => by
      show (setNext h (h p).prev (h p).next r).prev = _
      rw [setNext_apply]
  rw [hprev]
  by_cases hq : q = p
  · simp [hq]
  · simp [hq]

theorem remove_data : ((lvl.remove h (some p)).1 q).data = (h q).data := by
  rw [remove_heap q hpp]
  rfl

theorem remove_level :
    ((lvl.remove h (some p)).1 q).level =
      if q = p then none else (h q).level := by
  rw [remove_heap q hpp]

end Remove

theorem remove_queue {xs ys : List OrderPtr}
    (hq : IsQueue h lvl this (xs ++ p :: ys)) :
    IsQueue (lvl.remove h (some p)).1 (lvl.remove h (some p)).2 this
      (xs ++ ys) := by
  have hpp := (hq.not_self (p := p) (by simp)).1
  have hp : p ∉ xs ++ ys := by
    have hnd := List.nodup_middle.mp hq.dll.nodup
    exact (List.nodup_cons.mp hnd).1
  have hne : ∀ q ∈ xs ++ ys, q ≠ p := fun q hq e => hp (by rw [← e]; exact hq)
  refine ⟨?_, fun q hmem => ?_⟩
  · rw [show (lvl.remove h (some p)).2.head =
        Chain.redirectStart lvl.head (h p).prev (h p).next by rw [remove_eq hpp],
      show (lvl.remove h (some p)).2.tail =
        Chain.redirectStart lvl.tail (h p).next (h p).prev by rw [remove_eq hpp]]
    refine hq.dll.remove (fun q hmem => ?_) (fun q hmem => ?_)
    · show ((lvl.remove h (some p)).1 q).next = _
      simp only [remove_heap q hpp, if_neg (hne q hmem)]
    · show ((lvl.remove h (some p)).1 q).prev = _
      simp only [remove_heap q hpp, if_neg (hne q hmem)]
  · rw [remove_level q hpp, if_neg (hne q hmem)]
    exact hq.level q (by
      rcases List.mem_append.mp hmem with hm | hm
      · simp [hm]
      · simp [hm])

/-- An order outside the queue is not written to. -/
theorem remove_other (hq : IsQueue h lvl this l) (hp : p ∈ l) {q : OrderPtr}
    (hmem : q ∉ l) : (lvl.remove h (some p)).1 q = h q := by
  have hne : q ≠ p := fun e => hmem (by rw [e]; exact hp)
  have hprev : (h p).prev ≠ some q := fun e =>
    hmem (hq.neighbour_mem hp (Or.inl e))
  have hnext : (h p).next ≠ some q := fun e =>
    hmem (hq.neighbour_mem hp (Or.inr e))
  rw [remove_heap q (hq.not_self hp).1]
  simp only [if_neg hne, Chain.redirectLink_of_ne hprev,
    Chain.redirectLink_of_ne hnext]

/-- A queue that shares no order with the level is not affected. -/
theorem remove_frame {lvl' : PriceLevel} {this' : LevelPtr}
    {l' : List OrderPtr} (hq : IsQueue h lvl this l) (hp : p ∈ l)
    (hq' : IsQueue h lvl' this' l') (hdisj : ∀ q ∈ l, q ∉ l') :
    IsQueue (lvl.remove h (some p)).1 lvl' this' l' := by
  refine hq'.congr rfl rfl fun q hmem => ?_
  rw [remove_other hq hp fun hl => hdisj q hl hmem]
  exact ⟨rfl, rfl, rfl⟩

end PriceLevel

end OpenHft
