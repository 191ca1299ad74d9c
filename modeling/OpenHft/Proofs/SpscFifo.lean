import Mathlib.Data.List.Infix
import OpenHft.Lib.Cyclic
import OpenHft.Model.SpscRing

/-!
# The ring buffer is a bounded queue

Count the stores of `head_` and of `tail_`: after `P` and `K` of them the indexes
are `P` and `K` modulo the capacity, and `K ≤ P < K + Capacity`. The values
published so far are a list of length `P`, those taken a prefix of length `K`, and
the values in between stand in their slots.

A thread's own index is exact, the other's may be stale. A stale `tail_` is an
earlier `K`, which makes the producer see the queue fuller than it is; a stale
`head_` an earlier `P`, which makes the consumer see it emptier. Both err on the
safe side, and `ProducerOk` and `ConsumerOk` say so phase by phase.
-/

namespace OpenHft

open OpenHft.Lib SPSCRingBuffer

variable {T : Type} {Capacity : Nat}

/-! ## The moves of the two threads -/

/-- Every access of `tryPush`. -/
inductive ProducerMove (next : T) (r : SPSCRingBuffer T Capacity) :
    Producer T Capacity → SPSCRingBuffer T Capacity → Producer T Capacity →
      Option Bool → Prop
  | call : ProducerMove next r .idle r (.loadHead next) none
  | loadHead (value : T) :
      ProducerMove next r (.loadHead value) r (.loadTail value r.head) none
  | loadTail (value : T) (head : Fin Capacity) :
      ProducerMove next r (.loadTail value head) r (.check value head r.tail) none
  | fail (value : T) (head tail : Fin Capacity) (h : increment head = tail) :
      ProducerMove next r (.check value head tail)
        { r with metrics := { r.metrics with
            pushFailures := r.metrics.pushFailures + 1 } } .idle (some false)
  | write (value : T) (head tail : Fin Capacity) (h : increment head ≠ tail) :
      ProducerMove next r (.check value head tail)
        { r with buffer := Function.update r.buffer head value }
        (.storeHead value head tail) none
  | storeHead (value : T) (head tail : Fin Capacity) :
      ProducerMove next r (.storeHead value head tail)
        { r with head := increment head } (.countPush value head tail) none
  | countPush (value : T) (head tail : Fin Capacity) :
      ProducerMove next r (.countPush value head tail)
        { r with metrics := { r.metrics with pushCount := r.metrics.pushCount + 1 } }
        (.loadHighWaterMark value head tail) none
  | loadHighWaterMark (value : T) (head tail : Fin Capacity) :
      ProducerMove next r (.loadHighWaterMark value head tail) r
        (.storeHighWaterMark value (distance (increment head) tail)
          r.metrics.highWaterMark) none
  | succeed (value : T) (currentSize previousHigh highWaterMark : Nat) :
      ProducerMove next r (.storeHighWaterMark value currentSize previousHigh)
        { r with metrics := { r.metrics with highWaterMark := highWaterMark } }
        .idle (some true)

theorem producerStep_move (next : T) (r : SPSCRingBuffer T Capacity)
    (p : Producer T Capacity) :
    ProducerMove next r p (producerStep next r p).1 (producerStep next r p).2.1
      (producerStep next r p).2.2 := by
  cases p with
  | idle => exact .call
  | loadHead value => exact .loadHead value
  | loadTail value head => exact .loadTail value head
  | check value head tail =>
      by_cases h : increment head = tail
      · rw [producerStep, if_pos h]
        exact .fail value head tail h
      · rw [producerStep, if_neg h]
        exact .write value head tail h
  | storeHead value head tail => exact .storeHead value head tail
  | countPush value head tail => exact .countPush value head tail
  | loadHighWaterMark value head tail => exact .loadHighWaterMark value head tail
  | storeHighWaterMark value currentSize previousHigh =>
      by_cases h : currentSize > previousHigh
      · rw [producerStep, if_pos h]
        exact .succeed value currentSize previousHigh currentSize
      · rw [producerStep, if_neg h]
        exact .succeed value currentSize previousHigh r.metrics.highWaterMark

/-- Every access of `tryPop`. -/
inductive ConsumerMove (r : SPSCRingBuffer T Capacity) :
    Consumer T Capacity → SPSCRingBuffer T Capacity → Consumer T Capacity →
      Option (Option T) → Prop
  | call : ConsumerMove r .idle r .loadTail none
  | loadTail : ConsumerMove r .loadTail r (.loadHead r.tail) none
  | loadHead (tail : Fin Capacity) :
      ConsumerMove r (.loadHead tail) r (.check tail r.head) none
  | fail (tail head : Fin Capacity) (h : tail = head) :
      ConsumerMove r (.check tail head)
        { r with metrics := { r.metrics with
            popFailures := r.metrics.popFailures + 1 } } .idle (some none)
  | read (tail head : Fin Capacity) (h : tail ≠ head) :
      ConsumerMove r (.check tail head) r (.storeTail tail (r.buffer tail)) none
  | storeTail (tail : Fin Capacity) (value : T) :
      ConsumerMove r (.storeTail tail value) { r with tail := increment tail }
        (.countPop value) none
  | succeed (value : T) :
      ConsumerMove r (.countPop value)
        { r with metrics := { r.metrics with popCount := r.metrics.popCount + 1 } }
        .idle (some (some value))

theorem consumerStep_move (r : SPSCRingBuffer T Capacity) (c : Consumer T Capacity) :
    ConsumerMove r c (consumerStep r c).1 (consumerStep r c).2.1
      (consumerStep r c).2.2 := by
  cases c with
  | idle => exact .call
  | loadTail => exact .loadTail
  | loadHead tail => exact .loadHead tail
  | check tail head =>
      by_cases h : tail = head
      · rw [consumerStep, if_pos h]
        exact .fail tail head h
      · rw [consumerStep, if_neg h]
        exact .read tail head h
  | storeTail tail value => exact .storeTail tail value
  | countPop value => exact .succeed value

/-! ## What the moves keep -/

section Moves

variable {r r' : SPSCRingBuffer T Capacity} {published taken : List T}
  {p p' : Producer T Capacity} {c c' : Consumer T Capacity} {next : T}

/-- The memory is a window of the published values, from the first that is not
taken. -/
structure Window (r : SPSCRingBuffer T Capacity) (published taken : List T) : Prop where
  head : r.head.val = published.length % Capacity
  tail : r.tail.val = taken.length % Capacity
  order : taken <+: published
  room : published.length < taken.length + Capacity
  stored : ∀ k, taken.length ≤ k → k < published.length → ∀ i : Fin Capacity,
    i.val = k % Capacity → published[k]? = some (r.buffer i)

theorem Window.congr (h : Window r published taken) (hs : SameMemory r r') :
    Window r' published taken := by
  obtain ⟨hhead, htail, hbuffer⟩ := hs
  refine ⟨by rw [hhead]; exact h.head, by rw [htail]; exact h.tail, h.order, h.room, ?_⟩
  rw [hbuffer]
  exact h.stored

/-- What the producer knows, after `P` values were published and `K` taken. The
`tail` it has loaded is that of an earlier moment. -/
def ProducerOk (buffer : Fin Capacity → T) (P K : Nat) : Producer T Capacity → Prop
  | .loadTail _ head => head.val = P % Capacity
  | .check _ head tail => head.val = P % Capacity ∧
      ∃ K' ≤ K, P < K' + Capacity ∧ tail.val = K' % Capacity
  | .storeHead value head _ => head.val = P % Capacity ∧ P + 1 < K + Capacity ∧
      buffer head = value
  | _ => True

/-- What the consumer knows. The `head` it has loaded is that of an earlier
moment. -/
def ConsumerOk (published : List T) (K : Nat) : Consumer T Capacity → Prop
  | .loadHead tail => tail.val = K % Capacity
  | .check tail head => tail.val = K % Capacity ∧
      ∃ P' ≤ published.length, K ≤ P' ∧ head.val = P' % Capacity
  | .storeTail tail value => tail.val = K % Capacity ∧ published[K]? = some value
  | _ => True

/-- What the producer knows stays true when more is taken. -/
theorem ProducerOk.mono {buffer : Fin Capacity → T} {P K K' : Nat} (hle : K ≤ K')
    (h : ProducerOk buffer P K p) : ProducerOk buffer P K' p := by
  cases p with
  | check value head tail =>
      obtain ⟨hhead, K₀, hK₀, hrest⟩ := h
      exact ⟨hhead, K₀, Nat.le_trans hK₀ hle, hrest⟩
  | storeHead value head tail =>
      obtain ⟨hhead, hroom, hslot⟩ := h
      exact ⟨hhead, by omega, hslot⟩
  | _ => exact h

/-- What the consumer knows stays true when more is published. -/
theorem ConsumerOk.mono {K : Nat} (more : List T) (h : ConsumerOk published K c) :
    ConsumerOk (published ++ more) K c := by
  cases c with
  | check tail head =>
      obtain ⟨htail, P', hP', hrest⟩ := h
      refine ⟨htail, P', ?_, hrest⟩
      rw [List.length_append]
      omega
  | storeTail tail value =>
      obtain ⟨htail, hvalue⟩ := h
      refine ⟨htail, ?_⟩
      obtain ⟨hlt, _⟩ := List.getElem?_eq_some_iff.mp hvalue
      rw [List.getElem?_append_left hlt]
      exact hvalue
  | _ => exact h

/-- The value a phase is about to publish. -/
def Producer.publishes : Producer T Capacity → List T
  | .storeHead value _ _ => [value]
  | _ => []

/-- The value whose slot a phase is about to give back. -/
def Consumer.takes : Consumer T Capacity → List T
  | .storeTail _ value => [value]
  | _ => []

theorem increment_val {index : Fin Capacity} {k : Nat} (h : index.val = k % Capacity) :
    (increment index).val = (k + 1) % Capacity := by
  show (index.val + 1) % Capacity = _
  rw [h, Nat.mod_add_mod]

/-- The slot the producer writes holds none of the values in the window. -/
theorem Window.slot_free (h : Window r published taken) {head : Fin Capacity}
    (hhead : head.val = published.length % Capacity) {k : Nat} (hk : taken.length ≤ k)
    (hlt : k < published.length) {i : Fin Capacity} (hi : i.val = k % Capacity) :
    i ≠ head := by
  intro heq
  have hroom := h.room
  have hmod : k % Capacity = published.length % Capacity := by
    rw [← hi, heq, hhead]
  have := mod_inj_of_window (Nat.le_of_lt hlt) (by omega) hmod
  omega

/-- A check that passes leaves room for one more. -/
theorem room_of_ne {head tail : Fin Capacity} {P K K' : Nat}
    (hhead : head.val = P % Capacity) (hK : K' ≤ K) (hroom : P < K' + Capacity)
    (htail : tail.val = K' % Capacity) (hne : increment head ≠ tail) :
    P + 1 < K + Capacity := by
  have hdiff : P + 1 ≠ K' + Capacity := by
    intro heq
    refine hne (Fin.ext ?_)
    rw [increment_val hhead, heq, Nat.add_mod_right, htail]
  omega

theorem ProducerMove.keeps {ret : Option Bool} (hm : ProducerMove next r p r' p' ret)
    (hw : Window r published taken)
    (hp : ProducerOk r.buffer published.length taken.length p) :
    Window r' (published ++ p.publishes) taken ∧
      ProducerOk r'.buffer (published ++ p.publishes).length taken.length p' := by
  cases hm with
  | call =>
      simp only [Producer.publishes, List.append_nil]
      exact ⟨hw, trivial⟩
  | loadHead value =>
      simp only [Producer.publishes, List.append_nil]
      exact ⟨hw, hw.head⟩
  | loadTail value head =>
      simp only [Producer.publishes, List.append_nil]
      exact ⟨hw, hp, taken.length, Nat.le_refl _, hw.room, hw.tail⟩
  | fail value head tail h =>
      simp only [Producer.publishes, List.append_nil]
      exact ⟨hw.congr ⟨rfl, rfl, rfl⟩, trivial⟩
  | write value head tail h =>
      simp only [Producer.publishes, List.append_nil]
      obtain ⟨hhead, K', hK', hroom, htail⟩ := hp
      refine ⟨⟨hw.head, hw.tail, hw.order, hw.room, fun k hk hlt i hi => ?_⟩, hhead,
        room_of_ne hhead hK' hroom htail h, Function.update_self head value r.buffer⟩
      show published[k]? = some (Function.update r.buffer head value i)
      rw [Function.update_of_ne (hw.slot_free hhead hk hlt hi)]
      exact hw.stored k hk hlt i hi
  | storeHead value head tail =>
      obtain ⟨hhead, hroom, hslot⟩ := hp
      refine ⟨⟨?_, hw.tail, hw.order.trans (List.prefix_append _ _), ?_, ?_⟩, trivial⟩
      · rw [List.length_append]
        exact increment_val hhead
      · rw [List.length_append]
        exact hroom
      · intro k hk hlt i hi
        rw [List.length_append] at hlt
        rcases Nat.lt_or_ge k published.length with hk' | hk'
        · show (published ++ [value])[k]? = some (r.buffer i)
          rw [List.getElem?_append_left hk']
          exact hw.stored k hk hk' i hi
        · have hkP : k = published.length := Nat.le_antisymm (Nat.le_of_lt_succ hlt) hk'
          have hih : i = head := Fin.ext (by rw [hi, hkP, hhead])
          show (published ++ [value])[k]? = some (r.buffer i)
          rw [hkP, hih, hslot, List.getElem?_concat_length]
  | countPush value head tail =>
      simp only [Producer.publishes, List.append_nil]
      exact ⟨hw.congr ⟨rfl, rfl, rfl⟩, trivial⟩
  | loadHighWaterMark value head tail =>
      simp only [Producer.publishes, List.append_nil]
      exact ⟨hw, trivial⟩
  | succeed value currentSize previousHigh highWaterMark =>
      simp only [Producer.publishes, List.append_nil]
      exact ⟨hw.congr ⟨rfl, rfl, rfl⟩, trivial⟩

/-- A prefix grows by the next element. -/
theorem prefix_concat {l l' : List T} {x : T} (h : l <+: l') (hx : l'[l.length]? = some x) :
    l ++ [x] <+: l' := by
  obtain ⟨rest, rfl⟩ := h
  rw [List.getElem?_append_right (Nat.le_refl _), Nat.sub_self] at hx
  obtain ⟨rest, rfl⟩ : ∃ tail, rest = x :: tail := by
    cases rest with
    | nil => cases hx
    | cons y tail =>
        cases hx
        exact ⟨tail, rfl⟩
  exact ⟨rest, by rw [List.append_assoc]; rfl⟩

theorem ConsumerMove.buffer {ret : Option (Option T)} (hm : ConsumerMove r c r' c' ret) :
    r'.buffer = r.buffer := by
  cases hm <;> rfl

theorem ConsumerMove.keeps {ret : Option (Option T)} (hm : ConsumerMove r c r' c' ret)
    (hw : Window r published taken) (hc : ConsumerOk published taken.length c) :
    Window r' published (taken ++ c.takes) ∧
      ConsumerOk published (taken ++ c.takes).length c' := by
  cases hm with
  | call =>
      simp only [Consumer.takes, List.append_nil]
      exact ⟨hw, trivial⟩
  | loadTail =>
      simp only [Consumer.takes, List.append_nil]
      exact ⟨hw, hw.tail⟩
  | loadHead tail =>
      simp only [Consumer.takes, List.append_nil]
      exact ⟨hw, hc, published.length, Nat.le_refl _, hw.order.length_le, hw.head⟩
  | fail tail head h =>
      simp only [Consumer.takes, List.append_nil]
      exact ⟨hw.congr ⟨rfl, rfl, rfl⟩, trivial⟩
  | read tail head h =>
      simp only [Consumer.takes, List.append_nil]
      obtain ⟨htail, P', hP', hle, hhead⟩ := hc
      have hne : taken.length ≠ P' := fun heq =>
        h (Fin.ext (by rw [htail, heq, hhead]))
      exact ⟨hw, htail, hw.stored taken.length (Nat.le_refl _) (by omega) tail htail⟩
  | storeTail tail value =>
      obtain ⟨htail, hvalue⟩ := hc
      have hroom := hw.room
      refine ⟨⟨hw.head, ?_, prefix_concat hw.order hvalue, ?_, ?_⟩, trivial⟩
      · rw [List.length_append]
        exact increment_val htail
      · rw [List.length_append]
        omega
      · intro k hk hlt i hi
        rw [List.length_append] at hk
        exact hw.stored k (by omega) hlt i hi
  | succeed value =>
      simp only [Consumer.takes, List.append_nil]
      exact ⟨hw.congr ⟨rfl, rfl, rfl⟩, trivial⟩

/-- The producer has not written anything yet in its running call. -/
def Producer.quiet : Producer T Capacity → Prop
  | .idle | .loadHead _ | .loadTail _ _ | .check _ _ _ => True
  | _ => False

/-- The consumer has not written anything yet in its running call. -/
def Consumer.quiet : Consumer T Capacity → Prop
  | .countPop _ => False
  | _ => True

/-- A call of `tryPush` that returns `false`, or has not written yet, has left
the memory alone so far, and so does its last access. -/
theorem ProducerMove.quiet {ret : Option Bool} (hm : ProducerMove next r p r' p' ret)
    (h : p'.quiet) (hret : ret ≠ some true) : p.quiet ∧ SameMemory r r' := by
  cases hm with
  | call => exact ⟨trivial, rfl, rfl, rfl⟩
  | loadHead value => exact ⟨trivial, rfl, rfl, rfl⟩
  | loadTail value head => exact ⟨trivial, rfl, rfl, rfl⟩
  | fail value head tail _ => exact ⟨trivial, rfl, rfl, rfl⟩
  | succeed value _ _ _ => exact absurd rfl hret
  | write value head tail _ => exact h.elim
  | storeHead value head tail => exact h.elim
  | countPush value head tail => exact h.elim
  | loadHighWaterMark value head tail => exact h.elim

/-- A call that returns leaves an idle producer, and one that succeeds had a
value. -/
theorem ProducerMove.returns {result : Bool}
    (hm : ProducerMove next r p r' p' (some result)) :
    p'.quiet ∧ (result = true → p.value ≠ none) := by
  cases hm with
  | fail value head tail _ => exact ⟨trivial, fun h => Bool.noConfusion h⟩
  | succeed value _ _ _ => exact ⟨trivial, fun _ => Option.some_ne_none value⟩

theorem ConsumerMove.returns {result : Option T}
    (hm : ConsumerMove r c r' c' (some result)) : c'.quiet := by
  cases hm <;> trivial

theorem ConsumerMove.quiet {ret : Option (Option T)} (hm : ConsumerMove r c r' c' ret)
    (h : c'.quiet) (hret : ∀ value, ret ≠ some (some value)) :
    c.quiet ∧ SameMemory r r' := by
  cases hm with
  | call => exact ⟨trivial, rfl, rfl, rfl⟩
  | loadTail => exact ⟨trivial, rfl, rfl, rfl⟩
  | loadHead tail => exact ⟨trivial, rfl, rfl, rfl⟩
  | fail tail head _ => exact ⟨trivial, rfl, rfl, rfl⟩
  | read tail head _ => exact ⟨trivial, rfl, rfl, rfl⟩
  | storeTail tail value => exact h.elim
  | succeed value => exact absurd rfl (hret value)

end Moves

/-! ## What has been published and taken -/

/-- The value of a `tryPush` that has stored `head_` and has yet to return
`true`. -/
def Producer.inFlight : Producer T Capacity → List T
  | .countPush value _ _ | .loadHighWaterMark value _ _
  | .storeHighWaterMark value _ _ => [value]
  | _ => []

/-- The value of a `tryPop` that has stored `tail_` and has yet to return
`true`. -/
def Consumer.inFlight : Consumer T Capacity → List T
  | .countPop value => [value]
  | _ => []

namespace System

/-- The values given to successful calls of `tryPush`, in order. -/
def published (s : System T Capacity) : List T :=
  s.pushes.filterMap Returned.result ++ s.producer.inFlight

/-- The values successful calls of `tryPop` have returned, in order. -/
def returned (s : System T Capacity) : List T := s.pops.filterMap Returned.result

/-- The values whose slot has been given back. -/
def taken (s : System T Capacity) : List T := s.returned ++ s.consumer.inFlight

/-- The slot that the next access of the producer writes. -/
def writesSlot (s : System T Capacity) : Turn T → Option (Fin Capacity)
  | .producer _ =>
      match s.producer with
      | .check _ head tail => if increment head = tail then none else some head
      | _ => none
  | .consumer => none

/-- A turn of the producer is one of its moves. -/
theorem step_producer (s : System T Capacity) (next : T) :
    ∃ r p ret, ProducerMove next s.ring s.producer r p ret ∧
      s.step (.producer next) = s.afterPush (r, p, ret) :=
  ⟨_, _, _, producerStep_move next s.ring s.producer, rfl⟩

theorem step_consumer (s : System T Capacity) :
    ∃ r c ret, ConsumerMove s.ring s.consumer r c ret ∧
      s.step .consumer = s.afterPop (r, c, ret) :=
  ⟨_, _, _, consumerStep_move s.ring s.consumer, rfl⟩

variable {s : System T Capacity} {r : SPSCRingBuffer T Capacity}
  {p : Producer T Capacity} {c : Consumer T Capacity} {next : T}

theorem published_afterPush {ret : Option Bool}
    (hm : ProducerMove next s.ring s.producer r p ret) :
    (s.afterPush (r, p, ret)).published = s.published ++ s.producer.publishes := by
  generalize hp : s.producer = phase at hm
  cases hm <;>
    simp [published, afterPush, hp, Producer.inFlight, Producer.publishes, Producer.value]

theorem taken_afterPop {ret : Option (Option T)}
    (hm : ConsumerMove s.ring s.consumer r c ret) :
    (s.afterPop (r, c, ret)).taken = s.taken ++ s.consumer.takes := by
  generalize hc : s.consumer = phase at hm
  cases hm <;>
    simp [taken, returned, afterPop, hc, Consumer.inFlight, Consumer.takes]

/-! ## The invariant -/

/-- The slots between the indexes hold what was published and not taken, and either thread's
locals fit. -/
structure Inv (s : System T Capacity) : Prop where
  window : Window s.ring s.published s.taken
  producer : ProducerOk s.ring.buffer s.published.length s.taken.length s.producer
  consumer : ConsumerOk s.published s.taken.length s.consumer

theorem inv_init (h : 1 < Capacity) (buffer : Fin Capacity → T) :
    Inv (System.init h buffer) where
  window := ⟨(Nat.zero_mod _).symm, (Nat.zero_mod _).symm, List.prefix_refl _,
    by show 0 < 0 + Capacity; omega, fun k _ hk => absurd hk (Nat.not_lt_zero k)⟩
  producer := trivial
  consumer := trivial

theorem Inv.afterPush (h : Inv s) {ret : Option Bool}
    (hm : ProducerMove next s.ring s.producer r p ret) : Inv (s.afterPush (r, p, ret)) := by
  obtain ⟨hwindow, hproducer⟩ := hm.keeps h.window h.producer
  refine ⟨?_, ?_, ?_⟩
  · rw [published_afterPush hm]
    exact hwindow
  · rw [published_afterPush hm]
    exact hproducer
  · rw [published_afterPush hm]
    exact h.consumer.mono _

theorem Inv.afterPop (h : Inv s) {ret : Option (Option T)}
    (hm : ConsumerMove s.ring s.consumer r c ret) : Inv (s.afterPop (r, c, ret)) := by
  obtain ⟨hwindow, hconsumer⟩ := hm.keeps h.window h.consumer
  refine ⟨?_, ?_, ?_⟩
  · rw [taken_afterPop hm]
    exact hwindow
  · rw [taken_afterPop hm]
    show ProducerOk r.buffer _ _ _
    rw [hm.buffer]
    refine h.producer.mono ?_
    rw [List.length_append]
    omega
  · rw [taken_afterPop hm]
    exact hconsumer

theorem Inv.step (h : Inv s) (turn : Turn T) : Inv (s.step turn) := by
  cases turn with
  | producer next => exact h.afterPush (producerStep_move next s.ring s.producer)
  | consumer => exact h.afterPop (consumerStep_move s.ring s.consumer)

theorem Inv.run (h : Inv s) (turns : List (Turn T)) : Inv (s.run turns) := by
  induction turns generalizing s with
  | nil => exact h
  | cons turn turns ih => exact ih (h.step turn)

/-- The slot about to be written is the one after the published values. -/
theorem Inv.writesSlot (h : Inv s) {turn : Turn T} {i : Fin Capacity}
    (hw : s.writesSlot turn = some i) : i.val = s.published.length % Capacity := by
  cases turn with
  | consumer => cases hw
  | producer next =>
      have hproducer := h.producer
      cases hp : s.producer with
      | check value head tail =>
          rw [hp] at hproducer
          simp only [System.writesSlot, hp] at hw
          split at hw
          · cases hw
          · cases hw
            exact hproducer.1
      | _ => simp [System.writesSlot, hp] at hw

/-- No other slot changes. -/
theorem step_buffer {turn : Turn T} {i : Fin Capacity} (hw : s.writesSlot turn ≠ some i) :
    (s.step turn).ring.buffer i = s.ring.buffer i := by
  cases turn with
  | consumer =>
      obtain ⟨r, c, ret, hm, hstep⟩ := s.step_consumer
      rw [hstep]
      exact congrFun hm.buffer i
  | producer next =>
      obtain ⟨r, p, ret, hm, hstep⟩ := s.step_producer next
      rw [hstep]
      show r.buffer i = s.ring.buffer i
      generalize hp : s.producer = phase at hm
      cases hm with
      | write value head tail hne =>
          simp only [System.writesSlot, hp, if_neg hne] at hw
          exact Function.update_of_ne (fun heq => hw (by rw [heq])) _ _
      | _ => rfl

/-! ## Failed calls -/

/-- A running call that has not written has changed nothing, and neither has any
call that failed. -/
structure Quiet (s : System T Capacity) : Prop where
  producer : s.producer.quiet → ¬ s.pushWrote
  consumer : s.consumer.quiet → ¬ s.popWrote
  pushes : ∀ call ∈ s.pushes, call.result = none → ¬ call.wrote
  pops : ∀ call ∈ s.pops, call.result = none → ¬ call.wrote

theorem quiet_init (h : 1 < Capacity) (buffer : Fin Capacity → T) :
    Quiet (System.init h buffer) where
  producer := fun _ => id
  consumer := fun _ => id
  pushes := fun _ hc => absurd hc List.not_mem_nil
  pops := fun _ hc => absurd hc List.not_mem_nil

theorem Quiet.push (h : Quiet s) (next : T) : Quiet (s.step (.producer next)) := by
  obtain ⟨r, p, ret, hm, hstep⟩ := s.step_producer next
  have hwrote : p.quiet → ret ≠ some true → ¬ (s.pushWrote ∨ ¬ SameMemory s.ring r) := by
    intro hp hret
    obtain ⟨hquiet, hsame⟩ := hm.quiet hp hret
    exact not_or.mpr ⟨h.producer hquiet, not_not.mpr hsame⟩
  rw [hstep]
  cases ret with
  | none =>
      exact ⟨fun hp => hwrote hp (Option.some_ne_none true).symm, h.consumer, h.pushes,
        h.pops⟩
  | some result =>
      obtain ⟨hidle, hvalue⟩ := hm.returns
      cases result with
      | true =>
          refine ⟨fun _ => id, h.consumer, fun call hcall hnone => ?_, h.pops⟩
          rcases List.mem_append.mp hcall with hcall | hcall
          · exact h.pushes call hcall hnone
          · rw [List.mem_singleton.mp hcall] at hnone
            exact absurd hnone (hvalue rfl)
      | false =>
          refine ⟨fun _ => id, h.consumer, fun call hcall hnone => ?_, h.pops⟩
          rcases List.mem_append.mp hcall with hcall | hcall
          · exact h.pushes call hcall hnone
          · rw [List.mem_singleton.mp hcall]
            exact hwrote hidle (by simp)

theorem Quiet.pop (h : Quiet s) : Quiet (s.step .consumer) := by
  obtain ⟨r, c, ret, hm, hstep⟩ := s.step_consumer
  have hwrote : c.quiet → (∀ value, ret ≠ some (some value)) →
      ¬ (s.popWrote ∨ ¬ SameMemory s.ring r) := by
    intro hc hret
    obtain ⟨hquiet, hsame⟩ := hm.quiet hc hret
    exact not_or.mpr ⟨h.consumer hquiet, not_not.mpr hsame⟩
  rw [hstep]
  cases ret with
  | none => exact ⟨h.producer, fun hc => hwrote hc (by simp), h.pushes, h.pops⟩
  | some result =>
      refine ⟨h.producer, fun _ => id, h.pushes, fun call hcall hnone => ?_⟩
      rcases List.mem_append.mp hcall with hcall | hcall
      · exact h.pops call hcall hnone
      · rw [List.mem_singleton.mp hcall] at hnone ⊢
        have hresult : result = none := hnone
        exact hwrote hm.returns (by simp [hresult])

theorem Quiet.run (h : Quiet s) (turns : List (Turn T)) : Quiet (s.run turns) := by
  induction turns generalizing s with
  | nil => exact h
  | cons turn turns ih =>
      cases turn with
      | producer next => exact ih (h.push next)
      | consumer => exact ih h.pop

end System

/-! ## The queue -/

/-- The published values not yet taken. -/
def System.unread (s : System T Capacity) : List T := s.published.drop s.taken.length

/-- The slot has the published value of this number, and it is not yet taken. -/
def System.HoldsUnread (s : System T Capacity) (i : Fin Capacity) (k : Nat) : Prop :=
  s.taken.length ≤ k ∧ k < s.published.length ∧ i.val = k % Capacity ∧
    s.published[k]? = some (s.ring.buffer i)

/-- First in, first out, in every interleaving: what successful calls of `tryPop`
return is a prefix of what successful calls of `tryPush` were given; every unread
value is in its slot, and no slot that has one is written; there are at most
`Capacity - 1` of them; and a call that fails changes no index and no slot. -/
theorem spsc_fifo (h : 1 < Capacity) (buffer : Fin Capacity → T)
    (turns : List (Turn T)) :
    let s := (System.init h buffer).run turns
    s.returned <+: s.published ∧
      (∀ k, s.taken.length ≤ k → k < s.published.length →
        ∃ i, s.HoldsUnread i k) ∧
      (∀ i k, s.HoldsUnread i k → ∀ turn, s.writesSlot turn ≠ some i ∧
        (s.step turn).ring.buffer i = s.ring.buffer i) ∧
      s.unread.length ≤ Capacity - 1 ∧
      (∀ call ∈ s.pushes, call.result = none → ¬ call.wrote) ∧
      ∀ call ∈ s.pops, call.result = none → ¬ call.wrote := by
  intro s
  have hinv : s.Inv := (System.inv_init h buffer).run turns
  have hquiet : s.Quiet := (System.quiet_init h buffer).run turns
  have hroom := hinv.window.room
  refine ⟨(List.prefix_append _ _).trans hinv.window.order, fun k hk hlt => ?_, ?_, ?_,
    hquiet.pushes, hquiet.pops⟩
  · exact ⟨⟨k % Capacity, Nat.mod_lt _ (by omega)⟩, hk, hlt, rfl,
      hinv.window.stored k hk hlt _ rfl⟩
  · intro i k hunread turn
    have hfree : s.writesSlot turn ≠ some i := fun hwrites =>
      hinv.window.slot_free (hinv.writesSlot hwrites) hunread.1 hunread.2.1 hunread.2.2.1 rfl
    exact ⟨hfree, System.step_buffer hfree⟩
  · rw [System.unread, List.length_drop]
    omega

/-- Two slots: the second push finds the queue full, and the value of the first
comes out. -/
theorem spsc_fifo_two_slots :
    ∃ s : System Nat 2, s = (System.init (by decide) fun _ => 0).run
        (List.replicate 8 (.producer 7) ++ List.replicate 4 (.producer 8) ++
          List.replicate 6 .consumer) ∧
      s.pushes.map Returned.result = [some 7, none] ∧ s.returned = [7] ∧
      s.returned <+: s.published ∧ s.unread.length ≤ 1 := by
  obtain ⟨hfifo, _, _, hbound, _, _⟩ := spsc_fifo (by decide : 1 < 2)
    (fun _ => (0 : Nat)) (List.replicate 8 (.producer 7) ++ List.replicate 4 (.producer 8) ++
      List.replicate 6 .consumer)
  exact ⟨_, rfl, by decide, by decide, hfifo, hbound⟩

end OpenHft
