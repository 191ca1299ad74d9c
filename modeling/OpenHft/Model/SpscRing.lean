import Mathlib.Algebra.Ring.Int.Defs
import Mathlib.Algebra.Ring.Nat
import Mathlib.Data.Fin.Basic

/-!
# `SPSCRingBuffer`, step by step

The queue of `common/spsc_ring_buffer.hpp` with its one producer and its one
consumer. The shared memory is `SPSCRingBuffer`; a thread is where it stands in
`tryPush` or `tryPop`, with the values it has loaded so far. One turn of a thread
is one access to the shared memory: a load or a store of `head_` or `tail_`, a
read or a write of a slot, an update of a counter. Between two turns of one
thread the other may take any number of its own; acquire and release are taken to
give all of them one order.

The queue's own code is `producerStep` and `consumerStep`. `System.step` runs one
of them and keeps a record of the calls that have returned, which no code reads.
-/

namespace OpenHft

/-- The counters. They are atomic, but no two threads write the same one. -/
structure SPSCQueueMetrics where
  pushCount : UInt64 := 0
  popCount : UInt64 := 0
  pushFailures : UInt64 := 0
  popFailures : UInt64 := 0
  highWaterMark : Nat := 0

/-- The shared memory of the two threads. -/
structure SPSCRingBuffer (T : Type) (Capacity : Nat) where
  head : Fin Capacity
  tail : Fin Capacity
  buffer : Fin Capacity → T
  metrics : SPSCQueueMetrics

namespace SPSCRingBuffer

variable {T : Type} {Capacity : Nat}

/-- A new queue; nothing is said about what the slots hold. -/
def init (h : 1 < Capacity) (buffer : Fin Capacity → T) : SPSCRingBuffer T Capacity where
  head := ⟨0, by omega⟩
  tail := ⟨0, by omega⟩
  buffer := buffer
  metrics := {}

/-- The index behind, round the end of the buffer. -/
def increment (index : Fin Capacity) : Fin Capacity :=
  ⟨(index.val + 1) % Capacity, Nat.mod_lt _ index.pos⟩

/-- The depth `tryPush` computes from the indexes it has at hand; `size` computes
it in the same way. -/
def distance (head tail : Fin Capacity) : Nat :=
  if head.val ≥ tail.val then head.val - tail.val else Capacity - tail.val + head.val

/-- `size()` when nobody else moves. -/
def size (r : SPSCRingBuffer T Capacity) : Nat := distance r.head r.tail

/-- The same indexes and the same slots, whatever the counters say. -/
def SameMemory (r r' : SPSCRingBuffer T Capacity) : Prop :=
  r'.head = r.head ∧ r'.tail = r.tail ∧ r'.buffer = r.buffer

end SPSCRingBuffer

open SPSCRingBuffer

/-- Where the producer stands: each phase is named after its next access. -/
inductive Producer (T : Type) (Capacity : Nat) where
  | idle
  | loadHead (value : T)
  | loadTail (value : T) (head : Fin Capacity)
  /-- both indexes are loaded: the call fails, or writes its slot -/
  | check (value : T) (head tail : Fin Capacity)
  | storeHead (value : T) (head tail : Fin Capacity)
  | countPush (value : T) (head tail : Fin Capacity)
  | loadHighWaterMark (value : T) (head tail : Fin Capacity)
  | storeHighWaterMark (value : T) (currentSize previousHigh : Nat)

/-- Where the consumer stands. -/
inductive Consumer (T : Type) (Capacity : Nat) where
  | idle
  | loadTail
  | loadHead (tail : Fin Capacity)
  /-- both indexes are loaded: the call fails, or reads its slot -/
  | check (tail head : Fin Capacity)
  | storeTail (tail : Fin Capacity) (value : T)
  | countPop (value : T)

section Steps

variable {T : Type} {Capacity : Nat}

/-- One access of `tryPush`; an idle producer calls it with `next`. The last
component is what the call returns, if it returns now. -/
def producerStep (next : T) (r : SPSCRingBuffer T Capacity) :
    Producer T Capacity →
      SPSCRingBuffer T Capacity × Producer T Capacity × Option Bool
  | .idle => (r, .loadHead next, none)
  | .loadHead value => (r, .loadTail value r.head, none)
  | .loadTail value head => (r, .check value head r.tail, none)
  | .check value head tail =>
      if increment head = tail then
        ({ r with metrics := { r.metrics with
            pushFailures := r.metrics.pushFailures + 1 } }, .idle, some false)
      else
        ({ r with buffer := Function.update r.buffer head value },
          .storeHead value head tail, none)
  | .storeHead value head tail =>
      ({ r with head := increment head }, .countPush value head tail, none)
  | .countPush value head tail =>
      ({ r with metrics := { r.metrics with pushCount := r.metrics.pushCount + 1 } },
        .loadHighWaterMark value head tail, none)
  | .loadHighWaterMark value head tail =>
      (r, .storeHighWaterMark value (distance (increment head) tail)
        r.metrics.highWaterMark, none)
  | .storeHighWaterMark _ currentSize previousHigh =>
      (if currentSize > previousHigh then
        { r with metrics := { r.metrics with highWaterMark := currentSize } }
        else r, .idle, some true)

/-- One access of `tryPop`. The last component is what the call returns, if it
returns now: `none` for `false`, the value for `true`. -/
def consumerStep (r : SPSCRingBuffer T Capacity) :
    Consumer T Capacity →
      SPSCRingBuffer T Capacity × Consumer T Capacity × Option (Option T)
  | .idle => (r, .loadTail, none)
  | .loadTail => (r, .loadHead r.tail, none)
  | .loadHead tail => (r, .check tail r.head, none)
  | .check tail head =>
      if tail = head then
        ({ r with metrics := { r.metrics with
            popFailures := r.metrics.popFailures + 1 } }, .idle, some none)
      else (r, .storeTail tail (r.buffer tail), none)
  | .storeTail tail value => ({ r with tail := increment tail }, .countPop value, none)
  | .countPop value =>
      ({ r with metrics := { r.metrics with popCount := r.metrics.popCount + 1 } },
        .idle, some (some value))

end Steps

/-- One turn of the interleaving. An idle producer pushes the value it is given. -/
inductive Turn (T : Type) where
  | producer (next : T)
  | consumer

/-- A call that has returned: what it returned, and whether one of its accesses
changed an index or a slot. -/
structure Returned (α : Type) where
  result : α
  wrote : Prop

/-- The queue with its two threads and the record of their calls. -/
structure System (T : Type) (Capacity : Nat) where
  ring : SPSCRingBuffer T Capacity
  producer : Producer T Capacity
  consumer : Consumer T Capacity
  /-- the calls of `tryPush` that have returned, with the value of those that
  returned `true` -/
  pushes : List (Returned (Option T))
  /-- the calls of `tryPop` that have returned, with the value of those that
  returned `true` -/
  pops : List (Returned (Option T))
  /-- the running call of `tryPush` has changed an index or a slot -/
  pushWrote : Prop
  /-- the running call of `tryPop` has changed an index or a slot -/
  popWrote : Prop

section System

variable {T : Type} {Capacity : Nat}

/-- The value of the running `tryPush`. -/
def Producer.value : Producer T Capacity → Option T
  | .idle => none
  | .loadHead value | .loadTail value _ | .check value _ _ | .storeHead value _ _
  | .countPush value _ _ | .loadHighWaterMark value _ _
  | .storeHighWaterMark value _ _ => some value

/-- Both threads are idle. -/
def System.init (h : 1 < Capacity) (buffer : Fin Capacity → T) : System T Capacity where
  ring := .init h buffer
  producer := .idle
  consumer := .idle
  pushes := []
  pops := []
  pushWrote := False
  popWrote := False

/-- The system after an access of the producer, given what `producerStep`
says. -/
def System.afterPush (s : System T Capacity)
    (out : SPSCRingBuffer T Capacity × Producer T Capacity × Option Bool) :
    System T Capacity :=
  let wrote := s.pushWrote ∨ ¬ SameMemory s.ring out.1
  { s with
    ring := out.1
    producer := out.2.1
    pushes := match out.2.2 with
      | none => s.pushes
      | some true => s.pushes ++ [⟨s.producer.value, wrote⟩]
      | some false => s.pushes ++ [⟨none, wrote⟩]
    pushWrote := match out.2.2 with
      | none => wrote
      | some _ => False }

/-- The system after an access of the consumer, given what `consumerStep`
says. -/
def System.afterPop (s : System T Capacity)
    (out : SPSCRingBuffer T Capacity × Consumer T Capacity × Option (Option T)) :
    System T Capacity :=
  let wrote := s.popWrote ∨ ¬ SameMemory s.ring out.1
  { s with
    ring := out.1
    consumer := out.2.1
    pops := match out.2.2 with
      | none => s.pops
      | some result => s.pops ++ [⟨result, wrote⟩]
    popWrote := match out.2.2 with
      | none => wrote
      | some _ => False }

/-- One access of the thread whose turn it is. -/
def System.step (s : System T Capacity) : Turn T → System T Capacity
  | .producer next => s.afterPush (producerStep next s.ring s.producer)
  | .consumer => s.afterPop (consumerStep s.ring s.consumer)

/-- Turns in any order. -/
def System.run (s : System T Capacity) (turns : List (Turn T)) : System T Capacity :=
  turns.foldl step s

end System

end OpenHft
