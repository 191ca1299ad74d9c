import OpenHft.Model.SpscRing

/-!
# A thread that watches the queue

`SPSCRingBuffer::size()` called by a thread that is neither the producer nor the consumer:
it loads `head_`, then `tail_`, and the others may take turns in between. It writes nothing.
For each call that has returned `Watched` keeps the queue as it was when `head_` was loaded
and the turns of the others up to the load of `tail_`, which no code reads.
-/

namespace OpenHft

open SPSCRingBuffer

/-- Where the observer stands in `size`. -/
inductive Observer (Capacity : Nat) where
  | idle
  | loadHead
  | loadTail (head : Fin Capacity)

/-- A call of `size` that has returned. -/
structure SizeCall (T : Type) (Capacity : Nat) where
  /-- the queue when `head_` was loaded -/
  start : System T Capacity
  /-- the turns between the two loads -/
  turns : List (Turn T)
  result : Nat

/-- The queue with a third thread that calls `size`. -/
structure Watched (T : Type) (Capacity : Nat) where
  queue : System T Capacity
  observer : Observer Capacity
  /-- of the running call, as in `SizeCall` -/
  start : System T Capacity
  turns : List (Turn T)
  sizes : List (SizeCall T Capacity)

/-- A turn of the producer or the consumer, or of the observer. -/
inductive WatchedTurn (T : Type) where
  | queue (turn : Turn T)
  | observer

section Watched

variable {T : Type} {Capacity : Nat}

/-- One access of `size`. The last component is what the call returns, if it returns now. -/
def observerStep (r : SPSCRingBuffer T Capacity) :
    Observer Capacity → Observer Capacity × Option Nat
  | .idle => (.loadHead, none)
  | .loadHead => (.loadTail r.head, none)
  | .loadTail head => (.idle, some (distance head r.tail))

namespace Watched

/-- A new queue, and no call of `size`. -/
def init (h : 1 < Capacity) (buffer : Fin Capacity → T) : Watched T Capacity where
  queue := .init h buffer
  observer := .idle
  start := .init h buffer
  turns := []
  sizes := []

/-- One access of the thread whose turn it is. -/
def step (w : Watched T Capacity) : WatchedTurn T → Watched T Capacity
  | .queue turn => { w with queue := w.queue.step turn, turns := w.turns ++ [turn] }
  | .observer =>
      match observerStep w.queue.ring w.observer with
      | (observer, none) => { w with observer := observer, start := w.queue, turns := [] }
      | (observer, some result) =>
          { w with
            observer := observer
            sizes := w.sizes ++ [⟨w.start, w.turns, result⟩] }

/-- Turns in any order. -/
def run (w : Watched T Capacity) (turns : List (WatchedTurn T)) : Watched T Capacity :=
  turns.foldl step w

end Watched

end Watched

end OpenHft
