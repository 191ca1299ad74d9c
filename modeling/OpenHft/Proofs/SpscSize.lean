import OpenHft.Model.SpscObserver
import OpenHft.Proofs.SpscMetrics

/-!
# What an observer of the queue sees

`size` loads `head_` and then `tail_`. If at some moment between the two loads `head_` had
still the value that was loaded and `tail_` already the value that will be, the result is the
depth of that moment. There is no such moment if a push comes before a pop; the result is
then a depth that the queue has not had. It is below all of them if the tail stays behind the
loaded head, and if the tail passes it, the wrap-around branch makes a nearly empty queue
look nearly full.
-/

namespace OpenHft

open SPSCRingBuffer

variable {T : Type} {Capacity : Nat}

namespace System

variable {s : System T Capacity}

theorem published_step (s : System T Capacity) (turn : Turn T) :
    s.published <+: (s.step turn).published := by
  cases turn with
  | producer next =>
      rw [published_push]
      exact List.prefix_append _ _
  | consumer => exact List.prefix_rfl

theorem taken_step (s : System T Capacity) (turn : Turn T) :
    s.taken <+: (s.step turn).taken := by
  cases turn with
  | producer next => exact List.prefix_rfl
  | consumer =>
      rw [taken_pop]
      exact List.prefix_append _ _

/-- Nothing is taken back. -/
theorem grows_run (s : System T Capacity) (turns : List (Turn T)) :
    s.published <+: (s.run turns).published ∧ s.taken <+: (s.run turns).taken := by
  induction turns generalizing s with
  | nil => exact ⟨List.prefix_rfl, List.prefix_rfl⟩
  | cons turn turns ih =>
      obtain ⟨hpublished, htaken⟩ := ih (s.step turn)
      exact ⟨(published_step s turn).trans hpublished, (taken_step s turn).trans htaken⟩

theorem run_append (s : System T Capacity) (turns turns' : List (Turn T)) :
    s.run (turns ++ turns') = (s.run turns).run turns' := List.foldl_append

end System

namespace SizeCall

variable {call : SizeCall T Capacity}

/-- Something was so at a moment between the two loads. -/
def AtSomeMoment (call : SizeCall T Capacity) (prop : System T Capacity → Prop) : Prop :=
  ∃ front, front <+: call.turns ∧ prop (call.start.run front)

/-- The result lies between depths that the queue had between the two loads. -/
def RealSize (call : SizeCall T Capacity) : Prop :=
  call.AtSomeMoment (fun s => s.depth ≤ call.result) ∧
    call.AtSomeMoment (fun s => call.result ≤ s.depth)

/-- At some moment nothing had been published since `head_` was loaded, and nothing more was
taken before `tail_` was. -/
def Settled (call : SizeCall T Capacity) : Prop :=
  call.AtSomeMoment fun s => s.published.length = call.start.published.length ∧
    s.taken.length = (call.start.run call.turns).taken.length

/-- The loaded tail has not passed the loaded head. -/
def TailBehind (call : SizeCall T Capacity) : Prop :=
  (call.start.run call.turns).taken.length ≤ call.start.published.length

/-- What the two loads read. -/
structure Loaded (call : SizeCall T Capacity) : Prop where
  inv : call.start.Inv
  result : call.result =
    distance call.start.ring.head (call.start.run call.turns).ring.tail

theorem Loaded.result_eq (h : call.Loaded) (hbehind : call.TailBehind) :
    call.result =
      call.start.published.length - (call.start.run call.turns).taken.length := by
  have hroom := h.inv.window.room
  have hgrows := (call.start.grows_run call.turns).2.length_le
  rw [h.result]
  exact distance_eq h.inv.window.head (h.inv.run call.turns).window.tail hbehind (by omega)

theorem Loaded.settled_iff (h : call.Loaded) :
    call.Settled ↔ call.TailBehind ∧ call.RealSize := by
  constructor
  · rintro ⟨front, hfront, hpublished, htaken⟩
    have horder := (h.inv.run front).window.order.length_le
    have hbehind : call.TailBehind := by
      rw [TailBehind, ← htaken, ← hpublished]
      exact horder
    have hdepth : (call.start.run front).depth = call.result := by
      rw [h.result_eq hbehind, System.depth_eq, hpublished, htaken]
    exact ⟨hbehind, ⟨front, hfront, Nat.le_of_eq hdepth⟩, front, hfront,
      Nat.le_of_eq hdepth.symm⟩
  · rintro ⟨hbehind, ⟨front, hfront, hle⟩, -⟩
    refine ⟨front, hfront, ?_⟩
    have hpublished := (call.start.grows_run front).1.length_le
    have htaken : (call.start.run front).taken.length ≤
        (call.start.run call.turns).taken.length := by
      obtain ⟨back, hback⟩ := hfront
      rw [← hback, System.run_append]
      exact ((call.start.run front).grows_run back).2.length_le
    rw [h.result_eq hbehind, System.depth_eq] at hle
    rw [TailBehind] at hbehind
    omega

end SizeCall

namespace Watched

variable {w : Watched T Capacity}

/-- What the observer knows. -/
def ObserverOk (w : Watched T Capacity) : Observer Capacity → Prop
  | .loadTail head => head = w.start.ring.head ∧ w.start.Inv ∧ w.queue = w.start.run w.turns
  | _ => True

/-- What holds between any two accesses of the three threads. -/
structure Inv (w : Watched T Capacity) : Prop where
  queue : w.queue.Inv
  observer : w.ObserverOk w.observer
  sizes : ∀ call ∈ w.sizes, call.Loaded

theorem inv_init (h : 1 < Capacity) (buffer : Fin Capacity → T) :
    Inv (Watched.init h buffer) :=
  ⟨System.inv_init h buffer, trivial, fun _ hcall => absurd hcall List.not_mem_nil⟩

theorem Inv.step (h : Inv w) (turn : WatchedTurn T) : Inv (w.step turn) := by
  cases turn with
  | queue turn =>
      refine ⟨h.queue.step turn, ?_, h.sizes⟩
      have hobserver := h.observer
      show ObserverOk _ w.observer
      cases hw : w.observer with
      | loadTail head =>
          rw [hw] at hobserver
          obtain ⟨hhead, hinv, hqueue⟩ := hobserver
          refine ⟨hhead, hinv, ?_⟩
          show w.queue.step turn = w.start.run (w.turns ++ [turn])
          rw [System.run_concat, ← hqueue]
      | _ => trivial
  | observer =>
      have hobserver := h.observer
      rw [Watched.step]
      cases hw : w.observer with
      | idle => exact ⟨h.queue, trivial, h.sizes⟩
      | loadHead => exact ⟨h.queue, ⟨rfl, h.queue, rfl⟩, h.sizes⟩
      | loadTail head =>
          rw [hw] at hobserver
          obtain ⟨hhead, hinv, hqueue⟩ := hobserver
          refine ⟨h.queue, trivial, fun call hcall => ?_⟩
          rcases List.mem_append.mp hcall with hcall | hcall
          · exact h.sizes call hcall
          · rw [List.mem_singleton.mp hcall]
            refine ⟨hinv, ?_⟩
            show distance head w.queue.ring.tail = _
            rw [hhead, hqueue]

theorem Inv.run (h : Inv w) (turns : List (WatchedTurn T)) : Inv (w.run turns) := by
  induction turns generalizing w with
  | nil => exact h
  | cons turn turns ih => exact ih (h.step turn)

end Watched

/-- In every interleaving, a call of `size` for which there was a moment as in `Settled`
returns a real size. Of the calls whose tail has not passed their head, no others do. -/
theorem observed_size (h : 1 < Capacity) (buffer : Fin Capacity → T)
    (turns : List (WatchedTurn T)) :
    ∀ call ∈ ((Watched.init h buffer).run turns).sizes,
      (call.Settled → call.RealSize) ∧ (call.TailBehind → call.RealSize → call.Settled) := by
  intro call hcall
  have hiff := (((Watched.inv_init h buffer).run turns).sizes call hcall).settled_iff
  exact ⟨fun hsettled => (hiff.mp hsettled).2, fun hbehind hreal => hiff.mpr ⟨hbehind, hreal⟩⟩

/-- Two values are pushed, and between the two loads one of them is taken. -/
theorem observed_size_one_taken :
    ∃ call, ((Watched.init (by decide : 1 < 3) fun _ => (0 : Nat)).run
        (List.replicate 16 (.queue (.producer 7)) ++ List.replicate 2 .observer ++
          List.replicate 6 (.queue .consumer) ++ [.observer])).sizes = [call] ∧
      call.start.depth = 2 ∧ call.result = 1 ∧ call.RealSize := by
  have hsizes := observed_size (by decide : 1 < 3) (fun _ => (0 : Nat))
    (List.replicate 16 (.queue (.producer 7)) ++ List.replicate 2 .observer ++
      List.replicate 6 (.queue .consumer) ++ [.observer])
  exact ⟨_, rfl, rfl, rfl, (hsizes _ List.mem_cons_self).1
    ⟨List.replicate 6 .consumer, List.prefix_rfl, rfl, rfl⟩⟩

/-- A queue of 1024 slots in which there has never been more than one value: between the two
loads one is pushed and popped, and 1023 are reported. -/
theorem nearly_empty_looks_full :
    ∃ call, ((Watched.init (by decide : 1 < 1024) fun _ => (0 : Nat)).run
        (List.replicate 2 .observer ++ List.replicate 8 (.queue (.producer 7)) ++
          List.replicate 6 (.queue .consumer) ++ [.observer])).sizes = [call] ∧
      call.result = 1023 ∧ (∀ front, front <+: call.turns → (call.start.run front).depth ≤ 1) ∧
      ¬ call.RealSize := by
  have hdepth : ∀ front : List (Turn Nat), front <+: List.replicate 8 (.producer 7) ++
      List.replicate 6 .consumer →
      ((System.init (by decide : 1 < 1024) fun _ => (0 : Nat)).run front).depth ≤ 1 := by
    intro front hfront
    have hall : ∀ front ∈ (List.replicate 8 (Turn.producer 7) ++
        List.replicate 6 Turn.consumer).inits,
        ((System.init (by decide : 1 < 1024) fun _ => (0 : Nat)).run front).depth ≤ 1 := by
      decide +kernel
    exact hall front ((List.mem_inits _ _).mpr hfront)
  refine ⟨_, rfl, rfl, hdepth, fun ⟨_, front, hfront, hle⟩ => ?_⟩
  exact absurd (Nat.le_trans hle (hdepth front hfront)) (by decide)

end OpenHft
