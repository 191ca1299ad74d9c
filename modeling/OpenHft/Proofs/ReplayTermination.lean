import Mathlib.Data.Prod.Lex
import OpenHft.Lib.Fairness
import OpenHft.Proofs.PipelineWork
import OpenHft.Proofs.TradingRuns

/-!
# A replay comes to its end

The main thread waits twice: for the counter, in a loop, and for the worker, in `join`. So no
measure comes down with every turn. What comes down is the way that the main thread has to go,
and, while it waits, the way of the worker to the counter or to its end; and the thread that is
waited for is the one that helps. By the rule for fair schedules the replay then comes to its
end whenever both threads have a turn again and again, whatever the file is.
-/

namespace OpenHft

open Lib

/-! ## The main thread -/

/-- The turns of a `tryPush` to its end. -/
def Producer.toReturn {T : Type} {Capacity : Nat} : Producer T Capacity → Nat
  | .idle => 9
  | .loadHead _ => 8
  | .loadTail _ _ => 7
  | .check _ _ _ => 6
  | .storeHead _ _ _ => 5
  | .countPush _ _ _ => 4
  | .loadHighWaterMark _ _ _ => 3
  | .storeHighWaterMark _ _ _ => 2

/-- The turns of a call of `start` to its end. -/
def Control.toStarted : Control → Nat
  | .idle => 4
  | .exchangeTrue => 3
  | .resetCount => 2
  | .createWorker => 1
  | _ => 0

/-- The turns of a call of `stop` to its end. -/
def Control.toStopped : Control → Nat
  | .idle => 3
  | .exchangeFalse => 2
  | .join => 1
  | _ => 0

/-- The turns of a call of `processedCount` to its end. -/
def Control.toCount : Control → Nat
  | .idle => 2
  | .loadCount => 1
  | _ => 0

section Push

variable {T : Type} {Capacity : Nat} {next : T} {r r' : SPSCRingBuffer T Capacity}
  {q q' : Producer T Capacity}

theorem ProducerMove.toReturn_lt (hm : ProducerMove next r q r' q' none) :
    q'.toReturn < q.toReturn := by
  cases hm <;> simp only [Producer.toReturn] <;> omega

theorem Producer.toReturn_pos (q : Producer T Capacity) : 0 < q.toReturn := by
  cases q <;> simp only [toReturn] <;> omega

theorem Producer.toReturn_le (q : Producer T Capacity) : q.toReturn ≤ 9 := by
  cases q <;> simp only [toReturn] <;> omega

end Push

namespace TradingRuntime

open MarketDataPipeline

variable {s s' : TradingRuntime}

/-- Where the two stand when `main` is in a phase. -/
def Place (p : MarketDataPipeline) : ReplayPhase → Prop
  | .start => p.queue.published = [] ∧ (p.running = false ∧
      (p.control = .idle ∨ p.control = .exchangeTrue) ∨
        p.control = .resetCount ∨ p.control = .createWorker)
  | .readNext => p.running = true ∧ p.control = .idle
  | .submit event => p.running = true ∧ p.Pushes (.submit event) event
  | .wait => p.running = true ∧ (p.control = .idle ∨ p.control = .loadCount)
  | .stop => p.running = true ∧ (p.control = .idle ∨ p.control = .exchangeFalse) ∨
      p.control = .join
  | .complete => p.worker = none ∧ p.consumed = p.queue.published ∧ p.control = .idle

/-- What a replay keeps, for the way it has to go. -/
structure Standing (s : TradingRuntime) : Prop where
  inv : s.pipeline.Inv
  place : Place s.pipeline s.phase
  producer : (∀ event, s.pipeline.control ≠ .tryPush event) → s.pipeline.queue.producer = .idle
  sessionStart : s.pipeline.sessionStart = 0
  replayed : s.replayedMessages =
    UInt64.ofNat (s.pipeline.queue.pushes.filterMap Returned.result).length

theorem standing_init (buffer : Fin QueueCapacity → MarketDataEvent) (file : List UInt8) :
    Standing (init buffer file) where
  inv := inv_init buffer
  place := ⟨rfl, .inl ⟨rfl, .inl rfl⟩⟩
  producer := fun _ => rfl
  sessionStart := rfl
  replayed := rfl

/-- Every turn of the main thread. -/
inductive MainMove (s : TradingRuntime) : TradingRuntime → Prop
  | start (hphase : s.phase = .start) (hc : s.pipeline.control = .idle) :
      MainMove s { s with pipeline := { s.pipeline with control := .exchangeTrue } }
  | begin (hphase : s.phase = .start) (hc : s.pipeline.control = .exchangeTrue) :
      MainMove s { s with pipeline := { s.pipeline with
        running := true
        control := .resetCount
        sessionStart := s.pipeline.consumed.length } }
  | resetCount (hphase : s.phase = .start) (hc : s.pipeline.control = .resetCount) :
      MainMove s { s with pipeline := { s.pipeline with
        processedCount := 0
        control := .createWorker } }
  | createWorker (hphase : s.phase = .start) (hc : s.pipeline.control = .createWorker) :
      MainMove s { s with
        pipeline := { s.pipeline with worker := some .loadRunning, control := .idle }
        phase := .readNext }
  | read (hphase : s.phase = .readNext) (message : List UInt8) (reader : ItchReplayReader)
      (hread : s.reader.readNext = (some message, reader)) (phase : ReplayPhase)
      (hnext : phase = .readNext ∨ ∃ event, phase = .submit event) :
      MainMove s { s with reader := reader, phase := phase }
  | readAll (hphase : s.phase = .readNext) (reader : ItchReplayReader) :
      MainMove s { s with reader := reader, phase := .wait }
  | push (event : MarketDataEvent) (hphase : s.phase = .submit event)
      (r : SPSCRingBuffer MarketDataEvent QueueCapacity)
      (q : Producer MarketDataEvent QueueCapacity)
      (hm : ProducerMove event s.pipeline.queue.ring s.pipeline.queue.producer r q none) :
      MainMove s { s with pipeline := { s.pipeline with
        queue := s.pipeline.queue.afterPush (r, q, none)
        control := .tryPush event } }
  | pushed (event : MarketDataEvent) (hphase : s.phase = .submit event)
      (r : SPSCRingBuffer MarketDataEvent QueueCapacity)
      (q : Producer MarketDataEvent QueueCapacity) (accepted : Bool)
      (hm : ProducerMove event s.pipeline.queue.ring s.pipeline.queue.producer r q
        (some accepted)) :
      MainMove s { s with
        pipeline := { s.pipeline with
          queue := s.pipeline.queue.afterPush (r, q, some accepted)
          control := .idle }
        replayedMessages := if accepted then s.replayedMessages + 1 else s.replayedMessages
        phase := .readNext }
  | loads (hphase : s.phase = .wait) (hc : s.pipeline.control = .idle) :
      MainMove s { s with pipeline := { s.pipeline with control := .loadCount } }
  | waits (hphase : s.phase = .wait) (hc : s.pipeline.control = .loadCount)
      (hless : s.pipeline.processedCount < s.replayedMessages) :
      MainMove s { s with pipeline := { s.pipeline with control := .idle } }
  | waited (hphase : s.phase = .wait) (hc : s.pipeline.control = .loadCount) :
      MainMove s { s with
        pipeline := { s.pipeline with control := .idle }
        phase := .stop }
  | stop (hphase : s.phase = .stop) (hc : s.pipeline.control = .idle) :
      MainMove s { s with pipeline := { s.pipeline with control := .exchangeFalse } }
  | finish (hphase : s.phase = .stop) (hc : s.pipeline.control = .exchangeFalse) :
      MainMove s { s with pipeline := { s.pipeline with running := false, control := .join } }
  | blocked (hphase : s.phase = .stop) (hc : s.pipeline.control = .join) (w : Worker)
      (hw : s.pipeline.worker = some w) (hnot : w ≠ .finished) : MainMove s s
  | joined (hphase : s.phase = .stop) (hc : s.pipeline.control = .join)
      (hw : s.pipeline.worker = some .finished) :
      MainMove s { s with
        pipeline := { s.pipeline with worker := none, control := .idle }
        phase := .complete }
  | complete (hphase : s.phase = .complete) : MainMove s s

theorem Standing.move_start (h : Standing s) (hphase : s.phase = .start) :
    MainMove s s.mainStep := by
  have hplace := h.place
  rw [hphase] at hplace
  have hsession := h.inv.session
  rw [mainStep_start hphase]
  rcases hplace.2 with ⟨hrunning, hc | hc⟩ | hc | hc
  · have hstep : s.pipeline.controlStep .start =
        ({ s.pipeline with control := .exchangeTrue }, none) := by
      rw [controlStep, hc]
    rw [callPipeline_none hstep]
    exact .start hphase hc
  · have hstep : s.pipeline.controlStep .start = ({ s.pipeline with
        running := true
        control := .resetCount
        sessionStart := s.pipeline.consumed.length }, none) := by
      rw [controlStep, hc]
      exact if_neg (by rw [hrunning]; exact Bool.noConfusion)
    rw [callPipeline_none hstep]
    exact .begin hphase hc
  · have hstep : s.pipeline.controlStep .start = ({ s.pipeline with
        processedCount := 0
        control := .createWorker }, none) := by
      rw [controlStep, hc]
    rw [callPipeline_none hstep]
    exact .resetCount hphase hc
  · rw [hc] at hsession
    have hstep : s.pipeline.controlStep .start = ({ s.pipeline with
        worker := some .loadRunning
        control := .idle }, some .started) := by
      rw [controlStep, hc]
      dsimp only
      rw [hsession.2]
    rw [callPipeline_some hstep]
    exact .createWorker hphase hc

theorem move_readNext (hphase : s.phase = .readNext) : MainMove s s.mainStep := by
  rw [mainStep, hphase]
  dsimp only
  cases hnext : s.reader.readNext with
  | mk result reader =>
      cases result with
      | none => exact .readAll hphase reader
      | some message =>
          dsimp only
          cases messageEvent message with
          | none => exact .read hphase message reader hnext .readNext (.inl rfl)
          | some event => exact .read hphase message reader hnext _ (.inr ⟨event, rfl⟩)

theorem Standing.move_submit (h : Standing s) {event : MarketDataEvent}
    (hphase : s.phase = .submit event) : MainMove s s.mainStep := by
  have hplace := h.place
  rw [hphase] at hplace
  rw [mainStep_submit hphase]
  rcases push_cases hplace.2 with ⟨r, q, hm, hstep⟩ | ⟨r, q, accepted, hm, hstep⟩
  · rw [callPipeline_none hstep]
    exact .push event hphase r q hm
  · rw [callPipeline_some hstep]
    have hmove := MainMove.pushed event hphase r q accepted hm
    cases accepted with
    | true => exact hmove
    | false => exact hmove

theorem Standing.move_wait (h : Standing s) (hphase : s.phase = .wait) :
    MainMove s s.mainStep := by
  have hplace := h.place
  rw [hphase] at hplace
  rw [mainStep_wait hphase]
  rcases hplace.2 with hc | hc
  · have hstep : s.pipeline.controlStep .processedCount =
        ({ s.pipeline with control := .loadCount }, none) := by
      rw [controlStep, hc]
    rw [callPipeline_none hstep]
    exact .loads hphase hc
  · have hstep : s.pipeline.controlStep .processedCount =
        ({ s.pipeline with control := .idle }, some (.count s.pipeline.processedCount)) := by
      rw [controlStep, hc]
    rw [callPipeline_some hstep, waited]
    dsimp only
    by_cases hless : s.pipeline.processedCount < s.replayedMessages
    · rw [if_pos hless]
      exact .waits hphase hc hless
    · rw [if_neg hless]
      exact .waited hphase hc

theorem Standing.move_stop (h : Standing s) (hphase : s.phase = .stop) :
    MainMove s s.mainStep := by
  have hplace := h.place
  rw [hphase] at hplace
  rw [mainStep_stop hphase]
  rcases hplace with ⟨hrunning, hc | hc⟩ | hc
  · have hstep : s.pipeline.controlStep .stop =
        ({ s.pipeline with control := .exchangeFalse }, none) := by
      rw [controlStep, hc]
    rw [callPipeline_none hstep]
    exact .stop hphase hc
  · have hstep : s.pipeline.controlStep .stop =
        ({ s.pipeline with running := false, control := .join }, none) := by
      rw [controlStep, hc]
      exact if_pos hrunning
    rw [callPipeline_none hstep]
    exact .finish hphase hc
  · obtain ⟨w, hw⟩ := Option.ne_none_iff_exists'.mp (h.inv.joinable hc)
    by_cases hfinished : w = .finished
    · subst hfinished
      have hstep : s.pipeline.controlStep .stop = ({ s.pipeline with
          worker := none
          control := .idle }, some (.stopped true)) := by
        rw [controlStep, hc]
        dsimp only
        rw [hw]
      rw [callPipeline_some hstep]
      exact .joined hphase hc hw
    · have hstep : s.pipeline.controlStep .stop = (s.pipeline, none) := by
        rw [controlStep, hc]
        dsimp only
        rw [hw]
        cases w with
        | finished => exact absurd rfl hfinished
        | _ => rfl
      rw [callPipeline_none hstep]
      exact .blocked hphase hc w hw hfinished

theorem Standing.mainStep_move (h : Standing s) : MainMove s s.mainStep := by
  cases hphase : s.phase with
  | start => exact h.move_start hphase
  | readNext => exact move_readNext hphase
  | submit event => exact h.move_submit hphase
  | wait => exact h.move_wait hphase
  | stop => exact h.move_stop hphase
  | complete =>
      have hstep : s.mainStep = s := by rw [mainStep, hphase]
      rw [hstep]
      exact .complete hphase

/-! ## What a replay keeps -/

theorem replayed_afterPush {event : MarketDataEvent}
    {queue : System MarketDataEvent QueueCapacity}
    {r : SPSCRingBuffer MarketDataEvent QueueCapacity}
    {q : Producer MarketDataEvent QueueCapacity} {accepted : Bool} {replayed : UInt64}
    (hm : ProducerMove event queue.ring queue.producer r q (some accepted))
    (h : replayed = UInt64.ofNat (queue.pushes.filterMap Returned.result).length) :
    (if accepted then replayed + 1 else replayed) = UInt64.ofNat
      ((queue.afterPush (r, q, some accepted)).pushes.filterMap Returned.result).length := by
  cases accepted with
  | false =>
      have hpushes : (queue.afterPush (r, q, some false)).pushes.filterMap Returned.result =
          queue.pushes.filterMap Returned.result := by
        rw [System.afterPush, List.filterMap_append]
        exact List.append_nil _
      rw [hpushes]
      exact h
  | true =>
      obtain ⟨value, hvalue⟩ := Option.ne_none_iff_exists'.mp (hm.returns.2 rfl)
      have hpushes : (queue.afterPush (r, q, some true)).pushes.filterMap Returned.result =
          queue.pushes.filterMap Returned.result ++ [value] := by
        rw [System.afterPush, List.filterMap_append, hvalue]
        rfl
      rw [hpushes, List.length_append, List.length_singleton, UInt64.ofNat_add, ← h]
      rfl

theorem Standing.published_of_idle (h : Standing s)
    (hc : ∀ event, s.pipeline.control ≠ .tryPush event) :
    s.replayedMessages = UInt64.ofNat s.pipeline.queue.published.length := by
  rw [h.replayed, System.published, h.producer hc]
  exact congrArg (fun l => UInt64.ofNat l) (congrArg List.length (List.append_nil _).symm)

/-- A turn that leaves the queue alone, outside of `tryPush`. -/
theorem Standing.of_queue (h : Standing s) (hinv : s'.pipeline.Inv)
    (hplace : Place s'.pipeline s'.phase) (hqueue : s'.pipeline.queue = s.pipeline.queue)
    (hc : ∀ event, s.pipeline.control ≠ .tryPush event)
    (hstart : s'.pipeline.sessionStart = 0) (hreplayed : s'.replayedMessages = s.replayedMessages) :
    Standing s' where
  inv := hinv
  place := hplace
  producer := fun _ => by
    rw [hqueue]
    exact h.producer hc
  sessionStart := hstart
  replayed := by
    rw [hqueue, hreplayed]
    exact h.replayed

theorem Standing.main (h : Standing s) : Standing s.mainStep := by
  have hinv : s.mainStep.pipeline.Inv := inv_step h.inv .main
  have hplace := h.place
  have hmove := h.mainStep_move
  generalize s.mainStep = s' at hmove hinv
  cases hmove with
  | start hphase hc =>
      rw [hphase] at hplace
      refine h.of_queue hinv ?_ rfl (by simp [hc]) h.sessionStart rfl
      rw [hphase]
      refine ⟨hplace.1, .inl ⟨?_, .inr rfl⟩⟩
      rcases hplace.2 with ⟨hrunning, -⟩ | hc' | hc'
      · exact hrunning
      · cases hc.symm.trans hc'
      · cases hc.symm.trans hc'
  | begin hphase hc =>
      rw [hphase] at hplace
      refine h.of_queue hinv ?_ rfl (by simp [hc]) ?_ rfl
      · rw [hphase]
        exact ⟨hplace.1, .inr (.inl rfl)⟩
      · have hnone := h.inv.consumed_prefix
        rw [hplace.1, List.prefix_nil] at hnone
        exact congrArg List.length hnone
  | resetCount hphase hc =>
      rw [hphase] at hplace
      refine h.of_queue hinv ?_ rfl (by simp [hc]) h.sessionStart rfl
      rw [hphase]
      exact ⟨hplace.1, .inr (.inr rfl)⟩
  | createWorker hphase hc =>
      have hsession := h.inv.session
      rw [hc] at hsession
      exact h.of_queue hinv ⟨hsession.1, rfl⟩ rfl (by simp [hc]) h.sessionStart rfl
  | read hphase message reader hread phase hnext =>
      rw [hphase] at hplace
      refine h.of_queue hinv ?_ rfl (by simp [hplace.2]) h.sessionStart rfl
      rcases hnext with rfl | ⟨event, rfl⟩
      · exact hplace
      · exact ⟨hplace.1, .inl ⟨hplace.2, rfl⟩⟩
  | readAll hphase reader =>
      rw [hphase] at hplace
      exact h.of_queue hinv ⟨hplace.1, .inl hplace.2⟩ rfl (by simp [hplace.2]) h.sessionStart rfl
  | push event hphase r q hm =>
      rw [hphase] at hplace
      refine ⟨hinv, ?_, fun hc => absurd rfl (hc event), h.sessionStart, h.replayed⟩
      rw [hphase]
      exact ⟨hplace.1, .inr rfl⟩
  | pushed event hphase r q accepted hm =>
      rw [hphase] at hplace
      exact ⟨hinv, ⟨hplace.1, rfl⟩, fun _ => hm.returns_idle, h.sessionStart,
        replayed_afterPush hm h.replayed⟩
  | loads hphase hc =>
      rw [hphase] at hplace
      refine h.of_queue hinv ?_ rfl (by simp [hc]) h.sessionStart rfl
      rw [hphase]
      exact ⟨hplace.1, .inr rfl⟩
  | waits hphase hc hless =>
      rw [hphase] at hplace
      refine h.of_queue hinv ?_ rfl (by simp [hc]) h.sessionStart rfl
      rw [hphase]
      exact ⟨hplace.1, .inl rfl⟩
  | waited hphase hc =>
      rw [hphase] at hplace
      exact h.of_queue hinv (.inl ⟨hplace.1, .inl rfl⟩) rfl (by simp [hc]) h.sessionStart rfl
  | stop hphase hc =>
      rw [hphase] at hplace
      refine h.of_queue hinv ?_ rfl (by simp [hc]) h.sessionStart rfl
      rw [hphase]
      rcases hplace with ⟨hrunning, -⟩ | hc'
      · exact .inl ⟨hrunning, .inr rfl⟩
      · cases hc.symm.trans hc'
  | finish hphase hc =>
      refine h.of_queue hinv ?_ rfl (by simp [hc]) h.sessionStart rfl
      rw [hphase]
      exact .inr rfl
  | blocked => exact h
  | joined hphase hc hw =>
      have hworking := h.inv.working hw
      refine h.of_queue hinv ⟨rfl, ?_, rfl⟩ rfl (by simp [hc]) h.sessionStart rfl
      exact (List.append_nil _).symm.trans (hworking.handed.trans hworking.seen)
  | complete => exact h

theorem Standing.worker (h : Standing s) :
    Standing { s with pipeline := s.pipeline.workerStep } := by
  obtain ⟨hcontrol, hrunning, hproducer, hpublished⟩ := workerStep_frame s.pipeline
  have hframe : s.pipeline.workerStep.sessionStart = s.pipeline.sessionStart ∧
      s.pipeline.workerStep.queue.pushes = s.pipeline.queue.pushes := by
    have hmove := workerStep_move s.pipeline
    generalize s.pipeline.workerStep = p' at hmove
    cases hmove <;> exact ⟨rfl, rfl⟩
  refine ⟨inv_step h.inv .worker, ?_, ?_, hframe.1.trans h.sessionStart, ?_⟩
  · have hplace := h.place
    cases hphase : s.phase with
    | complete =>
        rw [hphase] at hplace
        have hstep : s.pipeline.workerStep = s.pipeline := by rw [workerStep, hplace.1]
        rw [hstep]
        exact hplace
    | _ =>
        rw [hphase] at hplace
        simpa only [Place, Pushes, hcontrol, hrunning, hpublished] using hplace
  · show (∀ event, s.pipeline.workerStep.control ≠ .tryPush event) → _
    rw [hcontrol]
    exact fun hc => hproducer.trans (h.producer hc)
  · show s.replayedMessages = UInt64.ofNat
      (s.pipeline.workerStep.queue.pushes.filterMap Returned.result).length
    rw [hframe.2]
    exact h.replayed

theorem Standing.step (h : Standing s) (turn : ReplayTurn) : Standing (s.step turn) := by
  cases turn with
  | main => exact h.main
  | worker => exact h.worker

/-! ## The measure -/

/-- What `main` has to go. A message is worth more than all the turns of its `submit`. -/
def way (s : TradingRuntime) : Nat :=
  match s.phase with
  | .start => 40 * s.reader.stream.length + 40 + s.pipeline.control.toStarted
  | .readNext => 40 * s.reader.stream.length + 40
  | .submit _ => 40 * s.reader.stream.length + 40 + s.pipeline.queue.producer.toReturn
  | .wait => 20
  | .stop => 10 + s.pipeline.control.toStopped
  | .complete => 0

/-- The turns to the next look at the counter, when it is the last one. -/
def lastLook (s : TradingRuntime) : Nat :=
  match s.phase with
  | .wait => if s.pipeline.AllCounted then s.pipeline.control.toCount else 0
  | _ => 0

/-- What is left to do, the weightiest first. -/
def measure (s : TradingRuntime) : Nat ×ₗ Nat ×ₗ Nat :=
  toLex (s.way, toLex (s.pipeline.work, s.lastLook))

/-- The thread that is waited for. -/
def helpful (s : TradingRuntime) : ReplayTurn :=
  match s.phase with
  | .wait => if s.pipeline.AllCounted then .main else .worker
  | .stop =>
      match s.pipeline.running, s.pipeline.worker with
      | true, _ | false, some .finished => .main
      | false, _ => .worker
  | _ => .main

theorem lastLook_of_counted (hphase : s.phase = .wait) (hall : s.pipeline.AllCounted) :
    s.lastLook = s.pipeline.control.toCount := by
  rw [lastLook, hphase]
  exact if_pos hall

theorem lastLook_of_not_counted (hall : ¬ s.pipeline.AllCounted) : s.lastLook = 0 := by
  rw [lastLook]
  split
  · exact if_neg hall
  · rfl

theorem lastLook_of_not_wait (hphase : s.phase ≠ .wait) : s.lastLook = 0 := by
  rw [lastLook]
  split
  · next hwait => exact absurd hwait hphase
  · rfl

theorem helpful_of_not_counted (hphase : s.phase = .wait) (hall : ¬ s.pipeline.AllCounted) :
    s.helpful = .worker := by
  rw [helpful, hphase]
  exact if_neg hall

theorem way_of_wait (hphase : s.phase = .wait) : s.way = 20 := by
  rw [way, hphase]

/-- While the session goes on and all is counted, nobody waits for the worker. -/
theorem helpful_of_counted (hrunning : s.pipeline.running = true)
    (hall : s.pipeline.AllCounted) : s.helpful = .main := by
  rw [helpful]
  split
  · exact if_pos hall
  · rw [hrunning]
  · rfl

theorem measure_lt_of_way (h : s'.way < s.way) : s'.measure < s.measure :=
  Prod.Lex.toLex_lt_toLex.mpr (.inl h)

theorem measure_lt_of_work (hway : s'.way = s.way) (h : s'.pipeline.work < s.pipeline.work) :
    s'.measure < s.measure :=
  Prod.Lex.toLex_lt_toLex.mpr (.inr ⟨hway, Prod.Lex.toLex_lt_toLex.mpr (.inl h)⟩)

theorem measure_lt_of_look (hway : s'.way = s.way) (hwork : s'.pipeline.work = s.pipeline.work)
    (h : s'.lastLook < s.lastLook) : s'.measure < s.measure :=
  Prod.Lex.toLex_lt_toLex.mpr (.inr ⟨hway, Prod.Lex.toLex_lt_toLex.mpr (.inr ⟨hwork, h⟩)⟩)

theorem measure_eq (hway : s'.way = s.way) (hwork : s'.pipeline.work = s.pipeline.work)
    (h : s'.lastLook = s.lastLook) : s'.measure = s.measure := by
  rw [measure, measure, hway, hwork, h]

/-- While something is not counted, the loop of `main` only changes the phase of its call. -/
theorem waiting {control : Control} (hall : ¬ s.pipeline.AllCounted) (hphase : s.phase = .wait)
    (hphase' : s'.phase = s.phase)
    (hpipeline : s'.pipeline = { s.pipeline with control := control }) :
    s.helpful = .worker ∧ s'.measure = s.measure ∧ s'.helpful = s.helpful := by
  have hall' : ¬ s'.pipeline.AllCounted := by
    rw [hpipeline]
    exact hall
  have hwait := hphase'.trans hphase
  refine ⟨helpful_of_not_counted hphase hall, measure_eq ?_ ?_ ?_, ?_⟩
  · rw [way_of_wait hphase, way_of_wait hwait]
  · rw [hpipeline]
    rfl
  · rw [lastLook_of_not_counted hall, lastLook_of_not_counted hall']
  · rw [helpful_of_not_counted hphase hall, helpful_of_not_counted hwait hall']

/-- When all is counted, its next look at the counter is the last. -/
theorem looking {control : Control} (hall : s.pipeline.AllCounted) (hphase : s.phase = .wait)
    (hphase' : s'.phase = s.phase)
    (hpipeline : s'.pipeline = { s.pipeline with control := control })
    (hless : control.toCount < s.pipeline.control.toCount) : s'.measure < s.measure := by
  have hall' : s'.pipeline.AllCounted := by
    rw [hpipeline]
    exact hall
  have hwait := hphase'.trans hphase
  refine measure_lt_of_look ?_ ?_ ?_
  · rw [way_of_wait hphase, way_of_wait hwait]
  · rw [hpipeline]
    rfl
  · rw [lastLook_of_counted hphase hall, lastLook_of_counted hwait hall', hpipeline]
    exact hless

/-- A turn of `main` brings the measure down, unless it waits for the worker. -/
theorem main_measure (h : Standing s) (hnot : s.phase ≠ .complete) :
    s.mainStep.measure < s.measure ∨ s.helpful = .worker ∧
      s.mainStep.measure = s.measure ∧ s.mainStep.helpful = s.helpful := by
  have hmove := h.mainStep_move
  generalize s.mainStep = s' at hmove
  cases hmove with
  | start hphase hc | begin hphase hc | resetCount hphase hc | createWorker hphase hc =>
      refine .inl (measure_lt_of_way ?_)
      simp only [way, hphase, hc, Control.toStarted]
      omega
  | read hphase message reader hread phase hnext =>
      have hshorter := ItchReplayReader.readNext_shorter hread
      refine .inl (measure_lt_of_way ?_)
      rcases hnext with rfl | ⟨event, rfl⟩
      · simp only [way, hphase]
        omega
      · have hfew := Producer.toReturn_le s.pipeline.queue.producer
        simp only [way, hphase]
        omega
  | readAll hphase reader =>
      refine .inl (measure_lt_of_way ?_)
      simp only [way, hphase]
      omega
  | push event hphase r q hm =>
      have hless := hm.toReturn_lt
      refine .inl (measure_lt_of_way ?_)
      simp only [way, hphase]
      exact Nat.add_lt_add_left hless _
  | pushed event hphase r q accepted hm =>
      have hless := s.pipeline.queue.producer.toReturn_pos
      refine .inl (measure_lt_of_way ?_)
      simp only [way, hphase]
      omega
  | loads hphase hc =>
      by_cases hall : s.pipeline.AllCounted
      · refine .inl (looking hall hphase rfl rfl ?_)
        rw [hc]
        decide
      · exact .inr (waiting hall hphase rfl rfl)
  | waits hphase hc hless =>
      refine .inr (waiting ?_ hphase rfl rfl)
      intro hall
      have hcount := processedCount_of_counted h.inv (by rw [hc]; trivial) h.sessionStart hall
      rw [hcount, h.published_of_idle (by simp [hc])] at hless
      exact UInt64.lt_irrefl _ hless
  | waited hphase hc =>
      refine .inl (measure_lt_of_way ?_)
      simp only [way, hphase, Control.toStopped]
      omega
  | stop hphase hc | finish hphase hc =>
      refine .inl (measure_lt_of_way ?_)
      simp only [way, hphase, hc, Control.toStopped]
      omega
  | blocked hphase hc w hw hne =>
      refine .inr ⟨?_, rfl, rfl⟩
      have hsession := h.inv.session
      rw [hc] at hsession
      rw [helpful, hphase, hsession.1, hw]
      cases w with
      | finished => exact absurd rfl hne
      | _ => rfl
  | joined hphase hc hw =>
      refine .inl (measure_lt_of_way ?_)
      simp only [way, hphase]
      omega
  | complete hphase => exact absurd hphase hnot

theorem way_worker (s : TradingRuntime) : (s.step .worker).way = s.way := by
  obtain ⟨hcontrol, -, hproducer, -⟩ := workerStep_frame s.pipeline
  show (match s.phase with
    | .start => 40 * s.reader.stream.length + 40 + s.pipeline.workerStep.control.toStarted
    | .readNext => 40 * s.reader.stream.length + 40
    | .submit _ =>
        40 * s.reader.stream.length + 40 + s.pipeline.workerStep.queue.producer.toReturn
    | .wait => 20
    | .stop => 10 + s.pipeline.workerStep.control.toStopped
    | .complete => 0) = s.way
  rw [hcontrol, hproducer]
  rfl

/-- Nobody waits for a worker that has nothing to do. -/
theorem Standing.helpful_of_idle (h : Standing s)
    (hidle : s.pipeline.worker = none ∨
      s.pipeline.running = false ∧ s.pipeline.worker = some .finished) : s.helpful = .main := by
  have hplace := h.place
  cases hphase : s.phase with
  | wait =>
      rw [hphase] at hplace
      have hsteady : Steady s.pipeline.control := by
        rcases hplace.2 with hc | hc <;> rw [hc] <;> trivial
      obtain ⟨w, hw, -⟩ : ∃ w, s.pipeline.worker = some w ∧ w.draining = false := by
        rcases h.inv.settled hsteady with ⟨-, hw⟩ | ⟨hstopped, -⟩
        · exact hw
        · cases hstopped.symm.trans hplace.1
      rcases hidle with hnone | ⟨hstopped, -⟩
      · cases hnone.symm.trans hw
      · cases hstopped.symm.trans hplace.1
  | stop =>
      rw [hphase] at hplace
      rw [helpful, hphase]
      rcases hidle with hnone | ⟨hstopped, hfinished⟩
      · rcases hplace with ⟨hrunning, -⟩ | hc
        · rw [hrunning]
        · exact absurd hnone (h.inv.joinable hc)
      · rw [hstopped, hfinished]
  | _ => rw [helpful, hphase]

/-- A turn of the worker brings the measure down, unless `main` is not waiting for it. -/
theorem worker_measure (h : Standing s) :
    (s.step .worker).measure < s.measure ∨ s.helpful = .main ∧
      (s.step .worker).measure = s.measure ∧ (s.step .worker).helpful = s.helpful := by
  have hway := s.way_worker
  rcases work_worker h.inv with hless | ⟨hrunning, hall⟩ | ⟨hsame, hidle⟩
  · exact .inl (measure_lt_of_work hway hless)
  · have hall' := allCounted_workerStep h.inv hall
    obtain ⟨hcontrol, hrunning', -, -⟩ := workerStep_frame s.pipeline
    have hmain := helpful_of_counted hrunning hall
    have hmain' : (s.step .worker).helpful = .main :=
      helpful_of_counted (hrunning'.trans hrunning) hall'
    refine .inr ⟨hmain, measure_eq hway ?_ ?_, hmain'.trans hmain.symm⟩
    · rw [work_of_counted hrunning hall]
      exact work_of_counted (hrunning'.trans hrunning) hall'
    · by_cases hwait : s.phase = .wait
      · have hlook : (s.step .worker).lastLook = s.pipeline.workerStep.control.toCount :=
          lastLook_of_counted hwait hall'
        rw [hlook, hcontrol, lastLook_of_counted hwait hall]
      · have hlook : (s.step .worker).lastLook = 0 := lastLook_of_not_wait hwait
        rw [hlook, lastLook_of_not_wait hwait]
  · have hstep : s.step .worker = s := congrArg (fun p => { s with pipeline := p }) hsame
    rw [hstep]
    exact .inr ⟨h.helpful_of_idle hidle, rfl, rfl⟩

theorem turn_measure (h : Standing s) (hnot : s.phase ≠ .complete) (turn : ReplayTurn) :
    (s.step turn).measure < s.measure ∨ turn ≠ s.helpful ∧
      (s.step turn).measure = s.measure ∧ (s.step turn).helpful = s.helpful := by
  cases turn with
  | main =>
      rcases main_measure h hnot with hless | ⟨hhelpful, hsame⟩
      · exact .inl hless
      · exact .inr ⟨by rw [hhelpful]; exact ReplayTurn.noConfusion, hsame⟩
  | worker =>
      rcases worker_measure h with hless | ⟨hhelpful, hsame⟩
      · exact .inl hless
      · exact .inr ⟨by rw [hhelpful]; exact ReplayTurn.noConfusion, hsame⟩

theorem helped : Helped step Standing (fun s => s.phase = .complete) measure helpful where
  keeps := fun _ turn h => h.step turn
  helps := fun s h hnot => by
    rcases turn_measure h hnot s.helpful with hless | ⟨hne, -⟩
    · exact hless
    · exact absurd rfl hne
  others := fun _ turn h hnot _ => by
    rcases turn_measure h hnot turn with hless | ⟨-, hsame⟩
    · exact .inl hless
    · exact .inr hsame

/-- What has come to its end stays there. -/
theorem complete_step (hphase : s.phase = .complete) (hworker : s.pipeline.worker = none)
    (turn : ReplayTurn) : s.step turn = s := by
  cases turn with
  | main =>
      show s.mainStep = s
      rw [mainStep, hphase]
  | worker =>
      have hsame : s.pipeline.workerStep = s.pipeline := by rw [workerStep, hworker]
      exact congrArg (fun p => { s with pipeline := p }) hsame

/-- Along a fair schedule the replay comes to its end and stays there. -/
theorem comes_to_end (buffer : Fin QueueCapacity → MarketDataEvent) (file : List UInt8)
    {schedule : Nat → ReplayTurn} (hfair : Fair schedule) :
    ∃ n, ∀ m, n ≤ m →
      Standing ((init buffer file).run ((List.range m).map schedule)) ∧
        ((init buffer file).run ((List.range m).map schedule)).phase = .complete := by
  have hrun : ∀ m, (init buffer file).run ((List.range m).map schedule) =
      along step (init buffer file) schedule m :=
    fun m => (along_eq_foldl step (init buffer file) schedule m).symm
  obtain ⟨n, hdone⟩ := helped.reaches (standing_init buffer file) hfair
  have hstanding := helped.along_inv (standing_init buffer file) schedule n
  have hplace := hstanding.place
  rw [hdone] at hplace
  refine ⟨n, fun m hm => ?_⟩
  have hstays : along step (init buffer file) schedule m =
      along step (init buffer file) schedule n := by
    induction m, hm using Nat.le_induction with
    | base => rfl
    | succ m _ ih =>
        rw [along, ih]
        exact complete_step hdone hplace.1 _
  rw [hrun, hstays]
  exact ⟨hstanding, hdone⟩

/-- For a file that a book can hold, and a strategy that looks at the book only, over a
transport that returns: the worker's calls of the desk return, at every point of the run. So in
whatever order the two threads have their turns, as long as both have one again and again, the
replay comes to its end: `stop` has returned, the worker is joined, and all that was accepted
and counted has been consumed, each of the file's events at most once and in its order. -/
theorem replay_completes {τ : Type} {strategy : IStrategy} {decision : Decision}
    (hsees : Sees strategy decision) (send : OuchTransport τ) (transport : τ)
    (stdHash : OrderId → Nat) (buffer : Fin QueueCapacity → MarketDataEvent) (file : List UInt8)
    (hfit : FitFeed (fileFeed file)) (schedule : Nat → ReplayTurn) (hfair : Fair schedule) :
    (∀ m, ∃ desk, (TradingDesk.init stdHash transport).consumeAll strategy send
      ((init buffer file).run ((List.range m).map schedule)).pipeline.consumed = .ok desk) ∧
    ∃ n, ∀ m, n ≤ m →
      let s := (init buffer file).run ((List.range m).map schedule)
      s.phase = .complete ∧ s.pipeline.worker = none ∧
        s.pipeline.consumed = s.pipeline.queue.published ∧
        s.replayedMessages = UInt64.ofNat s.pipeline.consumed.length ∧
        s.pipeline.consumed.Sublist (fileFeed file) := by
  constructor
  · intro m
    obtain ⟨desk, hok, -⟩ := Follows.of_fit hsees send stdHash transport
      (hfit.sublist (consumed_sublist buffer file ((List.range m).map schedule)))
    exact ⟨desk, hok⟩
  · obtain ⟨n, hend⟩ := comes_to_end buffer file hfair
    refine ⟨n, fun m hm => ?_⟩
    obtain ⟨hstanding, hdone⟩ := hend m hm
    have hplace := hstanding.place
    rw [hdone] at hplace
    refine ⟨hdone, hplace.1, hplace.2.1, ?_, consumed_sublist buffer file _⟩
    rw [hplace.2.1]
    exact hstanding.published_of_idle (by simp [hplace.2.2])

/-- The two threads in turn. -/
def alternating (n : Nat) : ReplayTurn := if n % 2 = 0 then .main else .worker

theorem alternating_fair : Fair alternating := by
  intro turn n
  cases turn with
  | main => exact ⟨2 * n, by omega, if_pos (by omega)⟩
  | worker => exact ⟨2 * n + 1, by omega, if_neg (by omega)⟩

theorem replay_completes_alternating :
    (∀ m, ∃ desk, (TradingDesk.init UInt64.toNat ({} : RecordingOuchTransport)).consumeAll
      (MarketDataStrategyConsumer.runtimeStrategy Rat).onMarketData RecordingOuchTransport.send
      ((init (fun _ => {}) sampleFile).run ((List.range m).map alternating)).pipeline.consumed =
        .ok desk) ∧
    ∃ n, ∀ m, n ≤ m →
      let s := (init (fun _ => {}) sampleFile).run
        ((List.range m).map alternating)
      s.phase = .complete ∧ s.pipeline.worker = none ∧
        s.pipeline.consumed = s.pipeline.queue.published ∧
        s.replayedMessages = UInt64.ofNat s.pipeline.consumed.length ∧
        s.pipeline.consumed.Sublist (fileFeed sampleFile) :=
  replay_completes (MarketDataStrategyConsumer.runtimeStrategy Rat).sees
    RecordingOuchTransport.send {} UInt64.toNat (fun _ => {}) sampleFile sampleFile_fit
    alternating alternating_fair

end TradingRuntime

end OpenHft
