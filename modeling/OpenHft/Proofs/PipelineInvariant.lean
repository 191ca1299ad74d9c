import OpenHft.Model.Pipeline
import OpenHft.Proofs.SpscFifo

/-!
# What holds in every state of the pipeline

The queue keeps its own invariant, whoever takes the turns. What the pipeline adds is
bookkeeping: the events `tryPop` has returned are those consumed and the one the worker
holds (`handed`); the counter and the worker's own count make up the events consumed in
the session (`counted`); and a worker exists exactly while a session runs or is being
joined (`session`).

The last point carries the drain. A worker drains only after it has read `running_` as
false, and by then the controlling thread stands at `join` and pushes nothing more. So
the `head_` that a draining `tryPop` loads is the last one, and when it finds the queue
empty the queue is empty for good (`seen`).
-/

namespace OpenHft

open OpenHft.Lib SPSCRingBuffer

/-! ## The queue -/

section Queue

variable {T : Type} {Capacity : Nat} {s : System T Capacity}
  {r : SPSCRingBuffer T Capacity} {c : Consumer T Capacity}

/-- A call that returns leaves an idle producer. -/
theorem ProducerMove.returns_idle {next : T} {p p' : Producer T Capacity}
    {r' : SPSCRingBuffer T Capacity} {result : Bool}
    (hm : ProducerMove next r p r' p' (some result)) : p' = .idle := by
  cases hm <;> rfl

theorem ConsumerMove.returns_idle {r' : SPSCRingBuffer T Capacity}
    {c' : Consumer T Capacity} {result : Option T}
    (hm : ConsumerMove r c r' c' (some result)) : c' = .idle := by
  cases hm <;> rfl

/-- The `head` that a `tryPop` has just loaded. -/
theorem ConsumerMove.loaded {r' : SPSCRingBuffer T Capacity} {tail head : Fin Capacity}
    {ret : Option (Option T)} (hm : ConsumerMove r c r' (.check tail head) ret) :
    head = r'.head := by
  cases hm
  rfl

/-- A `tryPop` returns `false` when its two indexes are equal. -/
theorem ConsumerMove.found_empty {r' : SPSCRingBuffer T Capacity}
    {c' : Consumer T Capacity} (hm : ConsumerMove r c r' c' (some none)) :
    ∃ tail, c = .check tail tail := by
  cases hm with
  | fail tail head h => exact ⟨tail, by rw [h]⟩

theorem System.returned_afterPop (s : System T Capacity) (r : SPSCRingBuffer T Capacity)
    (c : Consumer T Capacity) (result : Option T) :
    (s.afterPop (r, c, some result)).returned = s.returned ++ result.toList := by
  cases result <;> simp [returned, afterPop]

/-- A `tryPop` that has loaded the present `head_` and finds the queue empty has returned
everything. -/
theorem System.Inv.drained (h : s.Inv) (hc : s.consumer = .check s.ring.head s.ring.head) :
    s.returned = s.published := by
  have htaken : s.taken = s.returned := by
    rw [taken, hc]
    exact List.append_nil _
  have htail := h.consumer
  rw [hc] at htail
  have hmod : s.taken.length % Capacity = s.published.length % Capacity := by
    rw [← h.window.head, htail.1]
  have hlength := mod_inj_of_window h.window.order.length_le h.window.room hmod
  rw [← htaken]
  exact h.window.order.eq_of_length hlength

end Queue

/-! ## The invariant -/

namespace Worker

/-- The worker has read `running_` as false. -/
def draining : Worker → Bool
  | .loadRunning => false
  | .tryPop draining _ | .consume draining _ _ | .fetchAdd draining _ => draining
  | .finished => true

/-- The event that has left the queue and not yet reached the consumer. -/
def held : Worker → List MarketDataEvent
  | .consume _ _ event => [event]
  | _ => []

/-- The events consumed and not yet added to `processedCount_`. -/
def uncounted : Worker → UInt64
  | .tryPop _ n | .consume _ n _ | .fetchAdd _ n => n
  | _ => 0

/-- What a draining worker has seen of the queue. -/
def Seen (queue : System MarketDataEvent QueueCapacity) : Worker → Prop
  | .tryPop true _ => ∀ tail head, queue.consumer = .check tail head →
      head = queue.ring.head
  | .fetchAdd true _ | .finished => queue.returned = queue.published
  | _ => True

/-- The worker is inside `tryPop`. -/
def popping : Worker → Bool
  | .tryPop _ _ => true
  | _ => false

theorem draining_next (d : Bool) : (next d).draining = d := by
  cases d <;> rfl

theorem draining_dispatched (d : Bool) (n : UInt64) : (dispatched d n).draining = d := by
  rw [dispatched]
  split
  · rfl
  · exact draining_next d

theorem held_next (d : Bool) : (next d).held = [] := by
  cases d <;> rfl

theorem held_dispatched (d : Bool) (n : UInt64) : (dispatched d n).held = [] := by
  rw [dispatched]
  split
  · rfl
  · exact held_next d

theorem uncounted_next (d : Bool) : (next d).uncounted = 0 := by
  cases d <;> rfl

theorem uncounted_dispatched (d : Bool) (n : UInt64) : (dispatched d n).uncounted = n := by
  rw [dispatched]
  split
  · rfl
  · next h => rw [uncounted_next, UInt64.not_lt.mp h |> UInt64.le_zero_iff.mp]

theorem seen_next {queue : System MarketDataEvent QueueCapacity} {d : Bool}
    (h : d = true → queue.returned = queue.published) : (next d).Seen queue := by
  cases d with
  | false => trivial
  | true => exact h rfl

theorem seen_dispatched {queue : System MarketDataEvent QueueCapacity} {d : Bool}
    (n : UInt64) (h : d = true → queue.returned = queue.published) :
    (dispatched d n).Seen queue := by
  rw [dispatched]
  split
  · cases d with
    | false => trivial
    | true => exact h rfl
  · exact seen_next h

end Worker

/-- Whether there is a session, and who is in it. -/
def SessionOk : Control → Bool → Option Worker → Prop
  | .resetCount, running, worker | .createWorker, running, worker =>
      running = true ∧ worker = none
  | .join, running, worker => running = false ∧ ∃ w, worker = some w
  | .terminated, _, _ => False
  | _, running, worker => (running = true ∧ ∃ w, worker = some w ∧ w.draining = false) ∨
      (running = false ∧ worker = none)

theorem SessionOk.worker {control : Control} {running : Bool} {w w' : Worker}
    (h : SessionOk control running (some w))
    (hw : running = true → w.draining = false → w'.draining = false) :
    SessionOk control running (some w') := by
  have hsession : (running = true ∧ ∃ v, some w = some v ∧ v.draining = false) ∨
      (running = false ∧ some w = none) → (running = true ∧ ∃ v, some w' = some v ∧
        v.draining = false) ∨ (running = false ∧ some w' = none) := by
    rintro (⟨hrunning, v, hv, hd⟩ | ⟨-, hnone⟩)
    · cases hv
      exact .inl ⟨hrunning, w', rfl, hw hrunning hd⟩
    · cases hnone
  cases control with
  | resetCount => cases h.2
  | createWorker => cases h.2
  | join => exact ⟨h.1, w', rfl⟩
  | terminated => exact h
  | idle => exact hsession h
  | exchangeTrue => exact hsession h
  | tryPush event => exact hsession h
  | exchangeFalse => exact hsession h
  | loadCount => exact hsession h

namespace MarketDataPipeline

variable {p : MarketDataPipeline}

/-- What the worker has taken and not handed on. -/
def held (p : MarketDataPipeline) : List MarketDataEvent := p.worker.elim [] Worker.held

/-- What the worker has handed on and not counted. -/
def uncounted (p : MarketDataPipeline) : UInt64 := p.worker.elim 0 Worker.uncounted

/-- The counter, once a reset that is due is done. -/
def counter (p : MarketDataPipeline) : UInt64 :=
  match p.control with
  | .resetCount => 0
  | _ => p.processedCount

/-- The events consumed since the session began. -/
def sinceStart (p : MarketDataPipeline) : Nat := p.consumed.length - p.sessionStart

/-- What holds between any two accesses. -/
structure Inv (p : MarketDataPipeline) : Prop where
  queue : p.queue.Inv
  handed : p.consumed ++ p.held = p.queue.returned
  started : p.sessionStart ≤ p.consumed.length
  counted : p.counter + p.uncounted = UInt64.ofNat p.sinceStart
  session : SessionOk p.control p.running p.worker
  seen : ∀ w, p.worker = some w → w.Seen p.queue
  idle : (∀ w, p.worker = some w → w.popping = false) → p.queue.consumer = .idle

theorem inv_init (buffer : Fin QueueCapacity → MarketDataEvent) : Inv (init buffer) where
  queue := System.inv_init (by decide) buffer
  handed := rfl
  started := Nat.le_refl 0
  counted := rfl
  session := .inr ⟨rfl, rfl⟩
  seen := fun w h => by cases h
  idle := fun _ => rfl

/-! ## A turn of the worker -/

/-- Every turn of the worker. -/
inductive WorkerMove (p : MarketDataPipeline) : MarketDataPipeline → Prop
  | none (hw : p.worker = none) : WorkerMove p p
  | loadRunning (hw : p.worker = some .loadRunning) :
      WorkerMove p { p with worker := some (.tryPop (!p.running) 0) }
  | tryPop (d : Bool) (n : UInt64) (hw : p.worker = some (.tryPop d n))
      (r : SPSCRingBuffer MarketDataEvent QueueCapacity)
      (c : Consumer MarketDataEvent QueueCapacity)
      (hm : ConsumerMove p.queue.ring p.queue.consumer r c none) :
      WorkerMove p { p with queue := p.queue.afterPop (r, c, none) }
  | popped (d : Bool) (n : UInt64) (hw : p.worker = some (.tryPop d n))
      (r : SPSCRingBuffer MarketDataEvent QueueCapacity)
      (c : Consumer MarketDataEvent QueueCapacity) (event : MarketDataEvent)
      (hm : ConsumerMove p.queue.ring p.queue.consumer r c (some (some event))) :
      WorkerMove p { p with
        queue := p.queue.afterPop (r, c, some (some event))
        worker := some (.consume d n event) }
  | empty (d : Bool) (n : UInt64) (hw : p.worker = some (.tryPop d n))
      (r : SPSCRingBuffer MarketDataEvent QueueCapacity)
      (c : Consumer MarketDataEvent QueueCapacity)
      (hm : ConsumerMove p.queue.ring p.queue.consumer r c (some none)) :
      WorkerMove p { p with
        queue := p.queue.afterPop (r, c, some none)
        worker := some (.dispatched d n) }
  | consume (d : Bool) (n : UInt64) (event : MarketDataEvent)
      (hw : p.worker = some (.consume d n event)) :
      WorkerMove p { p with
        consumed := p.consumed ++ [event]
        worker := some (.tryPop d (n + 1)) }
  | fetchAdd (d : Bool) (n : UInt64) (hw : p.worker = some (.fetchAdd d n)) :
      WorkerMove p { p with
        processedCount := p.processedCount + n
        worker := some (.next d) }
  | finished (hw : p.worker = some .finished) : WorkerMove p p

theorem workerStep_move (p : MarketDataPipeline) : WorkerMove p p.workerStep := by
  rw [workerStep]
  split
  · next hw => exact .none hw
  · next hw => exact .loadRunning hw
  · next d n hw =>
      have hm := consumerStep_move p.queue.ring p.queue.consumer
      generalize hout : consumerStep p.queue.ring p.queue.consumer = out at hm
      obtain ⟨r, c, ret⟩ := out
      have hqueue : p.queue.step .consumer = p.queue.afterPop (r, c, ret) := by
        rw [System.step, hout]
      simp only [hqueue]
      split
      · exact .tryPop d n hw r c hm
      · next event => exact .popped d n hw r c event hm
      · exact .empty d n hw r c hm
  · next d n event hw => exact .consume d n event hw
  · next d n hw => exact .fetchAdd d n hw
  · next hw => exact .finished hw

/-- What the invariant says of a pipeline with this worker, apart from the session. -/
structure Working (p : MarketDataPipeline) (w : Worker) : Prop where
  queue : p.queue.Inv
  handed : p.consumed ++ w.held = p.queue.returned
  started : p.sessionStart ≤ p.consumed.length
  counted : p.processedCount + w.uncounted = UInt64.ofNat p.sinceStart
  seen : w.Seen p.queue
  idle : w.popping = false → p.queue.consumer = .idle

theorem counter_of_session {w : Worker} (h : SessionOk p.control p.running p.worker)
    (hw : p.worker = some w) : p.counter = p.processedCount := by
  rw [counter]
  split
  · next hc =>
      rw [hc, hw] at h
      cases h.2
  · rfl

theorem Inv.working (h : Inv p) {w : Worker} (hw : p.worker = some w) : Working p w := by
  have hhanded := h.handed
  have hcounted := h.counted
  rw [held, hw] at hhanded
  rw [counter_of_session h.session hw, uncounted, hw] at hcounted
  refine ⟨h.queue, hhanded, h.started, hcounted, h.seen w hw, fun hpop => h.idle ?_⟩
  intro v hv
  rw [hw] at hv
  cases hv
  exact hpop

theorem Inv.of_working (h : Inv p) {w w' : Worker} (hw : p.worker = some w)
    {p' : MarketDataPipeline} (hcontrol : p'.control = p.control)
    (hrunning : p'.running = p.running) (hw' : p'.worker = some w')
    (hdraining : p.running = true → w.draining = false → w'.draining = false)
    (hworking : Working p' w') : Inv p' := by
  have hsession : SessionOk p'.control p'.running p'.worker := by
    have hbefore := h.session
    rw [hw] at hbefore
    rw [hcontrol, hrunning, hw']
    exact hbefore.worker hdraining
  refine ⟨hworking.queue, ?_, hworking.started, ?_, hsession, ?_, ?_⟩
  · rw [held, hw']
    exact hworking.handed
  · rw [counter_of_session hsession hw', uncounted, hw']
    exact hworking.counted
  · intro v hv
    rw [hw'] at hv
    cases hv
    exact hworking.seen
  · exact fun hpop => hworking.idle (hpop w' hw')

/-- `tryPop` has returned `false`. -/
theorem Inv.found_empty (h : Inv p) {d : Bool} {n : UInt64}
    (hw : p.worker = some (.tryPop d n)) {r : SPSCRingBuffer MarketDataEvent QueueCapacity}
    {c : Consumer MarketDataEvent QueueCapacity}
    (hm : ConsumerMove p.queue.ring p.queue.consumer r c (some none)) :
    Inv { p with
      queue := p.queue.afterPop (r, c, some none)
      worker := some (.dispatched d n) } := by
  have hk := h.working hw
  have hreturned : (p.queue.afterPop (r, c, some none)).returned = p.queue.returned := by
    rw [System.returned_afterPop]
    exact List.append_nil _
  refine h.of_working hw rfl rfl rfl ?_
    ⟨hk.queue.afterPop hm, ?_, hk.started, ?_, ?_, fun _ => hm.returns_idle⟩
  · intro _ hd
    rw [Worker.draining_dispatched]
    exact hd
  · rw [Worker.held_dispatched, hreturned]
    exact hk.handed
  · rw [Worker.uncounted_dispatched]
    exact hk.counted
  · refine Worker.seen_dispatched n fun hd => ?_
    subst hd
    obtain ⟨tail, hc⟩ := hm.found_empty
    have hhead : tail = p.queue.ring.head := hk.seen tail tail hc
    rw [hreturned]
    refine hk.queue.drained ?_
    rw [hc, hhead]

/-- The event that was popped reaches the consumer. -/
theorem Inv.consume (h : Inv p) {d : Bool} {n : UInt64} {event : MarketDataEvent}
    (hw : p.worker = some (.consume d n event)) :
    Inv { p with
      consumed := p.consumed ++ [event]
      worker := some (.tryPop d (n + 1)) } := by
  have hk := h.working hw
  have hidle := hk.idle rfl
  have hlength : (p.consumed ++ [event]).length = p.consumed.length + 1 :=
    List.length_append
  have hstarted := hk.started
  refine h.of_working hw rfl rfl rfl (fun _ hd => hd)
    ⟨hk.queue, ?_, ?_, ?_, ?_, fun hpop => by cases hpop⟩
  · show (p.consumed ++ [event]) ++ [] = p.queue.returned
    rw [List.append_nil]
    exact hk.handed
  · show p.sessionStart ≤ (p.consumed ++ [event]).length
    omega
  · show p.processedCount + (n + 1) =
      UInt64.ofNat ((p.consumed ++ [event]).length - p.sessionStart)
    have hcounted : p.processedCount + n = UInt64.ofNat p.sinceStart := hk.counted
    rw [hlength, Nat.sub_add_comm hstarted, UInt64.ofNat_add, ← UInt64.add_assoc,
      hcounted]
    rfl
  · cases d with
    | false => trivial
    | true =>
        intro tail head hc
        rw [show p.queue.consumer = _ from hidle] at hc
        cases hc

theorem Inv.worker (h : Inv p) : Inv p.workerStep := by
  have hmove := workerStep_move p
  generalize p.workerStep = p' at hmove
  cases hmove with
  | none hw => exact h
  | finished hw => exact h
  | loadRunning hw =>
      have hk := h.working hw
      have hidle := hk.idle rfl
      refine h.of_working hw rfl rfl rfl ?_
        ⟨hk.queue, hk.handed, hk.started, hk.counted, ?_, fun _ => hidle⟩
      · intro hrunning _
        show (!p.running) = false
        rw [hrunning]
        rfl
      · show Worker.Seen p.queue (.tryPop (!p.running) 0)
        cases p.running with
        | true => trivial
        | false =>
            intro tail head hc
            rw [hidle] at hc
            cases hc
  | tryPop d n hw r c hm =>
      have hk := h.working hw
      refine h.of_working hw rfl rfl hw (fun _ hd => hd)
        ⟨hk.queue.afterPop hm, hk.handed, hk.started, hk.counted, ?_, fun hpop => ?_⟩
      · cases d with
        | false => trivial
        | true =>
            intro tail head hc
            have hc' : c = .check tail head := hc
            subst hc'
            exact hm.loaded
      · cases hpop
  | popped d n hw r c event hm =>
      have hk := h.working hw
      refine h.of_working hw rfl rfl rfl (fun _ hd => hd)
        ⟨hk.queue.afterPop hm, ?_, hk.started, hk.counted, trivial, fun _ => hm.returns_idle⟩
      show p.consumed ++ [event] = _
      rw [System.returned_afterPop, ← hk.handed]
      exact congrArg (· ++ [event]) (List.append_nil _).symm
  | empty d n hw r c hm => exact h.found_empty hw hm
  | consume d n event hw => exact h.consume hw
  | fetchAdd d n hw =>
      have hk := h.working hw
      refine h.of_working hw rfl rfl rfl ?_
        ⟨hk.queue, ?_, hk.started, ?_, ?_, fun _ => hk.idle rfl⟩
      · intro _ hd
        rw [Worker.draining_next]
        exact hd
      · rw [Worker.held_next]
        exact hk.handed
      · rw [Worker.uncounted_next, UInt64.add_zero]
        exact hk.counted
      · refine Worker.seen_next fun hd => ?_
        subst hd
        exact hk.seen

/-! ## A turn of the controlling thread -/

/-- The phase a call begins in; `submit` begins with its first access. -/
inductive Begins : PipelineCall → Control → Prop
  | start : Begins .start .exchangeTrue
  | stop : Begins .stop .exchangeFalse
  | processedCount : Begins .processedCount .loadCount

/-- The accesses of `tryPush` are made from here. -/
def Pushes (p : MarketDataPipeline) (next : PipelineCall) (event : MarketDataEvent) : Prop :=
  (p.control = .idle ∧ next = .submit event) ∨ p.control = .tryPush event

/-- Every turn of the controlling thread. -/
inductive ControlMove (p : MarketDataPipeline) (next : PipelineCall) :
    MarketDataPipeline → Option PipelineReturn → Prop
  | call (c : Control) (hc : p.control = .idle) (hcall : Begins next c) :
      ControlMove p next { p with control := c } none
  | alreadyRunning (hc : p.control = .exchangeTrue) (hrunning : p.running = true) :
      ControlMove p next { p with control := .idle } (some .started)
  | begin (hc : p.control = .exchangeTrue) (hrunning : p.running = false) :
      ControlMove p next { p with
        running := true
        control := .resetCount
        sessionStart := p.consumed.length } none
  | resetCount (hc : p.control = .resetCount) :
      ControlMove p next { p with processedCount := 0, control := .createWorker } none
  | createWorker (hc : p.control = .createWorker) (hw : p.worker = none) :
      ControlMove p next { p with worker := some .loadRunning, control := .idle }
        (some .started)
  | terminate (w : Worker) (hc : p.control = .createWorker) (hw : p.worker = some w) :
      ControlMove p next { p with control := .terminated } none
  | push (event : MarketDataEvent) (hpush : p.Pushes next event)
      (r : SPSCRingBuffer MarketDataEvent QueueCapacity)
      (q : Producer MarketDataEvent QueueCapacity)
      (hm : ProducerMove event p.queue.ring p.queue.producer r q none) :
      ControlMove p next { p with
        queue := p.queue.afterPush (r, q, none)
        control := .tryPush event } none
  | pushed (event : MarketDataEvent) (hpush : p.Pushes next event)
      (r : SPSCRingBuffer MarketDataEvent QueueCapacity)
      (q : Producer MarketDataEvent QueueCapacity) (accepted : Bool)
      (hm : ProducerMove event p.queue.ring p.queue.producer r q (some accepted)) :
      ControlMove p next { p with
        queue := p.queue.afterPush (r, q, some accepted)
        control := .idle } (some (.submitted accepted))
  | notRunning (hc : p.control = .exchangeFalse) (hrunning : p.running = false) :
      ControlMove p next { p with control := .idle } (some (.stopped false))
  | finish (hc : p.control = .exchangeFalse) (hrunning : p.running = true) :
      ControlMove p next { p with running := false, control := .join } none
  | notJoinable (hc : p.control = .join) (hw : p.worker = none) :
      ControlMove p next { p with control := .idle } (some (.stopped true))
  | joined (hc : p.control = .join) (hw : p.worker = some .finished) :
      ControlMove p next { p with worker := none, control := .idle }
        (some (.stopped true))
  | blocked (hc : p.control = .join) : ControlMove p next p none
  | loadCount (hc : p.control = .loadCount) :
      ControlMove p next { p with control := .idle } (some (.count p.processedCount))
  | terminated (hc : p.control = .terminated) : ControlMove p next p none

theorem push_move {next : PipelineCall} {event : MarketDataEvent}
    (hpush : p.Pushes next event) :
    ControlMove p next (p.push event).1 (p.push event).2 := by
  have hm := producerStep_move event p.queue.ring p.queue.producer
  rw [MarketDataPipeline.push]
  generalize hout : producerStep event p.queue.ring p.queue.producer = out at hm
  obtain ⟨r, q, ret⟩ := out
  have hqueue : p.queue.step (.producer event) = p.queue.afterPush (r, q, ret) := by
    rw [System.step, hout]
  simp only [hqueue]
  cases ret with
  | none => exact .push event hpush r q hm
  | some accepted => exact .pushed event hpush r q accepted hm

theorem controlStep_move (p : MarketDataPipeline) (next : PipelineCall) :
    ControlMove p next (p.controlStep next).1 (p.controlStep next).2 := by
  unfold controlStep
  cases hc : p.control with
  | idle =>
      cases next with
      | start => exact .call _ hc .start
      | submit event => exact push_move (.inl ⟨hc, rfl⟩)
      | stop => exact .call _ hc .stop
      | processedCount => exact .call _ hc .processedCount
  | exchangeTrue =>
      dsimp only
      split
      · next hrunning => exact .alreadyRunning hc hrunning
      · next hrunning => exact .begin hc (Bool.eq_false_of_not_eq_true hrunning)
  | resetCount => exact .resetCount hc
  | createWorker =>
      dsimp only
      split
      · next hw => exact .createWorker hc hw
      · next w hw => exact .terminate w hc hw
  | tryPush event => exact push_move (.inr hc)
  | exchangeFalse =>
      dsimp only
      split
      · next hrunning => exact .finish hc hrunning
      · next hrunning => exact .notRunning hc (Bool.eq_false_of_not_eq_true hrunning)
  | join =>
      dsimp only
      split
      · next hw => exact .notJoinable hc hw
      · next hw => exact .joined hc hw
      · exact .blocked hc
  | loadCount => exact .loadCount hc
  | terminated => exact .terminated hc

/-- The phases in which a session is either going on or absent. -/
def Settled (p : MarketDataPipeline) : Prop :=
  (p.running = true ∧ ∃ w, p.worker = some w ∧ w.draining = false) ∨
    (p.running = false ∧ p.worker = none)

/-- The phases of calls that do not begin or end a session. -/
def Steady : Control → Prop
  | .resetCount | .createWorker | .join | .terminated => False
  | _ => True

theorem Inv.settled (h : Inv p) (hc : Steady p.control) : p.Settled := by
  have hsession := h.session
  cases hphase : p.control with
  | resetCount | createWorker | join | terminated =>
      rw [hphase] at hc
      cases hc
  | idle | exchangeTrue | tryPush | exchangeFalse | loadCount =>
      rw [hphase] at hsession
      exact hsession

theorem Settled.session (h : p.Settled) {c : Control} (hc : Steady c) :
    SessionOk c p.running p.worker := by
  cases c with
  | resetCount | createWorker | join | terminated => cases hc
  | idle | exchangeTrue | tryPush | exchangeFalse | loadCount => exact h

theorem counter_of_steady (hc : Steady p.control) : p.counter = p.processedCount := by
  rw [counter]
  split
  · next hreset =>
      rw [hreset] at hc
      cases hc
  · rfl

theorem Pushes.steady {next : PipelineCall} {event : MarketDataEvent}
    (h : p.Pushes next event) : Steady p.control := by
  rcases h with ⟨hc, -⟩ | hc
  all_goals
    rw [hc]
    trivial

/-- Only the phase of the controlling thread changes, and no session begins or ends. -/
theorem Inv.at_phase (h : Inv p) {c : Control} (hc : Steady p.control) (hc' : Steady c) :
    Inv { p with control := c } := by
  have hsession : SessionOk c p.running p.worker := (h.settled hc).session hc'
  refine ⟨h.queue, h.handed, h.started, ?_, hsession, h.seen, h.idle⟩
  rw [counter_of_steady (p := { p with control := c }) hc']
  have hcounted := h.counted
  rw [counter_of_steady hc] at hcounted
  exact hcounted

/-- While a `tryPush` runs no worker drains, and its accesses are nothing to a worker
that does not. -/
theorem Worker.seen_of_not_draining {w : Worker} (h : w.draining = false)
    (queue : System MarketDataEvent QueueCapacity) : w.Seen queue := by
  cases w with
  | loadRunning => trivial
  | tryPop d n =>
      cases h
      trivial
  | consume d n event => trivial
  | fetchAdd d n =>
      cases h
      trivial
  | finished => cases h

theorem Inv.push (h : Inv p) {next : PipelineCall} {event : MarketDataEvent}
    (hpush : p.Pushes next event)
    {r : SPSCRingBuffer MarketDataEvent QueueCapacity}
    {q : Producer MarketDataEvent QueueCapacity} {ret : Option Bool}
    (hm : ProducerMove event p.queue.ring p.queue.producer r q ret) :
    Inv { p with queue := p.queue.afterPush (r, q, ret) } := by
  refine ⟨h.queue.afterPush hm, h.handed, h.started, h.counted, h.session, ?_, h.idle⟩
  intro w hw
  rcases h.settled hpush.steady with ⟨-, v, hv, hd⟩ | ⟨-, hnone⟩
  · rw [show p.worker = some w from hw] at hv
    cases hv
    exact Worker.seen_of_not_draining hd _
  · rw [show p.worker = some w from hw] at hnone
    cases hnone

/-! The turns that make a session: `running_` is set, the counter is reset and the worker is
created; at the end `running_` is cleared and the worker is joined. -/

theorem Inv.begin (h : Inv p) (hc : p.control = .exchangeTrue) (hrunning : p.running = false) :
    Inv { p with
      running := true
      control := .resetCount
      sessionStart := p.consumed.length } := by
  rcases h.settled (by rw [hc]; trivial) with ⟨htrue, -⟩ | ⟨-, hw⟩
  · rw [hrunning] at htrue
    cases htrue
  · refine ⟨h.queue, h.handed, Nat.le_refl _, ?_, ⟨rfl, hw⟩, h.seen, h.idle⟩
    show 0 + p.worker.elim 0 Worker.uncounted =
      UInt64.ofNat (p.consumed.length - p.consumed.length)
    rw [hw, Nat.sub_self]
    rfl

theorem Inv.resetCount (h : Inv p) (hc : p.control = .resetCount) :
    Inv { p with processedCount := 0, control := .createWorker } := by
  have hsession := h.session
  have hcounted := h.counted
  rw [hc] at hsession
  rw [counter, hc] at hcounted
  exact ⟨h.queue, h.handed, h.started, hcounted, hsession, h.seen, h.idle⟩

theorem Inv.createWorker (h : Inv p) (hc : p.control = .createWorker) (hw : p.worker = none) :
    Inv { p with worker := some .loadRunning, control := .idle } := by
  have hhanded := h.handed
  have hcounted := h.counted
  have hsession := h.session
  rw [held, hw] at hhanded
  rw [counter, hc, uncounted, hw] at hcounted
  rw [hc] at hsession
  refine ⟨h.queue, hhanded, h.started, hcounted,
    .inl ⟨hsession.1, .loadRunning, rfl, rfl⟩, ?_, fun _ => h.idle ?_⟩
  · intro w hw'
    cases hw'
    trivial
  · intro w hw'
    rw [hw] at hw'
    cases hw'

theorem Inv.finish (h : Inv p) (hc : p.control = .exchangeFalse) (hrunning : p.running = true) :
    Inv { p with running := false, control := .join } := by
  rcases h.settled (by rw [hc]; trivial) with ⟨-, w, hw, -⟩ | ⟨hfalse, -⟩
  · have hcounted := h.counted
    rw [counter, hc] at hcounted
    exact ⟨h.queue, h.handed, h.started, hcounted, ⟨rfl, w, hw⟩, h.seen, h.idle⟩
  · rw [hrunning] at hfalse
    cases hfalse

/-- `stop` comes to the join with a thread to join. -/
theorem Inv.joinable (h : Inv p) (hc : p.control = .join) : p.worker ≠ none := by
  intro hw
  have hsession := h.session
  rw [hc, hw] at hsession
  obtain ⟨-, w, hnone⟩ := hsession
  cases hnone

theorem Inv.join (h : Inv p) (hc : p.control = .join) (hw : p.worker = some .finished) :
    Inv { p with worker := none, control := .idle } := by
  have hk := h.working hw
  have hsession := h.session
  rw [hc] at hsession
  refine ⟨hk.queue, hk.handed, hk.started, hk.counted, .inr ⟨hsession.1, rfl⟩, ?_,
    fun _ => hk.idle rfl⟩
  intro w hw'
  cases hw'

theorem Inv.control (h : Inv p) (next : PipelineCall) : Inv (p.controlStep next).1 := by
  have hmove := controlStep_move p next
  generalize p.controlStep next = out at hmove ⊢
  obtain ⟨p', ret⟩ := out
  dsimp only at hmove ⊢
  cases hmove with
  | call c hc hcall => exact h.at_phase (by rw [hc]; trivial) (by cases hcall <;> trivial)
  | alreadyRunning hc => exact h.at_phase (by rw [hc]; trivial) trivial
  | begin hc hrunning => exact h.begin hc hrunning
  | resetCount hc => exact h.resetCount hc
  | createWorker hc hw => exact h.createWorker hc hw
  | terminate w hc hw =>
      have hsession := h.session
      rw [hc, hw] at hsession
      cases hsession.2
  | push event hpush r q hm => exact (h.push hpush hm).at_phase hpush.steady trivial
  | pushed event hpush r q accepted hm => exact (h.push hpush hm).at_phase hpush.steady trivial
  | notRunning hc => exact h.at_phase (by rw [hc]; trivial) trivial
  | finish hc hrunning => exact h.finish hc hrunning
  | notJoinable hc hw => exact absurd hw (h.joinable hc)
  | joined hc hw => exact h.join hc hw
  | blocked hc => exact h
  | loadCount hc => exact h.at_phase (by rw [hc]; trivial) trivial
  | terminated hc => exact h

theorem Inv.step (h : Inv p) (turn : PipelineTurn) : Inv (p.step turn) := by
  cases turn with
  | control next => exact h.control next
  | worker => exact h.worker

theorem Inv.run (h : Inv p) (turns : List PipelineTurn) : Inv (p.run turns) := by
  induction turns generalizing p with
  | nil => exact h
  | cons turn turns ih => exact ih (h.step turn)

/-- A worker exists at `join`, and `join` returns when it has finished. -/
theorem Inv.joined (h : Inv p) {next : PipelineCall} {p' : MarketDataPipeline}
    (hstep : p.controlStep next = (p', some (.stopped true))) :
    p.worker = some .finished ∧ p' = { p with worker := none, control := .idle } := by
  have hmove := controlStep_move p next
  rw [hstep] at hmove
  cases hmove with
  | notJoinable hc hw => exact absurd hw (h.joinable hc)
  | joined hc hw => exact ⟨hw, rfl⟩

end MarketDataPipeline

end OpenHft
