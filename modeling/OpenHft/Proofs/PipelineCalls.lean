import Mathlib.Logic.Relation
import OpenHft.Proofs.PipelineInvariant

/-!
# Calls that are left alone

What the invariant excludes is one half of the story; here are runs that exist. When the
worker takes no turn a call of the controlling thread does what its code says in
sequence: `submit` appends to the queue if there is room and fails if there is none. When
the controlling thread takes no turn a dispatch hands over everything that is queued.
-/

namespace OpenHft

open OpenHft.Lib SPSCRingBuffer

/-! ## The indexes of a full and of an empty queue -/

namespace System

variable {T : Type} {Capacity : Nat} {s : System T Capacity}

theorem Inv.increment_head_eq_tail_iff (h : s.Inv) :
    increment s.ring.head = s.ring.tail ↔
      s.published.length + 1 = s.taken.length + Capacity := by
  have hroom := h.window.room
  have horder := h.window.order.length_le
  have hhead := increment_val h.window.head
  constructor
  · intro heq
    have hmod : s.taken.length % Capacity = (s.published.length + 1) % Capacity := by
      rw [← hhead, heq, h.window.tail]
    rcases Nat.lt_or_ge (s.published.length + 1) (s.taken.length + Capacity) with hlt | hge
    · have := mod_inj_of_window (Nat.le_succ_of_le horder) hlt hmod
      omega
    · omega
  · intro heq
    refine Fin.ext ?_
    rw [hhead, heq, Nat.add_mod_right, h.window.tail]

theorem Inv.tail_eq_head_iff (h : s.Inv) :
    s.ring.tail = s.ring.head ↔ s.taken.length = s.published.length := by
  constructor
  · intro heq
    refine mod_inj_of_window h.window.order.length_le h.window.room ?_
    rw [← h.window.tail, heq, h.window.head]
  · intro heq
    refine Fin.ext ?_
    rw [h.window.tail, heq, h.window.head]

/-- The slot at `tail_` has the first value that is not taken. -/
theorem Inv.buffer_tail (h : s.Inv) {value : T} {rest : List T}
    (hunread : s.published = s.taken ++ value :: rest) : s.ring.buffer s.ring.tail = value := by
  have hlt : s.taken.length < s.published.length := by
    rw [hunread, List.length_append, List.length_cons]
    omega
  have hstored := h.window.stored s.taken.length (Nat.le_refl _) hlt s.ring.tail h.window.tail
  rw [hunread, List.getElem?_append_right (Nat.le_refl _), Nat.sub_self] at hstored
  exact (Option.some.inj hstored).symm

end System

namespace MarketDataPipeline

variable {p p' p'' : MarketDataPipeline}

/-! ## The controlling thread alone -/

/-- A call of the controlling thread, with no turn of the worker until it returns. -/
inductive CallAlone (next : PipelineCall) :
    MarketDataPipeline → PipelineReturn → MarketDataPipeline → Prop
  | returns {p p' : MarketDataPipeline} {ret : PipelineReturn}
      (h : p.controlStep next = (p', some ret)) : CallAlone next p ret p'
  | turn {p p₁ p' : MarketDataPipeline} {ret : PipelineReturn}
      (h : p.controlStep next = (p₁, none)) (hrest : CallAlone next p₁ ret p') :
      CallAlone next p ret p'

theorem start_alone (hc : p.control = .idle) (hrunning : p.running = false)
    (hw : p.worker = none) :
    CallAlone .start p .started { p with
      running := true
      processedCount := 0
      worker := some .loadRunning
      sessionStart := p.consumed.length } := by
  obtain ⟨queue, running, count, worker, control, consumed, sessionStart⟩ := p
  cases hc
  cases hrunning
  cases hw
  exact .turn rfl (.turn rfl (.turn rfl (.returns rfl)))

theorem processedCount_alone (hc : p.control = .idle) :
    CallAlone .processedCount p (.count p.processedCount) p := by
  obtain ⟨queue, running, count, worker, control, consumed, sessionStart⟩ := p
  cases hc
  exact .turn rfl (.returns rfl)

/-- What a `tryPush` that is left alone does to the queue. -/
structure AfterPush (queue : System MarketDataEvent QueueCapacity)
    (events : List MarketDataEvent) (queue' : System MarketDataEvent QueueCapacity) :
    Prop where
  producer : queue'.producer = .idle
  consumer : queue'.consumer = queue.consumer
  returned : queue'.returned = queue.returned
  published : queue'.published = queue.published ++ events

/-- Left alone, the running `submit` returns `accepted` and publishes `events`. -/
def Submits (event : MarketDataEvent) (accepted : Bool) (events : List MarketDataEvent)
    (p : MarketDataPipeline) : Prop :=
  ∃ queue, CallAlone (.submit event) p (.submitted accepted)
      { p with queue := queue, control := .idle } ∧ AfterPush p.queue events queue

section Submit

variable {event : MarketDataEvent} {r : SPSCRingBuffer MarketDataEvent QueueCapacity}
  {q : Producer MarketDataEvent QueueCapacity} {accepted : Bool}
  {events : List MarketDataEvent}

theorem controlStep_push (h : p.Pushes (.submit event) event) :
    p.controlStep (.submit event) = p.push event := by
  unfold controlStep
  rcases h with ⟨hc, -⟩ | hc
  all_goals rw [hc]

theorem Submits.turn (h : p.Pushes (.submit event) event)
    (hstep : producerStep event p.queue.ring p.queue.producer = (r, q, none))
    (hrest : Submits event accepted events { p with
      queue := p.queue.afterPush (r, q, none)
      control := .tryPush event }) :
    Submits event accepted (p.queue.producer.publishes ++ events) p := by
  have hm := producerStep_move event p.queue.ring p.queue.producer
  rw [hstep] at hm
  obtain ⟨queue, hcall, hafter⟩ := hrest
  refine ⟨queue, .turn ?_ hcall, hafter.producer, hafter.consumer, hafter.returned, ?_⟩
  · rw [controlStep_push h, push, System.step, hstep]
  · rw [hafter.published, System.published_afterPush hm, List.append_assoc]

theorem Submits.returns (h : p.Pushes (.submit event) event)
    (hstep : producerStep event p.queue.ring p.queue.producer = (r, q, some accepted)) :
    Submits event accepted p.queue.producer.publishes p := by
  have hm := producerStep_move event p.queue.ring p.queue.producer
  rw [hstep] at hm
  refine ⟨p.queue.afterPush (r, q, some accepted), .returns ?_, hm.returns_idle, rfl, rfl,
    System.published_afterPush hm⟩
  rw [controlStep_push h, push, System.step, hstep]

/-- From the store of `head_` on. -/
theorem submits_of_storeHead {head tail : Fin QueueCapacity}
    (hc : p.control = .tryPush event)
    (hq : p.queue.producer = .storeHead event head tail) :
    Submits event true [event] p := by
  have hmark : ∀ p : MarketDataPipeline, p.control = .tryPush event → ∀ value a b,
      p.queue.producer = .storeHighWaterMark value a b → Submits event true [] p := by
    intro p hc value a b hq
    have hreturns : Submits event true p.queue.producer.publishes p :=
      Submits.returns (.inr hc) (by rw [hq, producerStep])
    rw [hq] at hreturns
    exact hreturns
  have hload : ∀ p : MarketDataPipeline, p.control = .tryPush event → ∀ value head tail,
      p.queue.producer = .loadHighWaterMark value head tail → Submits event true [] p := by
    intro p hc value head tail hq
    have hturn := Submits.turn (.inr hc) (by rw [hq, producerStep])
      (hmark _ rfl value _ _ rfl)
    rw [hq] at hturn
    exact hturn
  have hcount : ∀ p : MarketDataPipeline, p.control = .tryPush event → ∀ value head tail,
      p.queue.producer = .countPush value head tail → Submits event true [] p := by
    intro p hc value head tail hq
    have hturn := Submits.turn (.inr hc) (by rw [hq, producerStep])
      (hload _ rfl value _ _ rfl)
    rw [hq] at hturn
    exact hturn
  have hturn := Submits.turn (.inr hc) (by rw [hq, producerStep])
    (hcount _ rfl event _ _ rfl)
  rw [hq] at hturn
  exact hturn

/-- Up to the check of the two indexes. -/
theorem submits_of_check (hc : p.control = .idle) (hidle : p.queue.producer = .idle)
    (hcheck : ∀ p' : MarketDataPipeline, p'.control = .tryPush event →
      p'.queue.producer = .check event p.queue.ring.head p.queue.ring.tail →
        Submits event accepted events p') :
    Submits event accepted events p := by
  have hturn := Submits.turn (.inl ⟨hc, rfl⟩) (by rw [hidle, producerStep])
    (Submits.turn (.inr rfl) rfl (Submits.turn (.inr rfl) rfl (hcheck _ rfl rfl)))
  rw [hidle] at hturn
  exact hturn

theorem submit_alone (h : p.queue.Inv) (hc : p.control = .idle)
    (hidle : p.queue.producer = .idle)
    (hroom : p.queue.published.length + 1 < p.queue.taken.length + QueueCapacity)
    (event : MarketDataEvent) : Submits event true [event] p := by
  refine submits_of_check hc hidle fun p' hc' hq => ?_
  have hne : increment p.queue.ring.head ≠ p.queue.ring.tail := by
    intro heq
    have := h.increment_head_eq_tail_iff.mp heq
    omega
  have hturn := Submits.turn (.inr hc') (by rw [hq, producerStep, if_neg hne])
    (submits_of_storeHead rfl rfl)
  rw [hq] at hturn
  exact hturn

theorem submit_alone_full (h : p.queue.Inv) (hc : p.control = .idle)
    (hidle : p.queue.producer = .idle)
    (hfull : p.queue.published.length + 1 = p.queue.taken.length + QueueCapacity)
    (event : MarketDataEvent) : Submits event false [] p := by
  refine submits_of_check hc hidle fun p' hc' hq => ?_
  have heq : increment p.queue.ring.head = p.queue.ring.tail :=
    h.increment_head_eq_tail_iff.mpr hfull
  have hreturns := Submits.returns (.inr hc') (by rw [hq, producerStep, if_pos heq])
  rw [hq] at hreturns
  exact hreturns

end Submit

/-! ## The worker alone -/

/-- The worker takes turns and nobody else does. -/
def WorkAlone : MarketDataPipeline → MarketDataPipeline → Prop :=
  Relation.ReflTransGen fun p p' => p' = p.workerStep

theorem WorkAlone.turn (hstep : p.workerStep = p') (hrest : WorkAlone p' p'') :
    WorkAlone p p'' :=
  Relation.ReflTransGen.head hstep.symm hrest

theorem WorkAlone.inv (hwork : WorkAlone p p') (h : p.Inv) : p'.Inv := by
  induction hwork with
  | refl => exact h
  | tail _ hstep ih =>
      rw [hstep]
      exact ih.worker

/-- What `tryPop`s that are left alone do to the queue. -/
structure AfterPop (queue : System MarketDataEvent QueueCapacity)
    (events : List MarketDataEvent) (queue' : System MarketDataEvent QueueCapacity) :
    Prop where
  producer : queue'.producer = queue.producer
  consumer : queue'.consumer = .idle
  returned : queue'.returned = queue.returned ++ events
  published : queue'.published = queue.published

section Dispatch

variable {event : MarketDataEvent} {events : List MarketDataEvent} {d : Bool} {n : UInt64}
  {w : Worker} {r : SPSCRingBuffer MarketDataEvent QueueCapacity}
  {c : Consumer MarketDataEvent QueueCapacity}

/-- Left alone, the running `tryPop` ends with the worker at `w`, `events` out of the
queue. -/
def Pops (w : Worker) (events : List MarketDataEvent) (p : MarketDataPipeline) : Prop :=
  ∃ queue, WorkAlone p { p with queue := queue, worker := some w } ∧
    AfterPop p.queue events queue

theorem Pops.turn (hw : p.worker = some (.tryPop d n))
    (hstep : consumerStep p.queue.ring p.queue.consumer = (r, c, none))
    (hrest : Pops w events { p with queue := p.queue.afterPop (r, c, none) }) :
    Pops w events p := by
  obtain ⟨queue, hwork, hafter⟩ := hrest
  refine ⟨queue, .turn ?_ hwork, hafter.producer, hafter.consumer, hafter.returned,
    hafter.published⟩
  rw [workerStep, hw]
  simp only [hstep, System.step]

theorem Pops.returns_some (hw : p.worker = some (.tryPop d n))
    (hstep : consumerStep p.queue.ring p.queue.consumer = (r, c, some (some event)))
    (hc : c = .idle) : Pops (.consume d n event) [event] p := by
  refine ⟨p.queue.afterPop (r, c, some (some event)), .turn ?_ .refl, rfl, hc,
    System.returned_afterPop _ _ _ _, rfl⟩
  rw [workerStep, hw]
  simp only [hstep, System.step]

theorem Pops.returns_none (hw : p.worker = some (.tryPop d n))
    (hstep : consumerStep p.queue.ring p.queue.consumer = (r, c, some none))
    (hc : c = .idle) : Pops (.dispatched d n) [] p := by
  refine ⟨p.queue.afterPop (r, c, some none), .turn ?_ .refl, rfl, hc,
    System.returned_afterPop _ _ _ _, rfl⟩
  rw [workerStep, hw]
  simp only [hstep, System.step]

/-- Up to the check of the two indexes. -/
theorem pops_of_check (hw : p.worker = some (.tryPop d n)) (hidle : p.queue.consumer = .idle)
    (hcheck : ∀ p' : MarketDataPipeline, p'.worker = some (.tryPop d n) →
      p'.queue.ring = p.queue.ring →
        p'.queue.consumer = .check p.queue.ring.tail p.queue.ring.head → Pops w events p') :
    Pops w events p :=
  Pops.turn hw (by rw [hidle, consumerStep])
    (Pops.turn hw rfl (Pops.turn hw rfl (hcheck _ hw rfl rfl)))

theorem tryPop_alone (h : p.queue.Inv) (hw : p.worker = some (.tryPop d n))
    (hidle : p.queue.consumer = .idle)
    (hunread : p.queue.published = p.queue.returned ++ event :: events) :
    Pops (.consume d n event) [event] p := by
  have htaken : p.queue.taken = p.queue.returned := by
    rw [System.taken, hidle]
    exact List.append_nil _
  have hne : p.queue.ring.tail ≠ p.queue.ring.head := by
    rw [Ne, h.tail_eq_head_iff, htaken, hunread, List.length_append, List.length_cons]
    omega
  have hvalue : p.queue.ring.buffer p.queue.ring.tail = event := by
    have hrest : p.queue.published = p.queue.taken ++ event :: events := by
      rw [htaken]
      exact hunread
    exact h.buffer_tail hrest
  have hcount : ∀ p : MarketDataPipeline, p.worker = some (.tryPop d n) →
      p.queue.consumer = .countPop event → Pops (.consume d n event) [event] p :=
    fun p hw hc => .returns_some hw (by rw [hc, consumerStep]) rfl
  have hstore : ∀ (p : MarketDataPipeline) (tail : Fin QueueCapacity),
      p.worker = some (.tryPop d n) → p.queue.consumer = .storeTail tail event →
        Pops (.consume d n event) [event] p :=
    fun p tail hw hc => .turn hw (by rw [hc, consumerStep]) (hcount _ hw rfl)
  refine pops_of_check hw hidle fun p' hw' hring hc => ?_
  refine .turn hw' (by rw [hc, consumerStep, if_neg hne]) (hstore _ p.queue.ring.tail hw' ?_)
  show Consumer.storeTail _ (p'.queue.ring.buffer p.queue.ring.tail) = _
  rw [hring, hvalue]

theorem tryPop_alone_empty (h : p.queue.Inv) (hw : p.worker = some (.tryPop d n))
    (hidle : p.queue.consumer = .idle) (hread : p.queue.published = p.queue.returned) :
    Pops (.dispatched d n) [] p := by
  have htaken : p.queue.taken = p.queue.returned := by
    rw [System.taken, hidle]
    exact List.append_nil _
  have heq : p.queue.ring.tail = p.queue.ring.head := by
    rw [h.tail_eq_head_iff, htaken, hread]
  exact pops_of_check hw hidle fun p' hw' _ hc =>
    .returns_none hw' (by rw [hc, consumerStep, if_pos heq]) rfl

/-- A dispatch hands over everything that is queued. -/
theorem dispatch_alone (h : p.Inv) (hw : p.worker = some (.tryPop d n))
    (hidle : p.queue.consumer = .idle)
    (hunread : p.queue.published = p.queue.returned ++ events) :
    ∃ queue, WorkAlone p { p with
        queue := queue
        consumed := p.consumed ++ events
        worker := some (.dispatched d (n + UInt64.ofNat events.length)) } ∧
      AfterPop p.queue events queue := by
  induction events generalizing p n with
  | nil =>
      rw [List.append_nil] at hunread
      obtain ⟨queue, hwork, hafter⟩ := tryPop_alone_empty h.queue hw hidle hunread
      refine ⟨queue, ?_, hafter⟩
      rw [List.append_nil, show UInt64.ofNat ([] : List MarketDataEvent).length = 0 from rfl,
        UInt64.add_zero]
      exact hwork
  | cons event events ih =>
      obtain ⟨queue₁, hwork₁, hafter₁⟩ := tryPop_alone h.queue hw hidle hunread
      have hconsume : WorkAlone p { p with
          queue := queue₁
          consumed := p.consumed ++ [event]
          worker := some (.tryPop d (n + 1)) } := hwork₁.tail rfl
      obtain ⟨queue₂, hwork₂, hafter₂⟩ := ih (hconsume.inv h) rfl hafter₁.consumer <| by
        rw [hafter₁.published, hunread, hafter₁.returned, List.append_assoc]
        rfl
      refine ⟨queue₂, ?_, ?_⟩
      · have hcount : n + UInt64.ofNat (event :: events).length =
            n + 1 + UInt64.ofNat events.length := by
          rw [List.length_cons, UInt64.ofNat_add, UInt64.add_assoc,
            UInt64.add_comm (UInt64.ofNat events.length)]
          rfl
        rw [hcount, ← List.singleton_append, ← List.append_assoc]
        exact hconsume.trans hwork₂
      · refine ⟨hafter₂.producer.trans hafter₁.producer, hafter₂.consumer, ?_,
          hafter₂.published.trans hafter₁.published⟩
        rw [hafter₂.returned, hafter₁.returned, List.append_assoc]
        rfl

theorem fetchAdd_alone (hw : p.worker = some (.dispatched d n)) :
    WorkAlone p { p with
      processedCount := p.processedCount + n
      worker := some (.next d) } := by
  rw [Worker.dispatched] at hw
  split at hw
  · refine .turn ?_ .refl
    rw [workerStep, hw]
  · next hzero =>
      have hn : n = 0 := UInt64.le_zero_iff.mp (UInt64.not_lt.mp hzero)
      rw [hn, UInt64.add_zero, ← hw]
      exact .refl

/-- One pass of the worker: it reads `running_`, dispatches and counts. -/
theorem pass_alone (h : p.Inv) (hw : p.worker = some .loadRunning)
    (hunread : p.queue.published = p.queue.returned ++ events) :
    ∃ queue, WorkAlone p { p with
        queue := queue
        consumed := p.consumed ++ events
        processedCount := p.processedCount + UInt64.ofNat events.length
        worker := some (.next (!p.running)) } ∧
      AfterPop p.queue events queue := by
  have hload : WorkAlone p { p with worker := some (.tryPop (!p.running) 0) } := by
    refine .turn ?_ .refl
    rw [workerStep, hw]
  have hidle : p.queue.consumer = .idle := (h.working hw).idle rfl
  obtain ⟨queue, hwork, hafter⟩ := dispatch_alone (hload.inv h) rfl hidle hunread
  rw [UInt64.zero_add] at hwork
  exact ⟨queue, hload.trans (hwork.trans (fetchAdd_alone rfl)), hafter⟩

end Dispatch

/-! ## Runs -/

/-- Some interleaving leads from one state to the other. -/
def Reaches (p p' : MarketDataPipeline) : Prop := ∃ turns, p.run turns = p'

theorem Reaches.refl (p : MarketDataPipeline) : Reaches p p := ⟨[], rfl⟩

theorem Reaches.trans (h : Reaches p p') (h' : Reaches p' p'') : Reaches p p'' := by
  obtain ⟨turns, hrun⟩ := h
  obtain ⟨turns', hrun'⟩ := h'
  refine ⟨turns ++ turns', ?_⟩
  rw [run, List.foldl_append, ← run, ← run, hrun, hrun']

theorem Reaches.turn (turn : PipelineTurn) (h : p.step turn = p') : Reaches p p' :=
  ⟨[turn], h⟩

theorem WorkAlone.reaches (h : WorkAlone p p') : Reaches p p' := by
  induction h with
  | refl => exact .refl p
  | tail _ hstep ih => exact ih.trans (.turn .worker hstep.symm)

theorem CallAlone.reaches {next : PipelineCall} {ret : PipelineReturn}
    (h : CallAlone next p ret p') : Reaches p p' := by
  induction h with
  | returns hstep => exact .turn (.control next) (congrArg Prod.fst hstep)
  | turn hstep _ ih => exact (Reaches.turn (.control next) (congrArg Prod.fst hstep)).trans ih

theorem Reaches.inv (hreach : Reaches p p') (h : p.Inv) : p'.Inv := by
  obtain ⟨turns, rfl⟩ := hreach
  exact h.run turns

end MarketDataPipeline

end OpenHft
