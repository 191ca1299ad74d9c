import OpenHft.Model.SampleReplay
import OpenHft.Proofs.PipelineLifecycle
import OpenHft.Proofs.ReplayFile

/-!
# When a replay reproduces its file

`main` ignores a `false` from `dispatch`: a message that finds the queue full is gone. A
`tryPush` can only find it full when as many messages have been published before as the
queue has room for, one less than its capacity. So a file with no more messages than that
is reproduced in every interleaving (`Progress`), and a longer one is not: when the worker
is slow to begin, `main` alone fills the queue and drops the rest (`Filled`).
-/

namespace OpenHft

open OpenHft.Lib SPSCRingBuffer MarketDataPipeline

/-! ## One `tryPush` -/

section Push

variable {T : Type} {Capacity : Nat} {s : System T Capacity}
  {r r' : SPSCRingBuffer T Capacity} {p p' : Producer T Capacity} {next : T}

/-- What the `tryPush` of a value has yet to publish. -/
def Producer.due (next : T) : Producer T Capacity → List T
  | .idle => [next]
  | .loadHead value | .loadTail value _ | .check value _ _ | .storeHead value _ _ => [value]
  | _ => []

theorem ProducerMove.due (hm : ProducerMove next r p r' p' none) :
    p.publishes ++ p'.due next = p.due next := by
  cases hm <;> rfl

theorem ProducerMove.due_of_true (hm : ProducerMove next r p r' p' (some true)) :
    p.publishes = p.due next := by
  cases hm
  rfl

/-- A `tryPush` fails only when the queue has been filled once. -/
theorem System.Inv.full_of_false (h : s.Inv)
    (hm : ProducerMove next s.ring s.producer r p (some false)) :
    Capacity ≤ s.published.length + 1 := by
  have hproducer := h.producer
  have horder := h.window.order.length_le
  generalize s.producer = phase at hm hproducer
  cases hm with
  | fail value head tail heq =>
      obtain ⟨hhead, K, hK, hroom, htail⟩ := hproducer
      have hmod : K % Capacity = (s.published.length + 1) % Capacity := by
        rw [← increment_val hhead, heq, htail]
      rcases Nat.lt_or_ge (s.published.length + 1) (K + Capacity) with hlt | hge
      · have := mod_inj_of_window (by omega) hlt hmod
        omega
      · omega

end Push

/-- What a turn inside `submit` does. -/
theorem MarketDataPipeline.push_cases {p : MarketDataPipeline} {event : MarketDataEvent}
    (h : p.Pushes (.submit event) event) :
    (∃ r q, ProducerMove event p.queue.ring p.queue.producer r q none ∧
      p.controlStep (.submit event) = ({ p with
        queue := p.queue.afterPush (r, q, none)
        control := .tryPush event }, none)) ∨
    ∃ r q accepted, ProducerMove event p.queue.ring p.queue.producer r q (some accepted) ∧
      p.controlStep (.submit event) = ({ p with
        queue := p.queue.afterPush (r, q, some accepted)
        control := .idle }, some (.submitted accepted)) := by
  have hm := producerStep_move event p.queue.ring p.queue.producer
  rw [controlStep_push h, push, System.step]
  generalize producerStep event p.queue.ring p.queue.producer = out at hm ⊢
  obtain ⟨r, q, ret⟩ := out
  cases ret with
  | none => exact .inl ⟨r, q, hm, rfl⟩
  | some accepted => exact .inr ⟨r, q, accepted, hm, rfl⟩

/-- `join` blocks, or the call of `stop` returns. -/
theorem MarketDataPipeline.controlStep_join {p : MarketDataPipeline}
    (hc : p.control = .join) (next : PipelineCall) :
    p.controlStep next = (p, none) ∨
      ∃ p', p.controlStep next = (p', some (.stopped true)) := by
  unfold controlStep
  rw [hc]
  dsimp only
  split
  · exact .inr ⟨_, rfl⟩
  · exact .inr ⟨_, rfl⟩
  · exact .inl rfl

namespace TradingRuntime

variable {s s' : TradingRuntime} {messages : List (List UInt8)}

theorem callPipeline_none {call : PipelineCall}
    {returned : TradingRuntime → PipelineReturn → TradingRuntime} {p : MarketDataPipeline}
    (h : s.pipeline.controlStep call = (p, none)) :
    s.callPipeline call returned = { s with pipeline := p } := by
  rw [callPipeline, h]

theorem callPipeline_some {call : PipelineCall}
    {returned : TradingRuntime → PipelineReturn → TradingRuntime} {p : MarketDataPipeline}
    {result : PipelineReturn} (h : s.pipeline.controlStep call = (p, some result)) :
    s.callPipeline call returned = returned { s with pipeline := p } result := by
  rw [callPipeline, h]

theorem mainStep_start (h : s.phase = .start) :
    s.mainStep = s.callPipeline .start fun s _ => { s with phase := .readNext } := by
  rw [mainStep, h]

theorem mainStep_submit {event : MarketDataEvent} (h : s.phase = .submit event) :
    s.mainStep = s.callPipeline (.submit event) dispatched := by
  rw [mainStep, h]

theorem mainStep_wait (h : s.phase = .wait) :
    s.mainStep = s.callPipeline .processedCount waited := by
  rw [mainStep, h]

theorem mainStep_stop (h : s.phase = .stop) :
    s.mainStep = s.callPipeline .stop fun s _ => { s with phase := .complete } := by
  rw [mainStep, h]

/-! ## Short files -/

/-- What has happened when `main` stands at each phase, if nothing was dropped. -/
inductive Progress (messages : List (List UInt8)) (s : TradingRuntime) : Prop
  | start (hphase : s.phase = .start) (hreader : s.reader = .init (replayFile messages))
      (hcontrol : s.pipeline.control = .idle ∨ s.pipeline.control = .exchangeTrue ∨
        s.pipeline.control = .resetCount ∨ s.pipeline.control = .createWorker)
      (hidle : s.pipeline.queue.producer = .idle)
      (hpublished : s.pipeline.queue.published = [])
  | readNext (done rest : List (List UInt8)) (hphase : s.phase = .readNext)
      (hfile : messages = done ++ rest) (hreader : s.reader = .init (replayFile rest))
      (hrunning : s.pipeline.running = true) (hcontrol : s.pipeline.control = .idle)
      (hidle : s.pipeline.queue.producer = .idle)
      (hpublished : s.pipeline.queue.published = fileEvents done)
  | submit (done rest : List (List UInt8)) (message : List UInt8) (event : MarketDataEvent)
      (hphase : s.phase = .submit event) (hfile : messages = done ++ message :: rest)
      (hreader : s.reader = .init (replayFile rest))
      (hrunning : s.pipeline.running = true) (hevent : messageEvent message = some event)
      (hpush : s.pipeline.Pushes (.submit event) event)
      (hpublished : s.pipeline.queue.published ++ s.pipeline.queue.producer.due event =
        fileEvents done ++ [event])
  | wait (hphase : s.phase = .wait) (hrunning : s.pipeline.running = true)
      (hcontrol : s.pipeline.control = .idle ∨ s.pipeline.control = .loadCount)
      (hpublished : s.pipeline.queue.published = fileEvents messages)
  | stop (hphase : s.phase = .stop)
      (hcontrol : s.pipeline.running = true ∧
        (s.pipeline.control = .idle ∨ s.pipeline.control = .exchangeFalse) ∨
          s.pipeline.control = .join)
      (hpublished : s.pipeline.queue.published = fileEvents messages)
  | complete (hphase : s.phase = .complete) (hworker : s.pipeline.worker = none)
      (hconsumed : s.pipeline.consumed = fileEvents messages)

theorem progress_init (buffer : Fin QueueCapacity → MarketDataEvent)
    (messages : List (List UInt8)) :
    Progress messages (init buffer (replayFile messages)) :=
  .start rfl rfl (.inl rfl) rfl rfl

/-- The worker leaves alone what `main` goes by. -/
theorem workerStep_frame (p : MarketDataPipeline) :
    p.workerStep.control = p.control ∧ p.workerStep.running = p.running ∧
      p.workerStep.queue.producer = p.queue.producer ∧
        p.workerStep.queue.published = p.queue.published := by
  have hmove := workerStep_move p
  generalize p.workerStep = p' at hmove
  cases hmove <;> exact ⟨rfl, rfl, rfl, rfl⟩

theorem Progress.worker (h : Progress messages s) :
    Progress messages { s with pipeline := s.pipeline.workerStep } := by
  obtain ⟨hc, hr, hp, hpub⟩ := workerStep_frame s.pipeline
  cases h with
  | start hphase hreader hcontrol hidle hpublished =>
      refine .start hphase hreader ?_ (hp.trans hidle) (hpub.trans hpublished)
      rw [hc]
      exact hcontrol
  | readNext done rest hphase hfile hreader hrunning hcontrol hidle hpublished =>
      exact .readNext done rest hphase hfile hreader (hr.trans hrunning) (hc.trans hcontrol)
        (hp.trans hidle) (hpub.trans hpublished)
  | submit done rest message event hphase hfile hreader hrunning hevent hpush hpublished =>
      refine .submit done rest message event hphase hfile hreader (hr.trans hrunning) hevent
        ?_ ?_
      · rw [Pushes, hc]
        exact hpush
      · rw [hpub, hp]
        exact hpublished
  | wait hphase hrunning hcontrol hpublished =>
      refine .wait hphase (hr.trans hrunning) ?_ (hpub.trans hpublished)
      rw [hc]
      exact hcontrol
  | stop hphase hcontrol hpublished =>
      refine .stop hphase ?_ (hpub.trans hpublished)
      rw [hc, hr]
      exact hcontrol
  | complete hphase hworker hconsumed =>
      have hstep : s.pipeline.workerStep = s.pipeline := by rw [workerStep, hworker]
      rw [hstep]
      exact .complete hphase hworker hconsumed

/-- The pipeline of the next state is one turn further, or it is the same. -/
theorem step_pipeline (s : TradingRuntime) (turn : ReplayTurn) :
    (s.step turn).pipeline = s.pipeline ∨
      ∃ turn', (s.step turn).pipeline = s.pipeline.step turn' := by
  have hcall : ∀ (call : PipelineCall)
      (returned : TradingRuntime → PipelineReturn → TradingRuntime),
      (∀ s result, (returned s result).pipeline = s.pipeline) →
        (s.callPipeline call returned).pipeline = s.pipeline.step (.control call) := by
    intro call returned hreturned
    rw [callPipeline, MarketDataPipeline.step]
    generalize s.pipeline.controlStep call = out
    obtain ⟨p, ret⟩ := out
    cases ret with
    | none => rfl
    | some result => exact hreturned _ result
  cases turn with
  | worker => exact .inr ⟨.worker, rfl⟩
  | main =>
      show s.mainStep.pipeline = _ ∨ ∃ turn', s.mainStep.pipeline = _
      rw [mainStep]
      split
      · exact .inr ⟨_, hcall _ _ fun _ _ => rfl⟩
      · left
        split
        · rfl
        · split <;> rfl
      · refine .inr ⟨_, hcall _ _ fun s result => ?_⟩
        unfold dispatched
        split <;> rfl
      · refine .inr ⟨_, hcall _ _ fun s result => ?_⟩
        unfold waited
        split
        · split <;> rfl
        · rfl
      · exact .inr ⟨_, hcall _ _ fun _ _ => rfl⟩
      · exact .inl rfl

theorem inv_step (h : s.pipeline.Inv) (turn : ReplayTurn) : (s.step turn).pipeline.Inv := by
  rcases s.step_pipeline turn with hsame | ⟨turn', hstep⟩
  · rw [hsame]
    exact h
  · rw [hstep]
    exact h.step turn'

theorem Progress.main_start (h : s.pipeline.Inv) (hphase : s.phase = .start)
    (hreader : s.reader = .init (replayFile messages))
    (hcontrol : s.pipeline.control = .idle ∨ s.pipeline.control = .exchangeTrue ∨
      s.pipeline.control = .resetCount ∨ s.pipeline.control = .createWorker)
    (hidle : s.pipeline.queue.producer = .idle)
    (hpublished : s.pipeline.queue.published = []) : Progress messages s.mainStep := by
  have hsession := h.session
  rw [mainStep_start hphase]
  rcases hcontrol with hc | hc | hc | hc
  · have hstep : s.pipeline.controlStep .start =
        ({ s.pipeline with control := .exchangeTrue }, none) := by
      rw [controlStep, hc]
    rw [callPipeline_none hstep]
    exact .start hphase hreader (.inr (.inl rfl)) hidle hpublished
  · cases hrunning : s.pipeline.running with
    | true =>
        have hstep : s.pipeline.controlStep .start =
            ({ s.pipeline with control := .idle }, some .started) := by
          rw [controlStep, hc]
          exact if_pos hrunning
        rw [callPipeline_some hstep]
        exact .readNext [] messages rfl rfl hreader hrunning rfl hidle hpublished
    | false =>
        have hstep : s.pipeline.controlStep .start = ({ s.pipeline with
            running := true
            control := .resetCount
            sessionStart := s.pipeline.consumed.length }, none) := by
          rw [controlStep, hc]
          exact if_neg (by rw [hrunning]; exact Bool.noConfusion)
        rw [callPipeline_none hstep]
        exact .start hphase hreader (.inr (.inr (.inl rfl))) hidle hpublished
  · have hstep : s.pipeline.controlStep .start = ({ s.pipeline with
        processedCount := 0
        control := .createWorker }, none) := by
      rw [controlStep, hc]
    rw [callPipeline_none hstep]
    exact .start hphase hreader (.inr (.inr (.inr rfl))) hidle hpublished
  · rw [hc] at hsession
    obtain ⟨hrunning, hworker⟩ := hsession
    have hstep : s.pipeline.controlStep .start = ({ s.pipeline with
        worker := some .loadRunning
        control := .idle }, some .started) := by
      rw [controlStep, hc]
      dsimp only
      rw [hworker]
    rw [callPipeline_some hstep]
    exact .readNext [] messages rfl rfl hreader hrunning rfl hidle hpublished

theorem Progress.main_readNext (hwell : ∀ message ∈ messages, WellFormed message)
    {done rest : List (List UInt8)} (hphase : s.phase = .readNext)
    (hfile : messages = done ++ rest) (hreader : s.reader = .init (replayFile rest))
    (hrunning : s.pipeline.running = true) (hcontrol : s.pipeline.control = .idle)
    (hidle : s.pipeline.queue.producer = .idle)
    (hpublished : s.pipeline.queue.published = fileEvents done) :
    Progress messages s.mainStep := by
  rw [mainStep, hphase]
  dsimp only
  rw [hreader]
  cases rest with
  | nil =>
      rw [List.append_nil] at hfile
      rw [hfile]
      exact .wait rfl hrunning (.inl hcontrol) hpublished
  | cons message rest =>
      have hmessage : WellFormed message := hwell message (by
        rw [hfile]
        exact List.mem_append_right _ List.mem_cons_self)
      obtain ⟨event, hevent⟩ := Option.isSome_iff_exists.mp hmessage.event_isSome
      rw [replayFile_cons, ItchReplayReader.readNext_frame hmessage.length_pos hmessage.short]
      dsimp only
      rw [hevent]
      refine .submit done rest message event rfl hfile rfl hrunning hevent
        (.inl ⟨hcontrol, rfl⟩) ?_
      show s.pipeline.queue.published ++ s.pipeline.queue.producer.due event = _
      rw [hpublished, hidle]
      rfl

theorem Progress.main_submit (h : s.pipeline.Inv)
    (hwell : ∀ message ∈ messages, WellFormed message)
    (hlength : messages.length < QueueCapacity) {done rest : List (List UInt8)}
    {message : List UInt8} {event : MarketDataEvent} (hphase : s.phase = .submit event)
    (hfile : messages = done ++ message :: rest)
    (hreader : s.reader = .init (replayFile rest)) (hrunning : s.pipeline.running = true)
    (hevent : messageEvent message = some event)
    (hpush : s.pipeline.Pushes (.submit event) event)
    (hpublished : s.pipeline.queue.published ++ s.pipeline.queue.producer.due event =
      fileEvents done ++ [event]) : Progress messages s.mainStep := by
  rw [mainStep_submit hphase]
  rcases push_cases hpush with ⟨r, q, hm, hstep⟩ | ⟨r, q, accepted, hm, hstep⟩
  · rw [callPipeline_none hstep]
    refine .submit done rest message event hphase hfile hreader hrunning hevent (.inr rfl) ?_
    show (s.pipeline.queue.afterPush (r, q, none)).published ++ q.due event = _
    rw [System.published_afterPush hm, List.append_assoc, hm.due]
    exact hpublished
  · rw [callPipeline_some hstep]
    cases accepted with
    | true =>
        refine .readNext (done ++ [message]) rest rfl ?_ hreader hrunning rfl hm.returns_idle ?_
        · rw [hfile, List.append_assoc]
          rfl
        · show (s.pipeline.queue.afterPush (r, q, some true)).published = _
          rw [System.published_afterPush hm, hm.due_of_true, fileEvents_concat hevent]
          exact hpublished
    | false =>
        -- the queue cannot be full: fewer messages have been published
        exfalso
        have hfull := h.queue.full_of_false hm
        have hcount := congrArg List.length hfile
        have hdone : (fileEvents done).length = done.length := fileEvents_length fun m hmem =>
          hwell m (by rw [hfile]; exact List.mem_append_left _ hmem)
        have hbound := congrArg List.length hpublished
        rw [List.length_append, List.length_append, List.length_singleton, hdone] at hbound
        rw [List.length_append, List.length_cons] at hcount
        have hdue : 1 ≤ (s.pipeline.queue.producer.due event).length := by
          generalize s.pipeline.queue.producer = phase at hm ⊢
          cases hm
          exact Nat.le_refl 1
        omega

theorem Progress.main_wait (hphase : s.phase = .wait) (hrunning : s.pipeline.running = true)
    (hcontrol : s.pipeline.control = .idle ∨ s.pipeline.control = .loadCount)
    (hpublished : s.pipeline.queue.published = fileEvents messages) :
    Progress messages s.mainStep := by
  rw [mainStep_wait hphase]
  rcases hcontrol with hc | hc
  · have hstep : s.pipeline.controlStep .processedCount =
        ({ s.pipeline with control := .loadCount }, none) := by
      rw [controlStep, hc]
    rw [callPipeline_none hstep]
    exact .wait hphase hrunning (.inr rfl) hpublished
  · have hstep : s.pipeline.controlStep .processedCount =
        ({ s.pipeline with control := .idle }, some (.count s.pipeline.processedCount)) := by
      rw [controlStep, hc]
    rw [callPipeline_some hstep, waited]
    split
    · exact .wait hphase hrunning (.inl rfl) hpublished
    · exact .stop rfl (.inl ⟨hrunning, .inl rfl⟩) hpublished

theorem Progress.main_stop (h : s.pipeline.Inv) (hphase : s.phase = .stop)
    (hcontrol : s.pipeline.running = true ∧
      (s.pipeline.control = .idle ∨ s.pipeline.control = .exchangeFalse) ∨
        s.pipeline.control = .join)
    (hpublished : s.pipeline.queue.published = fileEvents messages) :
    Progress messages s.mainStep := by
  rw [mainStep_stop hphase]
  rcases hcontrol with ⟨hrunning, hc | hc⟩ | hc
  · have hstep : s.pipeline.controlStep .stop =
        ({ s.pipeline with control := .exchangeFalse }, none) := by
      rw [controlStep, hc]
    rw [callPipeline_none hstep]
    exact .stop hphase (.inl ⟨hrunning, .inr rfl⟩) hpublished
  · have hstep : s.pipeline.controlStep .stop =
        ({ s.pipeline with running := false, control := .join }, none) := by
      rw [controlStep, hc]
      exact if_pos hrunning
    rw [callPipeline_none hstep]
    exact .stop hphase (.inr rfl) hpublished
  · rcases controlStep_join hc .stop with hstep | ⟨p, hstep⟩
    · rw [callPipeline_none hstep]
      exact .stop hphase (.inr hc) hpublished
    · obtain ⟨-, hp⟩ := h.joined hstep
      obtain ⟨hconsumed, -⟩ := h.stopped hstep
      rw [callPipeline_some hstep]
      refine .complete rfl ?_ (hconsumed.trans ?_)
      · show p.worker = none
        rw [hp]
      · rw [hp]
        exact hpublished

theorem Progress.step (h : Progress messages s) (hinv : s.pipeline.Inv)
    (hwell : ∀ message ∈ messages, WellFormed message)
    (hlength : messages.length < QueueCapacity) (turn : ReplayTurn) :
    Progress messages (s.step turn) := by
  cases turn with
  | worker => exact h.worker
  | main =>
      cases h with
      | start hphase hreader hcontrol hidle hpublished =>
          exact main_start hinv hphase hreader hcontrol hidle hpublished
      | readNext done rest hphase hfile hreader hrunning hcontrol hidle hpublished =>
          exact main_readNext hwell hphase hfile hreader hrunning hcontrol hidle hpublished
      | submit done rest message event hphase hfile hreader hrunning hevent hpush hpub =>
          exact main_submit hinv hwell hlength hphase hfile hreader hrunning hevent hpush hpub
      | wait hphase hrunning hcontrol hpublished =>
          exact main_wait hphase hrunning hcontrol hpublished
      | stop hphase hcontrol hpublished =>
          exact main_stop hinv hphase hcontrol hpublished
      | complete hphase hworker hconsumed =>
          have hstep : s.mainStep = s := by rw [mainStep, hphase]
          show Progress messages s.mainStep
          rw [hstep]
          exact .complete hphase hworker hconsumed

theorem Progress.run (h : Progress messages s) (hinv : s.pipeline.Inv)
    (hwell : ∀ message ∈ messages, WellFormed message)
    (hlength : messages.length < QueueCapacity) (turns : List ReplayTurn) :
    Progress messages (s.run turns) := by
  induction turns generalizing s with
  | nil => exact h
  | cons turn turns ih => exact ih (h.step hinv hwell hlength turn) (inv_step hinv turn)

theorem Progress.consumed (h : Progress messages s) (hcomplete : s.phase = .complete) :
    s.pipeline.consumed = fileEvents messages := by
  cases h with
  | complete _ _ hconsumed => exact hconsumed
  | start hphase => cases hphase.symm.trans hcomplete
  | readNext _ _ hphase => cases hphase.symm.trans hcomplete
  | submit _ _ _ _ hphase => cases hphase.symm.trans hcomplete
  | wait hphase => cases hphase.symm.trans hcomplete
  | stop hphase => cases hphase.symm.trans hcomplete

/-! ## Long files -/

/-- Some turns lead from one state to the other. -/
def Reaches (s s' : TradingRuntime) : Prop := ∃ turns, s.run turns = s'

theorem Reaches.trans {s₁ s₂ s₃ : TradingRuntime} (h : Reaches s₁ s₂) (h' : Reaches s₂ s₃) :
    Reaches s₁ s₃ := by
  obtain ⟨turns, rfl⟩ := h
  obtain ⟨turns', rfl⟩ := h'
  exact ⟨turns ++ turns', List.foldl_append⟩

theorem Reaches.main (h : s.mainStep = s') : Reaches s s' := ⟨[.main], h⟩

theorem Reaches.work {p : MarketDataPipeline} (h : WorkAlone s.pipeline p) :
    Reaches s { s with pipeline := p } := by
  induction h with
  | refl => exact ⟨[], rfl⟩
  | tail _ hstep ih =>
      refine ih.trans ⟨[.worker], ?_⟩
      rw [hstep]
      rfl

/-- A call that is left alone, made by `main`. -/
theorem Reaches.call {call : PipelineCall} {result : PipelineReturn}
    {returned : TradingRuntime → PipelineReturn → TradingRuntime} {p : MarketDataPipeline}
    (h : CallAlone call s.pipeline result p)
    (hmain : ∀ q, ({ s with pipeline := q } : TradingRuntime).mainStep =
      ({ s with pipeline := q } : TradingRuntime).callPipeline call returned) :
    Reaches s (returned { s with pipeline := p } result) := by
  generalize hstart : s.pipeline = start at h
  induction h generalizing s with
  | returns hstep =>
      subst hstart
      exact .main ((hmain s.pipeline).trans (callPipeline_some hstep))
  | @turn _ q _ _ hstep _ ih =>
      subst hstart
      have hturn : Reaches s { s with pipeline := q } :=
        .main ((hmain s.pipeline).trans (callPipeline_none hstep))
      have hrest := ih (s := { s with pipeline := q }) hmain rfl
      exact hturn.trans hrest

/-- `main` has read the messages `done` before the worker took a turn. -/
structure Filled (done rest : List (List UInt8)) (s : TradingRuntime) : Prop where
  inv : s.pipeline.Inv
  phase : s.phase = .readNext
  reader : s.reader = .init (replayFile rest)
  control : s.pipeline.control = .idle
  running : s.pipeline.running = true
  worker : s.pipeline.worker = some .loadRunning
  producer : s.pipeline.queue.producer = .idle
  returned : s.pipeline.queue.returned = []
  consumed : s.pipeline.consumed = []
  processed : s.pipeline.processedCount = 0
  published : s.pipeline.queue.published = (fileEvents done).take (QueueCapacity - 1)
  replayed : s.replayedMessages = UInt64.ofNat s.pipeline.queue.published.length

theorem filled_init (buffer : Fin QueueCapacity → MarketDataEvent)
    (messages : List (List UInt8)) :
    ∃ s, Reaches (init buffer (replayFile messages)) s ∧ Filled [] messages s := by
  have hcall : CallAlone .start (MarketDataPipeline.init buffer) .started _ :=
    start_alone rfl rfl rfl
  have hreach : Reaches (init buffer (replayFile messages)) _ :=
    .call hcall fun _ => mainStep_start rfl
  exact ⟨_, hreach, hcall.reaches.inv (inv_init buffer), rfl, rfl, rfl, rfl, rfl, rfl, rfl, rfl,
    rfl, rfl, rfl⟩

/-- Nothing is taken while the worker takes no turn. -/
theorem Filled.taken {done rest : List (List UInt8)} (h : Filled done rest s) :
    s.pipeline.queue.taken = [] := by
  rw [System.taken, h.returned, (h.inv.working h.worker).idle rfl]
  rfl

theorem Filled.read {done rest : List (List UInt8)} {message : List UInt8}
    {event : MarketDataEvent} (h : Filled done (message :: rest) s)
    (hmessage : WellFormed message) (hevent : messageEvent message = some event) :
    Reaches s { s with reader := .init (replayFile rest), phase := .submit event } := by
  refine .main ?_
  rw [mainStep, h.phase, h.reader, replayFile_cons,
    ItchReplayReader.readNext_frame hmessage.length_pos hmessage.short]
  dsimp only
  rw [hevent]

theorem Filled.next {done rest : List (List UInt8)} {message : List UInt8}
    (h : Filled done (message :: rest) s) (hmessage : WellFormed message) :
    ∃ s', Reaches s s' ∧ Filled (done ++ [message]) rest s' := by
  obtain ⟨event, hevent⟩ := Option.isSome_iff_exists.mp hmessage.event_isSome
  have hpublished := h.published
  have hlength : s.pipeline.queue.published.length =
      min (QueueCapacity - 1) (fileEvents done).length := by
    rw [hpublished, List.length_take]
  have hcapacity : 1 < QueueCapacity := by decide
  rcases Nat.lt_or_ge (fileEvents done).length (QueueCapacity - 1) with hlt | hge
  · obtain ⟨queue, hcall, hafter⟩ := submit_alone h.inv.queue h.control h.producer
      (by rw [h.taken, List.length_nil]; omega) event
    have hreach := (h.read hmessage hevent).trans (.call hcall fun _ => mainStep_submit rfl)
    refine ⟨_, hreach, hcall.reaches.inv h.inv, rfl, rfl, rfl, h.running, h.worker,
      hafter.producer, hafter.returned.trans h.returned, h.consumed, h.processed, ?_, ?_⟩
    · show queue.published = _
      rw [hafter.published, hpublished, fileEvents_concat hevent, List.take_of_length_le,
        List.take_of_length_le]
      · rw [List.length_append, List.length_singleton]
        omega
      · omega
    · show s.replayedMessages + 1 = UInt64.ofNat queue.published.length
      rw [hafter.published, h.replayed, List.length_append, UInt64.ofNat_add]
      rfl
  · obtain ⟨queue, hcall, hafter⟩ := submit_alone_full h.inv.queue h.control h.producer
      (by rw [h.taken, List.length_nil]; omega) event
    have hreach := (h.read hmessage hevent).trans (.call hcall fun _ => mainStep_submit rfl)
    have hsame : queue.published = s.pipeline.queue.published := by
      rw [hafter.published, List.append_nil]
    refine ⟨_, hreach, hcall.reaches.inv h.inv, rfl, rfl, rfl, h.running, h.worker,
      hafter.producer, hafter.returned.trans h.returned, h.consumed, h.processed, ?_, ?_⟩
    · show queue.published = _
      rw [hsame, hpublished, fileEvents_concat hevent, List.take_append_of_le_length hge]
    · show s.replayedMessages = UInt64.ofNat queue.published.length
      rw [hsame]
      exact h.replayed

theorem Filled.all {done rest : List (List UInt8)} (h : Filled done rest s)
    (hwell : ∀ message ∈ rest, WellFormed message) :
    ∃ s', Reaches s s' ∧ Filled (done ++ rest) [] s' := by
  induction rest generalizing done s with
  | nil =>
      rw [List.append_nil]
      exact ⟨s, ⟨[], rfl⟩, h⟩
  | cons message rest ih =>
      obtain ⟨s₁, hreach₁, h₁⟩ := h.next (hwell message List.mem_cons_self)
      obtain ⟨s₂, hreach₂, h₂⟩ := ih h₁ fun m hm => hwell m (List.mem_cons_of_mem _ hm)
      rw [List.append_assoc] at h₂
      exact ⟨s₂, hreach₁.trans hreach₂, h₂⟩

/-- The worker processes what was accepted, and `main` sees that it has. -/
theorem Filled.wait {done : List (List UInt8)} (h : Filled done [] s) :
    ∃ s', Reaches s s' ∧ s'.phase = .stop ∧ s'.pipeline.Inv ∧
      s'.pipeline.control = .idle ∧ s'.pipeline.running = true ∧
      s'.pipeline.worker = some .loadRunning ∧
      s'.pipeline.queue.published = s'.pipeline.queue.returned ∧
      s'.pipeline.consumed = (fileEvents done).take (QueueCapacity - 1) := by
  have hread : Reaches s { s with reader := ⟨[], false⟩, phase := .wait } := by
    refine .main ?_
    rw [mainStep, h.phase, h.reader]
    rfl
  obtain ⟨queue, hpass, hpop⟩ := pass_alone h.inv h.worker <| by
    show s.pipeline.queue.published = s.pipeline.queue.returned ++ s.pipeline.queue.published
    rw [h.returned, List.nil_append]
  have hcount := (hread.trans (.work hpass)).trans
    (.call (processedCount_alone h.control) fun _ => mainStep_wait rfl)
  have hnot : ¬ s.pipeline.processedCount +
      UInt64.ofNat s.pipeline.queue.published.length < s.replayedMessages := by
    rw [h.processed, UInt64.zero_add, h.replayed]
    exact UInt64.lt_irrefl _
  rw [waited, if_neg hnot] at hcount
  refine ⟨_, hcount, rfl, hpass.inv h.inv, h.control, h.running, ?_, ?_, ?_⟩
  · show some (Worker.next (!s.pipeline.running)) = some .loadRunning
    rw [h.running]
    rfl
  · show queue.published = queue.returned
    rw [hpop.published, hpop.returned, h.returned, List.nil_append]
  · show s.pipeline.consumed ++ s.pipeline.queue.published = _
    rw [h.consumed, List.nil_append]
    exact h.published

theorem stop_reaches (hphase : s.phase = .stop) (hinv : s.pipeline.Inv)
    (hcontrol : s.pipeline.control = .idle) (hrunning : s.pipeline.running = true)
    (hworker : s.pipeline.worker = some .loadRunning)
    (hread : s.pipeline.queue.published = s.pipeline.queue.returned) :
    ∃ s', Reaches s s' ∧ s'.phase = .complete ∧
      s'.pipeline.consumed = s.pipeline.consumed := by
  have hmain : ∀ p, ({ s with pipeline := p } : TradingRuntime).mainStep =
      ({ s with pipeline := p } : TradingRuntime).callPipeline .stop fun s _ =>
        { s with phase := .complete } := fun p => mainStep_stop hphase
  have hcall : s.pipeline.controlStep .stop =
      ({ s.pipeline with control := .exchangeFalse }, none) := by
    rw [controlStep, hcontrol]
  have hexchange : ({ s.pipeline with control := .exchangeFalse } :
      MarketDataPipeline).controlStep .stop =
        ({ s.pipeline with running := false, control := .join }, none) := by
    rw [controlStep]
    exact if_pos hrunning
  have hjoin : Reaches s { s with
      pipeline := { s.pipeline with running := false, control := .join } } :=
    (Reaches.main ((hmain s.pipeline).trans (callPipeline_none hcall))).trans
      (.main ((hmain _).trans (callPipeline_none hexchange)))
  have hinv' : MarketDataPipeline.Inv
      { s.pipeline with running := false, control := .join } := by
    have h := (hinv.control .stop).control .stop
    rw [hcall, hexchange] at h
    exact h
  obtain ⟨queue, hpass, -⟩ := pass_alone hinv' hworker <| by
    show s.pipeline.queue.published = s.pipeline.queue.returned ++ []
    rw [hread, List.append_nil]
  refine ⟨_, (hjoin.trans (.work hpass)).trans
    (.main ((hmain _).trans (callPipeline_some rfl))), rfl, ?_⟩
  exact List.append_nil _

/-- When the worker takes its first turn after the last message, what is beyond the
queue's room is lost. -/
theorem replay_drops (buffer : Fin QueueCapacity → MarketDataEvent)
    {messages : List (List UInt8)} (hwell : ∀ message ∈ messages, WellFormed message) :
    ∃ turns, ((init buffer (replayFile messages)).run turns).phase = .complete ∧
      ((init buffer (replayFile messages)).run turns).pipeline.consumed =
        (fileEvents messages).take (QueueCapacity - 1) := by
  obtain ⟨s₁, hreach₁, hfilled⟩ := filled_init buffer messages
  obtain ⟨s₂, hreach₂, hall⟩ := hfilled.all hwell
  obtain ⟨s₃, hreach₃, hphase, hinv, hcontrol, hrunning, hworker, hread, hconsumed⟩ :=
    hall.wait
  obtain ⟨s₄, hreach₄, hcomplete, hsame⟩ :=
    stop_reaches hphase hinv hcontrol hrunning hworker hread
  obtain ⟨turns, rfl⟩ := ((hreach₁.trans hreach₂).trans hreach₃).trans hreach₄
  exact ⟨turns, hcomplete, hsame.trans hconsumed⟩

/-! ## The replay -/

/-- A file is reproduced in every interleaving exactly when its messages fit into the
queue. -/
theorem replay_reproduces_iff (buffer : Fin QueueCapacity → MarketDataEvent)
    (messages : List (List UInt8)) (hwell : ∀ message ∈ messages, WellFormed message) :
    (∀ turns, let s := (init buffer (replayFile messages)).run turns
      s.phase = .complete → s.pipeline.consumed = fileEvents messages) ↔
        messages.length ≤ 4095 := by
  constructor
  · intro hall
    obtain ⟨turns, hcomplete, hconsumed⟩ := replay_drops buffer hwell
    have hlength := congrArg List.length (hconsumed.symm.trans (hall turns hcomplete))
    rw [List.length_take, fileEvents_length hwell] at hlength
    have hcapacity : QueueCapacity - 1 = 4095 := rfl
    omega
  · intro hle turns s hcomplete
    have hprogress := (progress_init buffer messages).run (inv_init buffer) hwell
      (Nat.lt_succ_of_le hle) turns
    exact hprogress.consumed hcomplete

theorem deleteMessage_wellFormed : WellFormed (deleteMessage 0) := ⟨⟨19, by decide⟩, by decide⟩

/-- A bid of five at 100, and two (deleteMessage 0)s. -/
def threeMessages : List (List UInt8) :=
  [(SampleItchReplay.makeAddOrder ⟨1, 'B'.toUInt8, 5, 100⟩).toList, deleteMessage 0,
    deleteMessage 0]

theorem threeMessages_wellFormed : ∀ message ∈ threeMessages, WellFormed message := by
  have hadd : WellFormed (SampleItchReplay.makeAddOrder ⟨1, 'B'.toUInt8, 5, 100⟩).toList :=
    ⟨⟨36, by decide⟩, by decide⟩
  simp [threeMessages, hadd, deleteMessage_wellFormed]

theorem replay_reproduces_three_messages :
    (fileEvents threeMessages).map MarketDataEvent.type =
        [.addOrder, .deleteOrder, .deleteOrder] ∧
      ∀ turns, let s := (init (fun _ => {}) (replayFile threeMessages)).run turns
        s.phase = .complete → s.pipeline.consumed = fileEvents threeMessages :=
  ⟨by decide, (replay_reproduces_iff (fun _ => {}) threeMessages threeMessages_wellFormed).mpr
    (by decide)⟩

/-- Of 4096 messages the last is lost. -/
theorem replay_loses_last_message :
    (∀ message ∈ List.replicate 4096 (deleteMessage 0), WellFormed message) ∧
      ∃ turns, let s := (init (fun _ => {})
          (replayFile (List.replicate 4096 (deleteMessage 0)))).run turns
        s.phase = .complete ∧ s.pipeline.consumed.length = 4095 ∧
          s.pipeline.consumed ≠ fileEvents (List.replicate 4096 (deleteMessage 0)) := by
  have hwell : ∀ message ∈ List.replicate 4096 (deleteMessage 0), WellFormed message := by
    intro message hmem
    rw [List.eq_of_mem_replicate hmem]
    exact deleteMessage_wellFormed
  have hevents := (fileEvents_length hwell).trans List.length_replicate
  obtain ⟨turns, hcomplete, hconsumed⟩ := replay_drops (fun _ => {}) hwell
  have hlength := congrArg List.length hconsumed
  rw [List.length_take, hevents] at hlength
  refine ⟨hwell, turns, hcomplete, hlength, fun heq => ?_⟩
  have hsame := congrArg List.length heq
  rw [hevents] at hsame
  cases hsame.symm.trans hlength

end TradingRuntime

end OpenHft
