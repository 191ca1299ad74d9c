import Mathlib.Data.Nat.ModEq
import OpenHft.Model.LiveRuntime
import OpenHft.Proofs.Ingestion
import OpenHft.Proofs.TradingRuns

/-!
# Runs of the live mode

`Move` says once what a turn of the main thread can do. From it come the invariants of the
receive loop: its buffers are a ledger in order and what is held is what is left of a burst,
its counters together with what was reported are the packets that were for our port, and what
was offered to the pipeline are the events of the packets that were handled.
-/

namespace OpenHft

open Lib MarketDataPipeline

namespace Receiver

/-- The event that a packet brings. -/
def event (packet : Mbuf) : Option MarketDataEvent :=
  match payload packet with
  | none => none
  | some payload => ItchReplayDispatcher.event (packet.data.drop payload.start) payload.size

/-- A packet for our port. -/
def counted (packet : Mbuf) : Bool := (payload packet).isSome

end Receiver

/-- The loop over bursts has been entered. -/
def LivePhase.receiving : LivePhase → Bool
  | .rxBurst | .packet | .submit _ _ | .report => true
  | _ => false

/-- The next turn is inside a call of the pipeline. -/
def LivePhase.calling : LivePhase → Bool
  | .start | .submit _ _ | .stop => true
  | _ => false

namespace LiveRuntime

variable {s s' : LiveRuntime} {answer : DpdkAnswer}

/-- The state when a packet of the burst has been taken up. -/
def takeUp (s : LiveRuntime) (packet : Mbuf) (packets : List Mbuf) : LiveRuntime :=
  { s with packets := packets, handled := s.handled ++ [packet] }

/-- Every turn of the main thread. -/
inductive Move (s : LiveRuntime) (answer : DpdkAnswer) : LiveRuntime → Prop
  | setUp (phase : LivePhase) (hreceiving : s.phase.receiving = false)
      (hcalling : s.phase.calling = false)
      (hphase : phase.receiving = false ∨ phase = .rxBurst) :
      Move s answer { s with phase := phase }
  | control (call : PipelineCall) (hcall : ∀ event, call ≠ .submit event)
      (hreceiving : s.phase.receiving = false) (hcalling : s.phase.calling = true)
      (pipeline : MarketDataPipeline)
      (hstep : s.pipeline.controlStep call = (pipeline, none)) :
      Move s answer { s with pipeline := pipeline }
  | returned (call : PipelineCall) (hcall : ∀ event, call ≠ .submit event)
      (hreceiving : s.phase.receiving = false) (pipeline : MarketDataPipeline)
      (result : PipelineReturn) (hstep : s.pipeline.controlStep call = (pipeline, some result))
      (phase : LivePhase) (hphase : phase.receiving = false) :
      Move s answer { s with pipeline := pipeline, phase := phase }
  | burst (hphase : s.phase = .rxBurst) : Move s answer (s.rxBurst answer.packets)
  | burstDone (hphase : s.phase = .packet) (hpackets : s.packets = []) :
      Move s answer { s with phase := .report }
  | foreign (packet : Mbuf) (packets : List Mbuf) (hphase : s.phase = .packet)
      (hpackets : s.packets = packet :: packets) (hpayload : Receiver.payload packet = none) :
      Move s answer ((s.takeUp packet packets).free packet)
  | undispatched (packet : Mbuf) (packets : List Mbuf) (hphase : s.phase = .packet)
      (hpackets : s.packets = packet :: packets)
      (hcounted : Receiver.counted packet = true) (hevent : Receiver.event packet = none) :
      Move s answer (((s.takeUp packet packets).count packet).free packet)
  | dispatched (packet : Mbuf) (packets : List Mbuf) (event : MarketDataEvent)
      (hphase : s.phase = .packet) (hpackets : s.packets = packet :: packets)
      (hcounted : Receiver.counted packet = true) (hevent : Receiver.event packet = some event) :
      Move s answer
        { (s.takeUp packet packets).count packet with phase := .submit packet event }
  | submitting (packet : Mbuf) (event : MarketDataEvent)
      (hphase : s.phase = .submit packet event) (pipeline : MarketDataPipeline)
      (hstep : s.pipeline.controlStep (.submit event) = (pipeline, none)) :
      Move s answer { s with pipeline := pipeline }
  | submitted (packet : Mbuf) (event : MarketDataEvent)
      (hphase : s.phase = .submit packet event) (pipeline : MarketDataPipeline)
      (result : PipelineReturn)
      (hstep : s.pipeline.controlStep (.submit event) = (pipeline, some result)) :
      Move s answer ({ s with pipeline := pipeline }.free packet)
  | reported (hphase : s.phase = .report) : Move s answer (s.report answer.elapsed)
  | finished (hphase : s.phase = .finished) : Move s answer s

theorem setUp_move {succeeded : Bool} {next : LivePhase} (hreceiving : s.phase.receiving = false)
    (hcalling : s.phase.calling = false)
    (hnext : next.receiving = false ∨ next = .rxBurst) :
    Move s answer (s.setUp succeeded next) := by
  rw [setUp]
  cases succeeded with
  | true => exact .setUp next hreceiving hcalling hnext
  | false => exact .setUp .stop hreceiving hcalling (.inl rfl)

theorem callPipeline_move {call : PipelineCall} (hcall : ∀ event, call ≠ .submit event)
    (hreceiving : s.phase.receiving = false) (hcalling : s.phase.calling = true)
    {phase : LivePhase}
    (hphase : phase.receiving = false) :
    Move s answer (s.callPipeline call fun s => { s with phase := phase }) := by
  rw [callPipeline]
  cases hstep : s.pipeline.controlStep call with
  | mk pipeline result =>
      cases result with
      | none => exact .control call hcall hreceiving hcalling pipeline hstep
      | some result => exact .returned call hcall hreceiving pipeline result hstep phase hphase

theorem handle_move {packet : Mbuf} {packets : List Mbuf} (hphase : s.phase = .packet)
    (hpackets : s.packets = packet :: packets) :
    Move s answer ((s.takeUp packet packets).handle packet) := by
  rw [handle]
  cases hpayload : Receiver.payload packet with
  | none => exact .foreign packet packets hphase hpackets hpayload
  | some payload =>
      have hcounted : Receiver.counted packet = true := by rw [Receiver.counted, hpayload]; rfl
      have hevent : Receiver.event packet =
          ItchReplayDispatcher.event (packet.data.drop payload.start) payload.size := by
        rw [Receiver.event, hpayload]
      dsimp only
      rw [← hevent]
      cases hcase : Receiver.event packet with
      | none => exact .undispatched packet packets hphase hpackets hcounted hcase
      | some event => exact .dispatched packet packets event hphase hpackets hcounted hcase

theorem packet_move (hphase : s.phase = .packet) : Move s answer (s.mainStep answer) := by
  cases hpackets : s.packets with
  | nil =>
      have hstep : s.mainStep answer = { s with phase := .report } := by
        rw [mainStep, hphase]
        dsimp only
        rw [hpackets]
      rw [hstep]
      exact .burstDone hphase hpackets
  | cons packet packets =>
      have hstep : s.mainStep answer = (s.takeUp packet packets).handle packet := by
        rw [mainStep, hphase]
        dsimp only
        rw [hpackets]
        rfl
      rw [hstep]
      exact handle_move hphase hpackets

theorem submit_move {packet : Mbuf} {event : MarketDataEvent}
    (hphase : s.phase = .submit packet event) : Move s answer (s.mainStep answer) := by
  have hstep : s.mainStep answer = s.callPipeline (.submit event) fun s => s.free packet := by
    rw [mainStep, hphase]
  rw [hstep, callPipeline]
  cases hstep : s.pipeline.controlStep (.submit event) with
  | mk pipeline result =>
      cases result with
      | none => exact .submitting packet event hphase pipeline hstep
      | some result => exact .submitted packet event hphase pipeline result hstep

theorem mainStep_move (s : LiveRuntime) (answer : DpdkAnswer) :
    Move s answer (s.mainStep answer) := by
  cases hphase : s.phase with
  | packet => exact packet_move hphase
  | submit packet event => exact submit_move hphase
  | ealInit =>
      have hreceiving : s.phase.receiving = false := by rw [hphase]; rfl
      have hcalling : s.phase.calling = false := by rw [hphase]; rfl
      rw [mainStep, hphase]
      dsimp only
      cases answer.succeeded with
      | true => exact .setUp .start hreceiving hcalling (.inl rfl)
      | false => exact .setUp .finished hreceiving hcalling (.inl rfl)
  | start =>
      rw [mainStep, hphase]
      exact callPipeline_move (fun event h => by cases h) (by rw [hphase]; rfl)
        (by rw [hphase]; rfl) rfl
  | stop =>
      rw [mainStep, hphase]
      exact callPipeline_move (fun event h => by cases h) (by rw [hphase]; rfl)
        (by rw [hphase]; rfl) rfl
  | createMempool | countPorts | configurePort | setupRxQueue | setupTxQueue =>
      rw [mainStep, hphase]
      exact setUp_move (by rw [hphase]; rfl) (by rw [hphase]; rfl) (.inl rfl)
  | startPort =>
      rw [mainStep, hphase]
      exact setUp_move (by rw [hphase]; rfl) (by rw [hphase]; rfl) (.inr rfl)
  | rxBurst =>
      rw [mainStep, hphase]
      exact .burst hphase
  | report =>
      rw [mainStep, hphase]
      exact .reported hphase
  | finished =>
      rw [mainStep, hphase]
      exact .finished hphase

/-! ## The burst -/

/-- What is known of the burst, whatever the driver answers. -/
structure Looping (s : LiveRuntime) : Prop where
  received : s.received = s.handled ++ s.packets
  between : s.phase ≠ .packet → (∀ packet event, s.phase ≠ .submit packet event) → s.packets = []
  untouched : s.phase.receiving = false → s.received = []

theorem Looping.packets_of_not_receiving (h : Looping s) (hphase : s.phase.receiving = false) :
    s.packets = [] := by
  refine h.between (fun hp => ?_) fun packet event hp => ?_
  · rw [hp] at hphase
    cases hphase
  · rw [hp] at hphase
    cases hphase

theorem looping_init (buffer : Fin QueueCapacity → MarketDataEvent) : Looping (init buffer) where
  received := rfl
  between := fun _ _ => rfl
  untouched := fun _ => rfl

theorem Looping.main (h : Looping s) (hmove : Move s answer s') : Looping s' := by
  cases hmove with
  | setUp phase hreceiving hcalling hphase =>
      have hpackets := h.packets_of_not_receiving hreceiving
      exact ⟨h.received, fun _ _ => hpackets, fun _ => h.untouched hreceiving⟩
  | control call hcall hreceiving hcalling pipeline hstep =>
      exact ⟨h.received, h.between, h.untouched⟩
  | returned call hcall hreceiving pipeline result hstep phase hphase =>
      have hpackets := h.packets_of_not_receiving hreceiving
      exact ⟨h.received, fun _ _ => hpackets, fun _ => h.untouched hreceiving⟩
  | burst hphase =>
      have hpackets : s.packets = [] :=
        h.between (by simp [hphase]) fun packet event => by simp [hphase]
      refine ⟨?_, fun hne => absurd rfl hne, fun hr => (by cases hr)⟩
      show s.received ++ answer.packets = s.handled ++ answer.packets
      rw [h.received, hpackets, List.append_nil]
  | burstDone hphase hpackets => exact ⟨h.received, fun _ _ => hpackets, fun hr => (by cases hr)⟩
  | foreign packet packets hphase hpackets hpayload
  | undispatched packet packets hphase hpackets hcounted hevent =>
      refine ⟨?_, fun hne => absurd rfl hne, fun hr => (by cases hr)⟩
      show s.received = s.handled ++ [packet] ++ packets
      rw [h.received, hpackets, List.append_assoc]
      rfl
  | dispatched packet packets event hphase hpackets hcounted hevent =>
      refine ⟨?_, fun _ hne => absurd rfl (hne packet event), fun hr => (by cases hr)⟩
      show s.received = s.handled ++ [packet] ++ packets
      rw [h.received, hpackets, List.append_assoc]
      rfl
  | submitting packet event hphase pipeline hstep => exact ⟨h.received, h.between, h.untouched⟩
  | submitted packet event hphase pipeline result hstep =>
      exact ⟨h.received, fun hne => absurd rfl hne, fun hr => (by cases hr)⟩
  | reported hphase =>
      have hpackets : s.packets = [] :=
        h.between (by simp [hphase]) fun packet event => by simp [hphase]
      rw [report]
      split
      · exact ⟨h.received, fun _ _ => hpackets, fun hr => (by cases hr)⟩
      · exact ⟨h.received, fun _ _ => hpackets, fun hr => (by cases hr)⟩
  | finished hphase => exact h

/-! ## The buffers -/

/-- The packets whose buffers have not been freed. -/
def held (s : LiveRuntime) : List Mbuf :=
  match s.phase with
  | .submit packet _ => packet :: s.packets
  | _ => s.packets

theorem held_eq (h : ∀ packet event, s.phase ≠ .submit packet event) : s.held = s.packets := by
  rw [held]
  cases hphase : s.phase with
  | submit packet event => exact absurd hphase (h packet event)
  | _ => rfl

/-- The driver fills different buffers, and no more than it was asked to. -/
def Orderly (answer : DpdkAnswer) : Prop :=
  (answer.packets.map Mbuf.id).Nodup ∧ answer.packets.length ≤ BurstSize

/-- The log of packets taken and freed leaves the packets held, of which there is no more than
a burst. -/
structure Buffers (s : LiveRuntime) : Prop where
  balanced : Ledger.Balances s.log (s.held.map Mbuf.id)
  size : s.held.length ≤ BurstSize

/-- The ledger and what is held are left alone. -/
theorem Buffers.of_eq (h : Buffers s) (hlog : s'.log = s.log) (hheld : s'.held = s.held) :
    Buffers s' := by
  refine ⟨?_, ?_⟩
  · rw [hlog, hheld]
    exact h.balanced
  · rw [hheld]
    exact h.size

/-- The first of the packets that are held is freed. -/
theorem Buffers.free (h : Buffers s) {packet : Mbuf} {packets : List Mbuf}
    (hheld : s.held = packet :: packets) (hlog : s'.log = s.log)
    (hpackets : s'.packets = packets) : Buffers (s'.free packet) := by
  have hbalanced := h.balanced
  have hsize := h.size
  rw [hheld] at hbalanced hsize
  have hheld' : (s'.free packet).held = packets := hpackets
  refine ⟨?_, ?_⟩
  · rw [hheld']
    show Ledger.Balances (s'.log ++ [.release packet.id]) _
    rw [hlog]
    exact hbalanced.release
  · rw [hheld']
    exact Nat.le_of_succ_le hsize

theorem Buffers.main (h : Buffers s) (hl : Looping s) (hanswer : Orderly answer)
    (hmove : Move s answer s') : Buffers s' := by
  cases hmove with
  | setUp phase hreceiving hcalling hphase =>
      refine h.of_eq rfl ?_
      rw [held_eq fun packet event hp => ?_, held_eq fun packet event hp => ?_]
      · rw [hp] at hreceiving
        cases hreceiving
      · dsimp only at hp
        rcases hphase with hphase | hphase
        · rw [hp] at hphase
          cases hphase
        · rw [hp] at hphase
          cases hphase
  | control call hcall hreceiving hcalling pipeline hstep => exact h.of_eq rfl rfl
  | returned call hcall hreceiving pipeline result hstep phase hphase =>
      refine h.of_eq rfl ?_
      rw [held_eq fun packet event hp => ?_, held_eq fun packet event hp => ?_]
      · rw [hp] at hreceiving
        cases hreceiving
      · dsimp only at hp
        rw [hp] at hphase
        cases hphase
  | burst hphase =>
      have hpackets : s.packets = [] :=
        hl.between (by simp [hphase]) fun packet event => by simp [hphase]
      have hbalanced := h.balanced
      have hheld : s.held = s.packets := by rw [held, hphase]
      rw [hheld, hpackets] at hbalanced
      refine ⟨?_, hanswer.2⟩
      have hnodup : (answer.packets.map Mbuf.id ++ List.map Mbuf.id []).Nodup := by
        simpa using hanswer.1
      have hall := hbalanced.acquire_all hnodup
      rw [List.map_map, List.map_nil, List.append_nil] at hall
      exact hall
  | burstDone hphase hpackets =>
      have hheld : s.held = s.packets := by rw [held, hphase]
      exact h.of_eq rfl hheld.symm
  | foreign packet packets hphase hpackets hpayload =>
      have hheld : s.held = packet :: packets := by
        rw [held, hphase]
        exact hpackets
      exact h.free hheld rfl rfl
  | undispatched packet packets hphase hpackets hcounted hevent =>
      have hheld : s.held = packet :: packets := by
        rw [held, hphase]
        exact hpackets
      exact h.free hheld rfl rfl
  | dispatched packet packets event hphase hpackets hcounted hevent =>
      have hheld : s.held = packet :: packets := by
        rw [held, hphase]
        exact hpackets
      exact h.of_eq rfl hheld.symm
  | submitting packet event hphase pipeline hstep => exact h.of_eq rfl rfl
  | submitted packet event hphase pipeline result hstep =>
      have hheld : s.held = packet :: s.packets := by rw [held, hphase]
      exact h.free hheld rfl rfl
  | reported hphase =>
      have hheld : s.held = s.packets := by rw [held, hphase]
      rw [report]
      split
      · exact h.of_eq rfl hheld.symm
      · exact h.of_eq rfl hheld.symm
  | finished hphase => exact h

/-! ## The counters -/

/-- The bytes of the packets for our port. -/
def countedBytes (packets : List Mbuf) : Nat :=
  ((packets.filter Receiver.counted).map Mbuf.length).sum

theorem countedBytes_concat (packets : List Mbuf) (packet : Mbuf) :
    countedBytes (packets ++ [packet]) =
      countedBytes packets + if Receiver.counted packet then packet.length else 0 := by
  rw [countedBytes, List.filter_append, List.filter_singleton, List.map_append, List.sum_append,
    countedBytes]
  cases Receiver.counted packet <;> simp

/-- Every packet for our port is in one report or in the counters. -/
structure Counts (s : LiveRuntime) : Prop where
  packets : (s.reports.map fun r => r.1.toNat).sum + s.packetCount.toNat ≡
    s.handled.countP Receiver.counted [MOD 2 ^ 64]
  bytes : (s.reports.map fun r => r.2.toNat).sum + s.byteCount.toNat ≡
    countedBytes s.handled [MOD 2 ^ 64]

theorem Counts.of_eq (h : Counts s) (hreports : s'.reports = s.reports)
    (hcounters : s'.packetCount = s.packetCount ∧ s'.byteCount = s.byteCount)
    (hhandled : s'.handled = s.handled) : Counts s' := by
  obtain ⟨hpackets, hbytes⟩ := hcounters
  exact ⟨by rw [hreports, hpackets, hhandled]; exact h.packets,
    by rw [hreports, hbytes, hhandled]; exact h.bytes⟩

theorem Counts.foreign (h : Counts s) {packet : Mbuf} (packets : List Mbuf)
    (hpayload : Receiver.payload packet = none) : Counts (s.takeUp packet packets) := by
  have hcounted : Receiver.counted packet = false := by rw [Receiver.counted, hpayload]; rfl
  refine ⟨?_, ?_⟩
  · show _ ≡ (s.handled ++ [packet]).countP Receiver.counted [MOD 2 ^ 64]
    rw [List.countP_append, List.countP_singleton, hcounted]
    exact h.packets
  · show _ ≡ countedBytes (s.handled ++ [packet]) [MOD 2 ^ 64]
    rw [countedBytes_concat, hcounted]
    exact h.bytes

theorem Counts.count (h : Counts s) {packet : Mbuf} (packets : List Mbuf)
    (hcounted : Receiver.counted packet = true) :
    Counts ((s.takeUp packet packets).count packet) := by
  refine ⟨?_, ?_⟩
  · show _ + (s.packetCount + 1).toNat ≡ (s.handled ++ [packet]).countP Receiver.counted
      [MOD 2 ^ 64]
    rw [List.countP_append, List.countP_singleton, hcounted, UInt64.toNat_add]
    have hnext := h.packets.add_right 1
    rw [Nat.add_assoc] at hnext
    exact (Nat.ModEq.add_left _ (Nat.mod_modEq _ _)).trans hnext
  · show _ + (s.byteCount + UInt64.ofNat packet.length).toNat ≡
      countedBytes (s.handled ++ [packet]) [MOD 2 ^ 64]
    rw [countedBytes_concat, hcounted, UInt64.toNat_add, UInt64.toNat_ofNat']
    have hnext := h.bytes.add_right packet.length
    rw [Nat.add_assoc] at hnext
    refine (Nat.ModEq.add_left _ ((Nat.mod_modEq _ _).trans ?_)).trans hnext
    exact Nat.ModEq.add_left _ (Nat.mod_modEq _ _)

theorem Counts.report (h : Counts s) (elapsed : Bool) : Counts (s.report elapsed) := by
  rw [LiveRuntime.report]
  split
  · refine ⟨?_, ?_⟩
    · dsimp only
      rw [List.map_append, List.sum_append]
      simpa using h.packets
    · dsimp only
      rw [List.map_append, List.sum_append]
      simpa using h.bytes
  · exact h.of_eq rfl ⟨rfl, rfl⟩ rfl

theorem Counts.main (h : Counts s) (hmove : Move s answer s') : Counts s' := by
  cases hmove with
  | foreign packet packets hphase hpackets hpayload =>
      exact (h.foreign packets hpayload).of_eq rfl ⟨rfl, rfl⟩ rfl
  | undispatched packet packets hphase hpackets hcounted hevent
  | dispatched packet packets event hphase hpackets hcounted hevent =>
      exact (h.count packets hcounted).of_eq rfl ⟨rfl, rfl⟩ rfl
  | reported hphase => exact h.report answer.elapsed
  | finished hphase => exact h
  | setUp | control | returned | burst | burstDone | submitting | submitted =>
      exact h.of_eq rfl ⟨rfl, rfl⟩ rfl

/-! ## What is offered to the pipeline -/

/-- What the packets at hand have yet to bring. -/
def toOffer (s : LiveRuntime) : List MarketDataEvent :=
  (match s.phase with
    | .submit _ event =>
        match s.pipeline.control with
        | .idle => [event]
        | _ => []
    | _ => []) ++ s.packets.filterMap Receiver.event

/-- What was received is what the pipeline has been offered and what is still to be. -/
structure Feeding (s : LiveRuntime) : Prop where
  fed : ∃ offered, s.pipeline.Fed offered ∧
    s.received.filterMap Receiver.event = offered ++ s.toOffer
  idle : s.phase.calling = false → s.pipeline.control = .idle
  submitting : ∀ packet event, s.phase = .submit packet event →
    s.pipeline.Pushes (.submit event) event

theorem toOffer_eq (h : ∀ packet event, s.phase ≠ .submit packet event) :
    s.toOffer = s.packets.filterMap Receiver.event := by
  rw [toOffer]
  cases hphase : s.phase with
  | submit packet event => exact absurd hphase (h packet event)
  | _ => rfl

theorem feeding_init (buffer : Fin QueueCapacity → MarketDataEvent) : Feeding (init buffer) where
  fed := ⟨[], fed_init buffer, rfl⟩
  idle := fun _ => rfl
  submitting := fun packet event h => by cases h

theorem Feeding.worker (h : Feeding s) :
    Feeding { s with pipeline := s.pipeline.workerStep } := by
  obtain ⟨hcontrol, -, -, -⟩ := TradingRuntime.workerStep_frame s.pipeline
  obtain ⟨offered, hfed, hfeed⟩ := h.fed
  refine ⟨⟨offered, hfed.worker, ?_⟩, fun hphase => ?_, fun packet event hphase => ?_⟩
  · rw [hfeed]
    simp only [toOffer, hcontrol]
  · rw [hcontrol]
    exact h.idle hphase
  · rw [Pushes, hcontrol]
    exact h.submitting packet event hphase

/-- A turn that leaves the pipeline alone and brings the loop to a phase outside its calls. -/
theorem Feeding.of_pipeline (h : Feeding s) (hcalling : s.phase.calling = false)
    (hpipeline : s'.pipeline = s.pipeline)
    (hphase : ∀ packet event, s'.phase ≠ .submit packet event)
    (hevents : ∀ offered, s.received.filterMap Receiver.event =
        offered ++ s.packets.filterMap Receiver.event →
      s'.received.filterMap Receiver.event = offered ++ s'.packets.filterMap Receiver.event) :
    Feeding s' := by
  obtain ⟨offered, hfed, hfeed⟩ := h.fed
  rw [toOffer_eq fun packet event hp => by rw [hp] at hcalling; cases hcalling] at hfeed
  refine ⟨⟨offered, hpipeline ▸ hfed, ?_⟩, fun _ => ?_, fun packet event hp =>
    absurd hp (hphase packet event)⟩
  · rw [toOffer_eq hphase]
    exact hevents offered hfeed
  · rw [hpipeline]
    exact h.idle hcalling

theorem Feeding.control (h : Feeding s) {call : PipelineCall}
    (hcall : ∀ event, call ≠ .submit event) (hreceiving : s.phase.receiving = false)
    {pipeline : MarketDataPipeline} {result : Option PipelineReturn}
    (hstep : s.pipeline.controlStep call = (pipeline, result)) :
    ∃ offered, pipeline.Fed offered ∧ s.received.filterMap Receiver.event =
      offered ++ s.packets.filterMap Receiver.event := by
  obtain ⟨offered, hfed, hfeed⟩ := h.fed
  rw [toOffer_eq fun packet event hp => by rw [hp] at hreceiving; cases hreceiving] at hfeed
  have hnext := hfed.control call
  have hoffers : s.pipeline.offers call = [] := by
    cases call with
    | submit event => exact absurd rfl (hcall event)
    | start => rfl
    | stop => rfl
    | processedCount => rfl
  rw [hoffers, List.append_nil, hstep] at hnext
  exact ⟨offered, hnext, hfeed⟩

/-- The event of a packet moves from what is to be offered to what was. -/
theorem Feeding.submit (h : Feeding s) {packet : Mbuf} {event : MarketDataEvent}
    (hphase : s.phase = .submit packet event) :
    ∃ offered, (s.pipeline.controlStep (.submit event)).1.Fed offered ∧
      s.received.filterMap Receiver.event =
        offered ++ s.packets.filterMap Receiver.event := by
  obtain ⟨offered, hfed, hfeed⟩ := h.fed
  refine ⟨_, hfed.control (.submit event), ?_⟩
  rw [hfeed, toOffer, hphase, offers]
  rcases h.submitting packet event hphase with ⟨hidle, -⟩ | htry
  · rw [hidle]
    simp
  · rw [htry]
    simp

theorem Feeding.main (h : Feeding s) (hl : Looping s) (hmove : Move s answer s') :
    Feeding s' := by
  cases hmove with
  | setUp phase hreceiving hcalling hphase =>
      refine h.of_pipeline hcalling rfl (fun packet event hp => ?_) fun offered heq => heq
      dsimp only at hp
      rcases hphase with hphase | hphase
      · rw [hp] at hphase
        cases hphase
      · rw [hp] at hphase
        cases hphase
  | control call hcall hreceiving hcalling pipeline hstep =>
      obtain ⟨offered, hfed, hfeed⟩ := h.control hcall hreceiving hstep
      have hnot : ∀ packet event, s.phase ≠ .submit packet event := by
        intro packet event hp
        rw [hp] at hreceiving
        cases hreceiving
      refine ⟨⟨offered, hfed, ?_⟩, fun hc => ?_, fun packet event hp =>
        absurd hp (hnot packet event)⟩
      · rw [toOffer_eq (s := { s with pipeline := pipeline }) hnot]
        exact hfeed
      · rw [hcalling] at hc
        cases hc
  | returned call hcall hreceiving pipeline result hstep phase hphase =>
      obtain ⟨offered, hfed, hfeed⟩ := h.control hcall hreceiving hstep
      have hnot : ∀ packet event, phase ≠ .submit packet event := by
        intro packet event hp
        rw [hp] at hphase
        cases hphase
      refine ⟨⟨offered, hfed, ?_⟩, fun _ => controlStep_returns hstep, fun packet event hp =>
        absurd hp (hnot packet event)⟩
      rw [toOffer_eq hnot]
      exact hfeed
  | burst hphase =>
      have hpackets : s.packets = [] :=
        hl.between (by simp [hphase]) fun packet event => by simp [hphase]
      refine h.of_pipeline (by rw [hphase]; rfl) rfl (fun packet event hp => by cases hp)
        fun offered heq => ?_
      rw [hpackets, List.filterMap_nil, List.append_nil] at heq
      show (s.received ++ answer.packets).filterMap Receiver.event = _
      rw [List.filterMap_append, heq]
      rfl
  | burstDone hphase hpackets =>
      exact h.of_pipeline (by rw [hphase]; rfl) rfl (fun packet event hp => by cases hp)
        fun offered heq => heq
  | foreign packet packets hphase hpackets hpayload =>
      have hevent : Receiver.event packet = none := by rw [Receiver.event, hpayload]
      refine h.of_pipeline (by rw [hphase]; rfl) rfl (fun packet event hp => by cases hp)
        fun offered heq => ?_
      rw [hpackets, List.filterMap_cons_none hevent] at heq
      exact heq
  | undispatched packet packets hphase hpackets hcounted hevent =>
      refine h.of_pipeline (by rw [hphase]; rfl) rfl (fun packet event hp => by cases hp)
        fun offered heq => ?_
      rw [hpackets, List.filterMap_cons_none hevent] at heq
      exact heq
  | dispatched packet packets event hphase hpackets hcounted hevent =>
      have hidle := h.idle (by rw [hphase]; rfl)
      obtain ⟨offered, hfed, hfeed⟩ := h.fed
      rw [toOffer_eq fun packet event => by simp [hphase], hpackets,
        List.filterMap_cons_some hevent] at hfeed
      refine ⟨⟨offered, hfed, ?_⟩, fun hc => (by cases hc), fun packet' event' hp => ?_⟩
      · rw [toOffer]
        dsimp only [count, takeUp]
        rw [hidle]
        exact hfeed
      · cases hp
        exact .inl ⟨hidle, rfl⟩
  | submitting packet event hphase pipeline hstep =>
      obtain ⟨offered, hfed, hfeed⟩ := h.submit hphase
      rw [hstep] at hfed
      -- the call has not returned, so it is inside `tryPush`
      have htry : pipeline.control = .tryPush event := by
        rcases push_cases (h.submitting packet event hphase) with
          ⟨r, q, -, hpush⟩ | ⟨r, q, accepted, -, hpush⟩
        · cases hstep.symm.trans hpush
          rfl
        · cases hstep.symm.trans hpush
      refine ⟨⟨offered, hfed, ?_⟩, fun hc => ?_, fun packet' event' hp => ?_⟩
      · rw [toOffer]
        dsimp only
        rw [hphase, htry]
        exact hfeed
      · dsimp only at hc
        rw [hphase] at hc
        cases hc
      · dsimp only at hp
        rw [hphase] at hp
        cases hp
        exact .inr htry
  | submitted packet event hphase pipeline result hstep =>
      obtain ⟨offered, hfed, hfeed⟩ := h.submit hphase
      rw [hstep] at hfed
      exact ⟨⟨offered, hfed, hfeed⟩, fun _ => controlStep_returns hstep,
        fun packet' event' hp => (by cases hp)⟩
  | reported hphase =>
      have hcalling : s.phase.calling = false := by rw [hphase]; rfl
      rw [report]
      split
      · exact h.of_pipeline hcalling rfl (fun packet event hp => by cases hp) fun offered heq => heq
      · exact h.of_pipeline hcalling rfl (fun packet event hp => by cases hp) fun offered heq => heq
  | finished hphase => exact h

/-! ## Runs -/

theorem step_pipeline (s : LiveRuntime) (turn : LiveTurn) :
    (s.step turn).pipeline = s.pipeline ∨
      ∃ turn', (s.step turn).pipeline = s.pipeline.step turn' := by
  cases turn with
  | worker => exact .inr ⟨.worker, rfl⟩
  | main answer =>
      have hmove := mainStep_move s answer
      rw [step]
      generalize s.mainStep answer = s' at hmove
      cases hmove with
      | control call hcall hreceiving hcalling pipeline hstep =>
          refine .inr ⟨.control call, ?_⟩
          rw [MarketDataPipeline.step, hstep]
      | returned call hcall hreceiving pipeline result hstep phase hphase =>
          refine .inr ⟨.control call, ?_⟩
          rw [MarketDataPipeline.step, hstep]
      | submitting packet event hphase pipeline hstep =>
          refine .inr ⟨.control (.submit event), ?_⟩
          rw [MarketDataPipeline.step, hstep]
      | submitted packet event hphase pipeline result hstep =>
          refine .inr ⟨.control (.submit event), ?_⟩
          rw [MarketDataPipeline.step, hstep]
          rfl
      | reported hphase =>
          refine .inl ?_
          rw [report]
          split <;> rfl
      | setUp | burst | burstDone | foreign | undispatched | dispatched | finished =>
          exact .inl rfl

/-- All that holds of a run, whatever the driver answers. -/
structure Running (s : LiveRuntime) : Prop where
  looping : Looping s
  counts : Counts s
  feeding : Feeding s
  pipeline : s.pipeline.Inv

theorem running_init (buffer : Fin QueueCapacity → MarketDataEvent) : Running (init buffer) where
  looping := looping_init buffer
  counts := ⟨rfl, rfl⟩
  feeding := feeding_init buffer
  pipeline := inv_init buffer

theorem Running.step (h : Running s) (turn : LiveTurn) : Running (s.step turn) := by
  have hpipeline : (s.step turn).pipeline.Inv := by
    rcases s.step_pipeline turn with hsame | ⟨turn', hstep⟩
    · rw [hsame]
      exact h.pipeline
    · rw [hstep]
      exact h.pipeline.step turn'
  cases turn with
  | worker =>
      exact ⟨⟨h.looping.received, h.looping.between, h.looping.untouched⟩,
        h.counts.of_eq rfl ⟨rfl, rfl⟩ rfl, h.feeding.worker, hpipeline⟩
  | main answer =>
      have hmove := mainStep_move s answer
      exact ⟨h.looping.main hmove, h.counts.main hmove, h.feeding.main h.looping hmove, hpipeline⟩

theorem Running.run (h : Running s) (turns : List LiveTurn) : Running (s.run turns) := by
  induction turns generalizing s with
  | nil => exact h
  | cons turn turns ih => exact ih (h.step turn)

theorem Buffers.run (h : Buffers s) (hr : Running s) {turns : List LiveTurn}
    (hturns : ∀ answer, .main answer ∈ turns → Orderly answer) : Buffers (s.run turns) := by
  induction turns generalizing s with
  | nil => exact h
  | cons turn turns ih =>
      refine ih ?_ (hr.step turn) fun answer hmem => hturns answer (List.mem_cons_of_mem turn hmem)
      cases turn with
      | worker => exact h.of_eq rfl rfl
      | main answer =>
          exact h.main hr.looping (hturns answer List.mem_cons_self) (mainStep_move s answer)

/-- Whatever the driver answers, as long as a burst has at most 32 different buffers, in every
interleaving with the worker: no buffer is freed that is not held, and what is held is what is
left of the burst, which is nothing when the next one is asked for. Every packet for our port is
in one report or in the counters. `run` returns only before the first burst. -/
theorem receive_loop_accounts (buffer : Fin QueueCapacity → MarketDataEvent)
    (turns : List LiveTurn) (hturns : ∀ answer, .main answer ∈ turns → Orderly answer) :
    let s := (init buffer).run turns
    Ledger.InOrder [] s.log ∧ (Ledger.held [] s.log).Perm (s.held.map Mbuf.id) ∧
      s.held.length ≤ BurstSize ∧ (s.phase = .rxBurst → Ledger.held [] s.log = []) ∧
      s.received = s.handled ++ s.packets ∧
      (s.reports.map fun r => r.1.toNat).sum + s.packetCount.toNat ≡
        s.handled.countP Receiver.counted [MOD 2 ^ 64] ∧
      (s.reports.map fun r => r.2.toNat).sum + s.byteCount.toNat ≡
        countedBytes s.handled [MOD 2 ^ 64] ∧
      (s.phase = .stop ∨ s.phase = .finished → s.received = []) := by
  intro s
  have hrunning : Running s := (running_init buffer).run turns
  have hbuffers : Buffers s :=
    Buffers.run ⟨Ledger.Balances.empty, Nat.zero_le _⟩ (running_init buffer) hturns
  obtain ⟨hinOrder, hheld⟩ := hbuffers.balanced
  refine ⟨hinOrder, hheld, hbuffers.size, fun hphase => ?_, hrunning.looping.received,
    hrunning.counts.packets, hrunning.counts.bytes, fun hphase => ?_⟩
  · have hpackets : s.packets = [] :=
      hrunning.looping.between (by simp [hphase]) fun packet event => by simp [hphase]
    have hnothing : s.held = [] := by
      rw [held, hphase]
      exact hpackets
    rw [hnothing] at hheld
    exact hheld.eq_nil
  · refine hrunning.looping.untouched ?_
    rcases hphase with hphase | hphase
    · rw [hphase]
      rfl
    · rw [hphase]
      rfl

/-- A frame with options and padding around a message. -/
def heard (id : Nat) (message : List UInt8) : Mbuf :=
  ⟨id, .ofList (paddedFrame.bytes message), (paddedFrame.bytes message).length⟩

/-- The two messages of the sample file, in one burst. -/
def sampleBurst : DpdkAnswer where
  packets := [heard 7 (TradingRuntime.addBytes 1 'B'.toUInt8 9 100),
    heard 9 (TradingRuntime.addBytes 2 'S'.toUInt8 3 101)]

/-- The port is set up, the burst comes in, and the main thread goes on for so long. -/
def sampleTurns (more : Nat) : List LiveTurn :=
  List.replicate 11 (.main {}) ++ [.main sampleBurst] ++ List.replicate more (.main {})

theorem sampleTurns_orderly (more : Nat) :
    ∀ answer, .main answer ∈ sampleTurns more → Orderly answer := by
  have hquiet : Orderly {} := ⟨List.nodup_nil, Nat.zero_le _⟩
  intro answer hmem
  rcases List.mem_append.mp hmem with hmem | hmem
  · rcases List.mem_append.mp hmem with hmem | hmem
    · cases List.eq_of_mem_replicate hmem
      exact hquiet
    · cases List.mem_singleton.mp hmem
      exact ⟨by decide, by decide⟩
  · cases List.eq_of_mem_replicate hmem
    exact hquiet

/-- The first frame has been counted, submitted and freed; the second is still held. -/
theorem receive_loop_accounts_second_held :
    let s := (init fun _ => {}).run (sampleTurns 9)
    (Ledger.held [] s.log).Perm [9] ∧ s.handled.length = 1 ∧ s.received.length = 2 ∧
      (s.packetCount.toNat ≡ 1 [MOD 2 ^ 64]) := by
  obtain ⟨-, hheld, -, -, -, hcount, -, -⟩ :=
    receive_loop_accounts (fun _ => {}) (sampleTurns 9) (sampleTurns_orderly 9)
  have hids : (((init fun _ => {}).run (sampleTurns 9)).held.map Mbuf.id) = [9] := by
    decide +kernel
  have hreports : ((init fun _ => {}).run (sampleTurns 9)).reports = [] := by decide +kernel
  have hcounted :
      ((init fun _ => {}).run (sampleTurns 9)).handled.countP Receiver.counted = 1 := by
    decide +kernel
  rw [hids] at hheld
  rw [hreports, hcounted] at hcount
  refine ⟨hheld, by decide +kernel, by decide +kernel, ?_⟩
  simpa using hcount

end LiveRuntime

/-! ## The desk behind the receive loop -/

/-- The packet is a frame to our port around a message. -/
def Mbuf.Carries (packet : Mbuf) (message : List UInt8) : Prop :=
  message ≠ [] ∧ ∃ f : UdpFrame, message.length + (4 * f.ihl - 20) ≤ 65507 ∧
    packet.length = (f.bytes message).length ∧
    Bytes.AgreeFor packet.length packet.data (.ofList (f.bytes message))

theorem Mbuf.Carries.event {packet : Mbuf} {message : List UInt8} (h : packet.Carries message) :
    Receiver.event packet = TradingRuntime.messageEvent message := by
  obtain ⟨hne, f, hlength, hpacket, hdata⟩ := h
  have hbytes := f.length_bytes message
  rw [hpacket] at hdata
  have hheader : packet.data.StartsWith (f.header message.length) :=
    (f.startsWith_header message).of_agree (hdata.mono (by
      rw [hbytes, ← f.length_header message.length, Vector.length_toList]
      omega))
  have hmessage : Bytes.AgreeFor message.length (packet.data.drop (22 + 4 * f.ihl))
      (.ofList message) := by
    intro i hi
    exact (hdata.drop (22 + 4 * f.ihl) (by omega) i hi).trans (f.agreeFor_message message i hi)
  have hpayload : Receiver.payload packet = some ⟨22 + 4 * f.ihl, message.length⟩ := by
    rw [Receiver.payload, hpacket]
    exact UdpFrame.receive_eq hheader hlength (by omega)
  rw [Receiver.event, hpayload, TradingRuntime.messageEvent]
  exact ItchReplayDispatcher.event_congr hmessage

theorem carried_messages {packets : List Mbuf} {messages : List (List UInt8)}
    (h : List.Forall₂ Mbuf.Carries packets messages) :
    (∀ message ∈ messages, message ≠ [] ∧ message.length < 2 ^ 16) ∧
      packets.filterMap Receiver.event = messages.filterMap TradingRuntime.messageEvent := by
  induction h with
  | nil => exact ⟨fun _ hmem => absurd hmem List.not_mem_nil, rfl⟩
  | cons hcarries _ ih =>
      obtain ⟨hne, f, hlength, -⟩ := id hcarries
      refine ⟨fun message hmem => ?_, ?_⟩
      · rcases List.mem_cons.mp hmem with rfl | hmem
        · exact ⟨hne, by omega⟩
        · exact ih.1 message hmem
      · rw [List.filterMap_cons, List.filterMap_cons, hcarries.event, ih.2]

/-- What packets bring, when those for our port carry these messages. -/
theorem filterMap_event_eq {packets : List Mbuf} {messages : List (List UInt8)}
    (h : List.Forall₂ Mbuf.Carries (packets.filter Receiver.counted) messages) :
    packets.filterMap Receiver.event = fileFeed (replayFile messages) := by
  obtain ⟨hshort, hevents⟩ := carried_messages h
  rw [fileFeed_replayFile hshort, ← hevents, List.filterMap_filter]
  refine List.filterMap_congr fun packet _ => ?_
  split
  · rfl
  · next hcounted =>
      have hpayload : Receiver.payload packet = none := by
        simpa [Receiver.counted] using hcounted
      rw [Receiver.event, hpayload]

namespace LiveRuntime

/-- In every interleaving of the receive loop and the worker, whatever the driver answers, over
packets whose events a book can hold and every transport, the components behind the pipeline
have never faulted and are where the reference desk is after the events consumed. These are a
part of what was received, and if the packets for our port carry messages, of what a replay of
a file with these messages reads. -/
theorem live_desk_follows_reference {τ : Type} {strategy : IStrategy} {decision : Decision}
    (hsees : Sees strategy decision) (send : OuchTransport τ) (transport : τ)
    (stdHash : OrderId → Nat) (buffer : Fin QueueCapacity → MarketDataEvent)
    (turns : List LiveTurn)
    (hfit : FitFeed (((init buffer).run turns).received.filterMap Receiver.event)) :
    let s := (init buffer).run turns
    s.pipeline.consumed.Sublist (s.received.filterMap Receiver.event) ∧
      (∃ desk, (TradingDesk.init stdHash transport).consumeAll strategy send s.pipeline.consumed =
          .ok desk ∧
        Follows desk ((ReferenceDesk.init transport).run decision send s.pipeline.consumed)) ∧
      ∀ messages, List.Forall₂ Mbuf.Carries (s.received.filter Receiver.counted) messages →
        s.received.filterMap Receiver.event = fileFeed (replayFile messages) := by
  intro s
  have hrunning : Running s := (running_init buffer).run turns
  obtain ⟨offered, hfed, hfeed⟩ := hrunning.feeding.fed
  have hsub : s.pipeline.consumed.Sublist (s.received.filterMap Receiver.event) := by
    rw [hfeed]
    exact (hfed.consumed hrunning.pipeline).trans (List.sublist_append_left _ _)
  exact ⟨hsub, Follows.of_fit hsees send stdHash transport (hfit.sublist hsub),
    fun messages hcarried => filterMap_event_eq hcarried⟩

open MarketDataStrategyConsumer in
/-- Both frames are consumed, and one order is sent for ten at the best offer. -/
theorem live_desk_follows_reference_sample_burst :
    let s := (init fun _ => {}).run (sampleTurns 18 ++ List.replicate 15 .worker)
    ∃ desk, (TradingDesk.init UInt64.toNat {}).consumeAll (runtimeStrategy Rat).onMarketData
        RecordingOuchTransport.send s.pipeline.consumed = .ok desk ∧
      (desk.gateway.riskManager.position 1001).toInt = 10 ∧
      desk.gateway.executionSink.next = 2 := by
  have hfeed : ((init fun _ => {}).run
      (sampleTurns 18 ++ List.replicate 15 .worker)).received.filterMap Receiver.event =
      fileFeed TradingRuntime.sampleFile := by decide +kernel
  have hevents : ((init fun _ => {}).run
      (sampleTurns 18 ++ List.replicate 15 .worker)).pipeline.consumed =
      fileFeed TradingRuntime.sampleFile := by decide +kernel
  obtain ⟨-, ⟨desk, hok, hfollows⟩, -⟩ := live_desk_follows_reference (runtimeStrategy Rat).sees
    RecordingOuchTransport.send {} UInt64.toNat (fun _ => {})
    (sampleTurns 18 ++ List.replicate 15 .worker) (by
      rw [hfeed]
      exact TradingRuntime.sampleFile_fit)
  intro s
  refine ⟨desk, hok, ?_, ?_⟩
  · rw [hfollows.counted 1001, hevents]
    decide +kernel
  · rw [hfollows.next, hevents]
    decide +kernel

end LiveRuntime

end OpenHft
