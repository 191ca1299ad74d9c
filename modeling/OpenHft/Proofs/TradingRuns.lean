import OpenHft.Proofs.DeskReference
import OpenHft.Proofs.PipelineFed
import OpenHft.Proofs.StrategySymbols

/-!
# Trading on a replay

The whole of `trading_runtime --mode replay`: the main thread reads a file and feeds the
pipeline, the worker runs the desk. Messages are dropped when the queue is full, and which
ones depends on the interleaving; so what the desk sees is some part of the file, in the
order of the file. A feed that the book can hold stays one when events are left out, and so
the desk follows its reference in every interleaving, over every transport.
-/

namespace OpenHft

open OpenHft.Lib Replay

/-! ## Feeds that a book can hold -/

/-- The id that an event brings to the book. -/
def MarketDataEvent.brings (event : MarketDataEvent) : Option OrderId :=
  match event.type with
  | .addOrder => some event.orderId
  | .replaceOrder => some event.newOrderId
  | _ => none

/-- Prices are in range and no id is brought twice. -/
structure FitFeed (events : List MarketDataEvent) : Prop where
  prices : ∀ event ∈ events, MarketDataBookConsumer.bringsPrice event = true →
    ValidPrice event.price
  ids : (events.filterMap MarketDataEvent.brings).Nodup

theorem FitFeed.sublist {events events' : List MarketDataEvent} (h : FitFeed events)
    (hsub : events'.Sublist events) : FitFeed events' where
  prices := fun event hmem => h.prices event (hsub.subset hmem)
  ids := h.ids.sublist (hsub.filterMap _)

/-- The ids that are live after an event were live before, but for the one it brings. -/
theorem mem_step_id {live : List OrderData} {event : MarketDataEvent} {o : OrderData}
    {capacity : Nat} (ho : o ∈ step capacity live event) :
    (∃ x ∈ live, x.id = o.id) ∨ event.brings = some o.id := by
  have hreduce : o ∈ reduce live event.orderId event.quantity → ∃ x ∈ live, x.id = o.id := by
    intro ho
    rw [reduce] at ho
    split at ho
    · exact ⟨o, ho, rfl⟩
    · split at ho
      · exact ⟨o, ho, rfl⟩
      · split at ho
        · exact ⟨o, (mem_dropKey.mp ho).1, rfl⟩
        · obtain ⟨x, hx, rfl⟩ := List.mem_map.mp ho
          refine ⟨x, hx, ?_⟩
          split <;> rfl
  cases ht : event.type with
  | addOrder =>
      simp only [step, ht] at ho
      split at ho
      · exact .inl ⟨o, ho, rfl⟩
      · rcases List.mem_append.mp ho with ho | ho
        · exact .inl ⟨o, ho, rfl⟩
        · rw [List.mem_singleton.mp ho]
          exact .inr (by rw [MarketDataEvent.brings, ht]; rfl)
  | cancelOrder =>
      simp only [step, ht] at ho
      exact .inl (hreduce ho)
  | deleteOrder =>
      simp only [step, ht] at ho
      exact .inl ⟨o, (mem_dropKey.mp ho).1, rfl⟩
  | executeOrder =>
      simp only [step, ht] at ho
      exact .inl (hreduce ho)
  | replaceOrder =>
      simp only [step, ht, replace] at ho
      split at ho
      · exact .inl ⟨o, ho, rfl⟩
      · split at ho
        · exact .inl ⟨o, ho, rfl⟩
        · rcases List.mem_append.mp ho with ho | ho
          · exact .inl ⟨o, (mem_dropKey.mp ho).1, rfl⟩
          · rw [List.mem_singleton.mp ho]
            exact .inr (by rw [MarketDataEvent.brings, ht])

/-! ## The desk over a feed -/

section Desk

variable {τ : Type} {desk : TradingDesk τ} {d : ReferenceDesk τ} {send : OuchTransport τ}
  {strategy : IStrategy} {decision : Decision}

theorem ReferenceDesk.consume_market (decision : Decision) (send : OuchTransport τ)
    (d : ReferenceDesk τ) (event : MarketDataEvent) :
    (d.consume decision send event).market = d.market.step event := by
  rw [ReferenceDesk.consume]
  cases decision (d.market.step event) event with
  | none => rfl
  | some intent =>
      dsimp only
      rw [ReferenceDesk.submit]
      split <;> rfl

theorem Follows.consumeAll (h : Follows desk d) (hsees : Sees strategy decision)
    {events : List MarketDataEvent} (hfit : FitFeed events)
    (hnew : ∀ o ∈ d.market.live, o.id ∉ events.filterMap MarketDataEvent.brings) :
    ∃ desk', desk.consumeAll strategy send events = .ok desk' ∧
      Follows desk' (d.run decision send events) := by
  induction events generalizing desk d with
  | nil => exact ⟨desk, rfl, h⟩
  | cons event events ih =>
      have hprice := hfit.prices event List.mem_cons_self
      have hrest : FitFeed events := hfit.sublist (List.sublist_cons_self event events)
      have hfresh : event.type = .addOrder → find d.market.live event.orderId = none := by
        intro ht
        have hbrings : event.brings = some event.orderId := by rw [MarketDataEvent.brings, ht]
        refine lookup_eq_none_iff.mpr fun o ho hid => hnew o ho ?_
        rw [List.filterMap_cons_some hbrings, hid]
        exact List.mem_cons_self
      obtain ⟨desk₁, hok, h₁⟩ := h.consume send hsees hprice hfresh
      have hnew₁ : ∀ o ∈ (d.consume decision send event).market.live,
          o.id ∉ events.filterMap MarketDataEvent.brings := by
        intro o ho hmem
        rw [ReferenceDesk.consume_market] at ho
        rcases mem_step_id ho with ⟨x, hx, hid⟩ | hbrings
        · refine hnew x hx ?_
          rw [hid]
          exact (List.sublist_cons_self event events).filterMap _ |>.subset hmem
        · have hids := hfit.ids
          rw [List.filterMap_cons_some hbrings] at hids
          exact (List.nodup_cons.mp hids).1 hmem
      obtain ⟨desk₂, hok₂, h₂⟩ := ih h₁ hrest hnew₁
      refine ⟨desk₂, ?_, h₂⟩
      rw [TradingDesk.consumeAll, List.foldlM_cons, hok]
      exact hok₂

/-- A fresh desk follows its reference over every feed that a book can hold. -/
theorem Follows.of_fit (hsees : Sees strategy decision) (send : OuchTransport τ)
    (stdHash : OrderId → Nat) (transport : τ) {events : List MarketDataEvent}
    (hfit : FitFeed events) :
    ∃ desk, (TradingDesk.init stdHash transport).consumeAll strategy send events = .ok desk ∧
      Follows desk ((ReferenceDesk.init transport).run decision send events) :=
  (Follows.init stdHash transport).consumeAll hsees hfit fun _ ho => absurd ho List.not_mem_nil

end Desk

/-! ## The events of a file -/

namespace ItchReplayReader

variable {reader reader' : ItchReplayReader} {message : List UInt8}

theorem read_shorter {count : Nat} {bytes : List UInt8}
    (h : reader.read count = (some bytes, reader')) :
    reader'.stream.length + count = reader.stream.length := by
  rw [read] at h
  split at h
  · cases h
  · split at h
    · next hle =>
        cases h
        rw [List.length_drop]
        omega
    · cases h

theorem readNext_shorter (h : reader.readNext = (some message, reader')) :
    reader'.stream.length < reader.stream.length := by
  rw [readNext] at h
  generalize hlength : reader.read 2 = out at h
  obtain ⟨_ | bytes, reader₁⟩ := out
  · cases h
  · dsimp only at h
    split at h
    · cases h
    · have hfirst := read_shorter hlength
      have hsecond := read_shorter h
      omega

theorem eventsIn_none (h : reader.readNext.1 = none) (calls : Nat) :
    eventsIn calls reader = [] := by
  cases calls with
  | zero => rfl
  | succ calls =>
      rw [eventsIn]
      generalize reader.readNext = out at h
      obtain ⟨result, reader'⟩ := out
      cases h
      rfl

theorem eventsIn_some (h : reader.readNext = (some message, reader')) (calls : Nat) :
    eventsIn (calls + 1) reader =
      (TradingRuntime.messageEvent message).toList ++ eventsIn calls reader' := by
  rw [eventsIn, h]

/-- As many calls as there are bytes are enough, and more give nothing more. -/
theorem eventsIn_congr {calls calls' : Nat} (h : reader.stream.length ≤ calls)
    (h' : reader.stream.length ≤ calls') : eventsIn calls reader = eventsIn calls' reader := by
  induction calls generalizing reader calls' with
  | zero =>
      have hnone : reader.readNext.1 = none := by
        cases hnext : reader.readNext with
        | mk result reader₁ =>
            cases result with
            | none => rfl
            | some message =>
                have := readNext_shorter hnext
                omega
      rw [eventsIn_none hnone, eventsIn_none hnone]
  | succ calls ih =>
      cases hnext : reader.readNext with
      | mk result reader₁ =>
          cases result with
          | none =>
              have hnone : reader.readNext.1 = none := by rw [hnext]
              rw [eventsIn_none hnone, eventsIn_none hnone]
          | some message =>
              have hshorter := readNext_shorter hnext
              cases calls' with
              | zero => omega
              | succ calls' =>
                  have hrest : eventsIn calls reader₁ = eventsIn calls' reader₁ :=
                    ih (by omega) (by omega)
                  rw [eventsIn_some hnext, eventsIn_some hnext, hrest]

theorem remaining_none (h : reader.readNext.1 = none) : reader.remaining = [] :=
  eventsIn_none h _

theorem remaining_some (h : reader.readNext = (some message, reader')) :
    reader.remaining =
      (TradingRuntime.messageEvent message).toList ++ reader'.remaining := by
  have hshorter := readNext_shorter h
  rw [remaining, eventsIn_congr (Nat.le_refl _) (Nat.le_succ _), eventsIn_some h, remaining]
  exact congrArg _ (eventsIn_congr (by omega) (Nat.le_refl _))

end ItchReplayReader

/-- The events of a file of messages. -/
theorem fileFeed_replayFile {messages : List (List UInt8)}
    (h : ∀ message ∈ messages, message ≠ [] ∧ message.length < 2 ^ 16) :
    fileFeed (replayFile messages) = messages.filterMap TradingRuntime.messageEvent := by
  induction messages with
  | nil => rfl
  | cons message messages ih =>
      obtain ⟨hne, hlength⟩ := h message List.mem_cons_self
      have hnext := ItchReplayReader.readNext_frame (List.length_pos_iff.mpr hne) hlength
        (replayFile messages)
      have hrest := ih fun m hm => h m (List.mem_cons_of_mem message hm)
      have hfile : replayFile (message :: messages) = frame message ++ replayFile messages := rfl
      rw [fileFeed, hfile, ItchReplayReader.remaining_some hnext]
      rw [fileFeed] at hrest
      rw [hrest]
      cases hevent : TradingRuntime.messageEvent message with
      | none => rw [List.filterMap_cons_none hevent]; rfl
      | some event => rw [List.filterMap_cons_some hevent]; rfl

/-! ## The replay -/

namespace TradingRuntime

open MarketDataPipeline

variable {s : TradingRuntime} {feed : List MarketDataEvent}

/-- What `main` has yet to call `submit` for. -/
def toOffer (s : TradingRuntime) : List MarketDataEvent :=
  match s.phase with
  | .start | .readNext => s.reader.remaining
  | .submit event =>
      match s.pipeline.control with
      | .idle => event :: s.reader.remaining
      | _ => s.reader.remaining
  | _ => []

/-- The file is what was offered and what is still to be. -/
structure Feeding (feed : List MarketDataEvent) (s : TradingRuntime) : Prop where
  fed : ∃ offered, s.pipeline.Fed offered ∧ feed = offered ++ s.toOffer
  reading : s.phase = .readNext → s.pipeline.control = .idle
  submitting : ∀ event, s.phase = .submit event → s.pipeline.Pushes (.submit event) event

theorem feeding_init (buffer : Fin QueueCapacity → MarketDataEvent) (file : List UInt8) :
    Feeding (fileFeed file) (init buffer file) where
  fed := ⟨[], fed_init buffer, rfl⟩
  reading := fun h => by cases h
  submitting := fun event h => by cases h

theorem Feeding.worker (h : Feeding feed s) :
    Feeding feed { s with pipeline := s.pipeline.workerStep } := by
  obtain ⟨hcontrol, -, -, -⟩ := workerStep_frame s.pipeline
  obtain ⟨offered, hfed, hfeed⟩ := h.fed
  refine ⟨⟨offered, hfed.worker, ?_⟩, fun hphase => ?_, fun event hphase => ?_⟩
  · rw [hfeed]
    simp only [toOffer, hcontrol]
  · rw [hcontrol]
    exact h.reading hphase
  · rw [Pushes, hcontrol]
    exact h.submitting event hphase

/-- A turn inside a call that is not `submit`. -/
theorem Feeding.call (h : Feeding feed s) {call : PipelineCall}
    {returned : TradingRuntime → PipelineReturn → TradingRuntime}
    (hoffers : s.pipeline.offers call = [])
    (hphase : s.phase ≠ .readNext ∧ ∀ event, s.phase ≠ .submit event)
    (hreturned : ∀ p result, ∃ s', returned { s with pipeline := p } result = s' ∧
      s'.pipeline = p ∧ (∀ event, s'.phase ≠ .submit event) ∧ s'.toOffer = s.toOffer) :
    Feeding feed (s.callPipeline call returned) := by
  obtain ⟨offered, hfed, hfeed⟩ := h.fed
  have hnext := hfed.control call
  rw [hoffers, List.append_nil] at hnext
  cases hstep : s.pipeline.controlStep call with
  | mk p result =>
      rw [hstep] at hnext
      cases result with
      | none =>
          rw [callPipeline_none hstep]
          refine ⟨⟨offered, hnext, ?_⟩, fun hp => absurd hp hphase.1, fun event hp =>
            absurd hp (hphase.2 event)⟩
          rw [hfeed, toOffer, toOffer]
          cases hp : s.phase with
          | submit event => exact absurd hp (hphase.2 event)
          | _ => rfl
      | some result =>
          obtain ⟨s', hs', hpipeline, hnot, hsame⟩ := hreturned p result
          rw [callPipeline_some hstep, hs']
          refine ⟨⟨offered, ?_, ?_⟩, fun _ => ?_, fun event hp => absurd hp (hnot event)⟩
          · rw [hpipeline]
            exact hnext
          · rw [hsame]
            exact hfeed
          · rw [hpipeline]
            exact controlStep_returns hstep

theorem Feeding.main_readNext (h : Feeding feed s) (hphase : s.phase = .readNext) :
    Feeding feed s.mainStep := by
  obtain ⟨offered, hfed, hfeed⟩ := h.fed
  have hidle := h.reading hphase
  have hrest : s.toOffer = s.reader.remaining := by rw [toOffer, hphase]
  rw [hrest] at hfeed
  cases hnext : s.reader.readNext with
  | mk result reader =>
      cases result with
      | none =>
          have hstep : s.mainStep = { s with reader := reader, phase := .wait } := by
            rw [mainStep, hphase]
            dsimp only
            rw [hnext]
          rw [ItchReplayReader.remaining_none (by rw [hnext])] at hfeed
          rw [hstep]
          exact ⟨⟨offered, hfed, hfeed⟩, fun hp => (by cases hp), fun event hp => (by cases hp)⟩
      | some message =>
          rw [ItchReplayReader.remaining_some hnext] at hfeed
          cases hevent : messageEvent message with
          | none =>
              have hstep : s.mainStep = { s with reader := reader, phase := .readNext } := by
                rw [mainStep, hphase]
                dsimp only
                rw [hnext]
                dsimp only
                rw [hevent]
              rw [hevent] at hfeed
              rw [hstep]
              exact ⟨⟨offered, hfed, hfeed⟩, fun _ => hidle, fun event hp => (by cases hp)⟩
          | some event =>
              have hstep : s.mainStep = { s with reader := reader, phase := .submit event } := by
                rw [mainStep, hphase]
                dsimp only
                rw [hnext]
                dsimp only
                rw [hevent]
              rw [hevent] at hfeed
              rw [hstep]
              refine ⟨⟨offered, hfed, ?_⟩, fun hp => (by cases hp), fun event' hp => ?_⟩
              · rw [hfeed, toOffer]
                dsimp only
                rw [hidle]
                rfl
              · cases hp
                exact .inl ⟨hidle, rfl⟩

theorem Feeding.main_submit (h : Feeding feed s) {event : MarketDataEvent}
    (hphase : s.phase = .submit event) : Feeding feed s.mainStep := by
  obtain ⟨offered, hfed, hfeed⟩ := h.fed
  have hpush := h.submitting event hphase
  have hnext := hfed.control (.submit event)
  -- the event moves from what is to be offered to what was
  have hmoved : feed = offered ++ s.pipeline.offers (.submit event) ++ s.reader.remaining := by
    rw [hfeed, toOffer, hphase, offers]
    rcases hpush with ⟨hidle, -⟩ | htry
    · rw [hidle]
      simp
    · rw [htry]
      simp
  rw [mainStep_submit hphase]
  rcases push_cases hpush with ⟨r, q, hm, hstep⟩ | ⟨r, q, accepted, hm, hstep⟩
  · rw [hstep] at hnext
    rw [callPipeline_none hstep]
    refine ⟨⟨_, hnext, ?_⟩, fun hp => ?_, fun event' hp => ?_⟩
    · rw [hmoved, toOffer, hphase]
    · cases hphase.symm.trans hp
    · cases hphase.symm.trans hp
      exact .inr rfl
  · rw [hstep] at hnext
    rw [callPipeline_some hstep]
    cases accepted with
    | true => exact ⟨⟨_, hnext, hmoved⟩, fun _ => rfl, fun event' hp => (by cases hp)⟩
    | false => exact ⟨⟨_, hnext, hmoved⟩, fun _ => rfl, fun event' hp => (by cases hp)⟩

theorem Feeding.main (h : Feeding feed s) : Feeding feed s.mainStep := by
  cases hphase : s.phase with
  | start =>
      rw [mainStep_start hphase]
      refine h.call rfl (by simp [hphase]) fun p result => ⟨_, rfl, rfl, by simp, ?_⟩
      simp only [toOffer, hphase]
  | readNext => exact h.main_readNext hphase
  | submit event => exact h.main_submit hphase
  | wait =>
      rw [mainStep_wait hphase]
      refine h.call rfl (by simp [hphase]) fun p result => ?_
      have hnothing : s.toOffer = [] := by rw [toOffer, hphase]
      have hwaits : ∃ s', ({ s with pipeline := p } : TradingRuntime) = s' ∧
          s'.pipeline = p ∧ (∀ event, s'.phase ≠ .submit event) ∧ s'.toOffer = s.toOffer := by
        refine ⟨_, rfl, rfl, fun event hp => (by cases hphase.symm.trans hp), ?_⟩
        rw [hnothing, toOffer, hphase]
      cases result with
      | count value =>
          rw [waited]
          split
          · exact hwaits
          · exact ⟨_, rfl, rfl, fun event hp => (by cases hp), hnothing.symm⟩
      | started => exact hwaits
      | submitted accepted => exact hwaits
      | stopped ended => exact hwaits
  | stop =>
      rw [mainStep_stop hphase]
      refine h.call rfl (by simp [hphase]) fun p result => ⟨_, rfl, rfl, by simp, ?_⟩
      simp only [toOffer, hphase]
  | complete =>
      have hstep : s.mainStep = s := by rw [mainStep, hphase]
      rw [hstep]
      exact h

theorem Feeding.run (h : Feeding feed s) (turns : List ReplayTurn) :
    Feeding feed (s.run turns) := by
  induction turns generalizing s with
  | nil => exact h
  | cons turn turns ih =>
      cases turn with
      | main => exact ih h.main
      | worker => exact ih h.worker

theorem inv_run (h : s.pipeline.Inv) (turns : List ReplayTurn) : (s.run turns).pipeline.Inv := by
  induction turns generalizing s with
  | nil => exact h
  | cons turn turns ih => exact ih (inv_step h turn)

/-- What the worker has consumed is a part of the file, in its order. -/
theorem consumed_sublist (buffer : Fin QueueCapacity → MarketDataEvent) (file : List UInt8)
    (turns : List ReplayTurn) :
    ((init buffer file).run turns).pipeline.consumed.Sublist (fileFeed file) := by
  obtain ⟨offered, hfed, hfeed⟩ := ((feeding_init buffer file).run turns).fed
  rw [hfeed]
  exact (hfed.consumed (inv_run (inv_init buffer) turns)).trans (List.sublist_append_left _ _)

/-- In every interleaving of the two threads, over every file that a book can hold and every
transport, the components behind the pipeline have never faulted and are where the reference
desk is after the same events: the book shows its market, the risk manager has its
positions, the next order gets its number and the transport is in its state. -/
theorem desk_follows_reference {τ : Type} {strategy : IStrategy} {decision : Decision}
    (hsees : Sees strategy decision) (send : OuchTransport τ) (transport : τ)
    (stdHash : OrderId → Nat) (buffer : Fin QueueCapacity → MarketDataEvent)
    (file : List UInt8) (hfit : FitFeed (fileFeed file)) (turns : List ReplayTurn) :
    let consumed := ((init buffer file).run turns).pipeline.consumed
    consumed.Sublist (fileFeed file) ∧
      ∃ desk, (TradingDesk.init stdHash transport).consumeAll strategy send consumed = .ok desk ∧
        Follows desk ((ReferenceDesk.init transport).run decision send consumed) := by
  intro consumed
  have hsub := consumed_sublist buffer file turns
  exact ⟨hsub, Follows.of_fit hsees send stdHash transport (hfit.sublist hsub)⟩

/-- An Add Order message for the instrument of the sample feed. -/
def addBytes (id side shares price : UInt8) : List UInt8 :=
  ['A'.toUInt8] ++ List.replicate 17 0 ++ [id, side, 0, 0, 0, shares] ++
    MarketDataStrategyConsumer.aapl.toList ++ [0, 0, 0, price]

/-- Nine bid at 100 and three offered at 101. -/
def sampleFile : List UInt8 :=
  replayFile [addBytes 1 'B'.toUInt8 9 100, addBytes 2 'S'.toUInt8 3 101]

theorem sampleFile_fit : FitFeed (fileFeed sampleFile) := by
  have hprices : ∀ event ∈ fileFeed sampleFile,
      MarketDataBookConsumer.bringsPrice event = true → ValidPrice event.price := by
    decide +kernel
  have hids : ((fileFeed sampleFile).filterMap MarketDataEvent.brings).Nodup := by decide +kernel
  exact ⟨hprices, hids⟩

theorem sampleFile_wellFormed : ∀ message ∈ [addBytes 1 'B'.toUInt8 9 100,
    addBytes 2 'S'.toUInt8 3 101], WellFormed message := by
  have hadd : ∀ id side shares price, WellFormed (addBytes id side shares price) :=
    fun _ _ _ _ => ⟨⟨36, rfl, Nat.le_refl 36⟩, show 36 < 2 ^ 16 by omega⟩
  intro message hmem
  rcases List.mem_pair.mp hmem with rfl | rfl
  · exact hadd 1 'B'.toUInt8 9 100
  · exact hadd 2 'S'.toUInt8 3 101

open MarketDataStrategyConsumer in
/-- One order is sent, for ten at the best offer. -/
theorem desk_follows_reference_sample_file :
    ∃ turns desk, ((init (fun _ => {}) sampleFile).run turns).phase = .complete ∧
      (TradingDesk.init UInt64.toNat {}).consumeAll (runtimeStrategy Rat).onMarketData
        RecordingOuchTransport.send
        ((init (fun _ => {}) sampleFile).run turns).pipeline.consumed = .ok desk ∧
      (desk.gateway.riskManager.position 1001).toInt = 10 ∧
      desk.gateway.executionSink.next = 2 ∧
      desk.gateway.executionSink.transport.lastLength = 47 := by
  obtain ⟨turns, hcomplete, hconsumed⟩ := replay_drops (fun _ => {}) sampleFile_wellFormed
  obtain ⟨-, desk, hok, hfollows⟩ := desk_follows_reference (runtimeStrategy Rat).sees
    RecordingOuchTransport.send {} UInt64.toNat (fun _ => {}) sampleFile sampleFile_fit turns
  have hevents : ((init (fun _ => {}) sampleFile).run turns).pipeline.consumed =
      fileFeed sampleFile := hconsumed.trans (by decide +kernel)
  rw [hevents] at hok hfollows
  refine ⟨turns, desk, hcomplete, by rw [hevents]; exact hok, ?_, ?_, ?_⟩
  · rw [hfollows.counted 1001]
    decide +kernel
  · rw [hfollows.next]
    decide +kernel
  · rw [hfollows.transport]
    decide +kernel

end TradingRuntime

end OpenHft
