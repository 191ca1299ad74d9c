import OpenHft.Proofs.RuntimeReplay

/-!
# What a pipeline is fed

Whoever drives a pipeline calls `submit` for one event after the other and may find the
queue full. The events of these calls are what was offered; what is published is a part of
it, in the same order, and so is what the worker consumes. This does not depend on who
drives: the replay of a file and the receiver of a network card are two that do.
-/

namespace OpenHft

open OpenHft.Lib SPSCRingBuffer

namespace MarketDataPipeline

variable {p : MarketDataPipeline} {offered : List MarketDataEvent}

/-- What a turn of the controlling thread begins to submit. -/
def offers (p : MarketDataPipeline) : PipelineCall → List MarketDataEvent
  | .submit event =>
      match p.control with
      | .idle => [event]
      | _ => []
  | _ => []

/-- The event of a `submit` that has not returned, if it may still be published. -/
def due (p : MarketDataPipeline) : List MarketDataEvent :=
  match p.control with
  | .tryPush event => p.queue.producer.due event
  | _ => []

/-- `submit` has been called for these events, the last time maybe without having
returned. -/
structure Fed (p : MarketDataPipeline) (offered : List MarketDataEvent) : Prop where
  published : (p.queue.published ++ p.due).Sublist offered
  idle : (∀ event, p.control ≠ .tryPush event) → p.queue.producer = .idle

theorem fed_init (buffer : Fin QueueCapacity → MarketDataEvent) : Fed (init buffer) [] where
  published := List.Sublist.refl []
  idle := fun _ => rfl

theorem Fed.worker (h : Fed p offered) : Fed p.workerStep offered := by
  obtain ⟨hcontrol, -, hproducer, hpublished⟩ := TradingRuntime.workerStep_frame p
  refine ⟨?_, ?_⟩
  · rw [due, hcontrol, hproducer, hpublished]
    exact h.published
  · rw [hcontrol, hproducer]
    exact h.idle

/-- A turn that leaves the queue alone, from a phase outside `tryPush` to another. -/
theorem Fed.of_queue {p' : MarketDataPipeline} (h : Fed p offered)
    (hqueue : p'.queue = p.queue) (hfrom : ∀ event, p.control ≠ .tryPush event)
    (hto : ∀ event, p'.control ≠ .tryPush event) : Fed p' offered := by
  have hnone : ∀ q : MarketDataPipeline, (∀ event, q.control ≠ .tryPush event) → q.due = [] := by
    intro q hq
    rw [due]
    cases hc : q.control with
    | tryPush event => exact absurd hc (hq event)
    | _ => rfl
  refine ⟨?_, fun _ => ?_⟩
  · have hpublished := h.published
    rw [hnone p hfrom] at hpublished
    rw [hnone p' hto, hqueue]
    exact hpublished
  · rw [hqueue]
    exact h.idle hfrom

theorem Fed.push (h : Fed p offered) {next : PipelineCall} {event : MarketDataEvent}
    (hpush : p.Pushes next event) :
    (p.queue.published ++ p.queue.producer.due event).Sublist (offered ++ p.offers next) := by
  rcases hpush with ⟨hidle, rfl⟩ | htry
  · have hproducer := h.idle fun event hc => by rw [hidle] at hc; cases hc
    have hpublished := h.published
    rw [due, hidle, List.append_nil] at hpublished
    rw [offers, hidle, hproducer]
    exact hpublished.append_right [event]
  · have hpublished := h.published
    rw [due, htry] at hpublished
    exact hpublished.trans (List.sublist_append_left offered _)

theorem Fed.control (h : Fed p offered) (next : PipelineCall) :
    Fed (p.controlStep next).1 (offered ++ p.offers next) := by
  have hmove := controlStep_move p next
  -- outside `tryPush` nothing is published, and what is offered now comes on top
  have hkeep {p' : MarketDataPipeline} (hqueue : p'.queue = p.queue)
      (hfrom : ∀ event, p.control ≠ .tryPush event)
      (hto : ∀ event, p'.control ≠ .tryPush event) : Fed p' (offered ++ p.offers next) := by
    obtain ⟨hpublished, hidle⟩ := h.of_queue hqueue hfrom hto
    exact ⟨hpublished.trans (List.sublist_append_left offered _), hidle⟩
  generalize (p.controlStep next).1 = p', (p.controlStep next).2 = ret at hmove ⊢
  cases hmove with
  | call c hc hcall =>
      refine hkeep rfl (fun event => by rw [hc]; exact fun h => by cases h) fun event hto => ?_
      have hto : c = .tryPush event := hto
      subst hto
      cases hcall
  | push event hpush r q hm =>
      refine ⟨?_, fun hnot => absurd rfl (hnot event)⟩
      have hsub := h.push hpush
      rw [← hm.due, ← List.append_assoc, ← System.published_afterPush hm] at hsub
      exact hsub
  | pushed event hpush r q accepted hm =>
      refine ⟨?_, fun _ => hm.returns_idle⟩
      have hsub := h.push hpush
      show ((p.queue.afterPush (r, q, some accepted)).published ++ []).Sublist _
      rw [List.append_nil, System.published_afterPush hm]
      cases accepted with
      | true =>
          rw [hm.due_of_true]
          exact hsub
      | false =>
          have hnothing : p.queue.producer.publishes = [] := by
            generalize p.queue.producer = phase at hm
            cases hm
            rfl
          rw [hnothing, List.append_nil]
          exact (List.sublist_append_left _ _).trans hsub
  | alreadyRunning hc | begin hc | resetCount hc | createWorker hc | terminate _ hc
  | notRunning hc | finish hc | notJoinable hc | joined hc | blocked hc | loadCount hc
  | terminated hc =>
      refine hkeep rfl (fun event => by rw [hc]; exact fun h => by cases h) fun event hto => ?_
      first
        | cases hto
        | (rw [hc] at hto; cases hto)

/-- A call returns to an idle controlling thread. -/
theorem controlStep_returns {next : PipelineCall} {p' : MarketDataPipeline}
    {result : PipelineReturn} (h : p.controlStep next = (p', some result)) :
    p'.control = .idle := by
  have hmove := controlStep_move p next
  rw [h] at hmove
  generalize hret : some result = ret at hmove
  cases hmove <;> first | rfl | cases hret

/-- What the worker has consumed is a part of what was offered. -/
theorem Fed.consumed (h : Fed p offered) (hinv : p.Inv) : p.consumed.Sublist offered :=
  hinv.consumed_prefix.sublist.trans ((List.sublist_append_left _ _).trans h.published)

end MarketDataPipeline

end OpenHft
