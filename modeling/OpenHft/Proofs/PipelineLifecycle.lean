import OpenHft.Proofs.PipelineCalls

/-!
# Sessions lose nothing and repeat nothing

In every interleaving the consumer has been handed a prefix of what was published, and
when `stop` has joined the worker it has been handed all of it. The counter then says how
many of them the session consumed, as far as a `std::size_t` can: a session of `2 ^ 64`
events ends with the counter at zero.
-/

namespace OpenHft

namespace MarketDataPipeline

variable {p : MarketDataPipeline}

/-! ## Sessions of any length -/

/-- A session is going on, has consumed `n` events and has nothing left to do. -/
structure Ready (p : MarketDataPipeline) (n : Nat) : Prop where
  inv : p.Inv
  control : p.control = .idle
  running : p.running = true
  worker : p.worker = some .loadRunning
  producer : p.queue.producer = .idle
  read : p.queue.published = p.queue.returned
  count : p.sinceStart = n

theorem ready_zero (buffer : Fin QueueCapacity → MarketDataEvent) :
    ∃ p, Reaches (init buffer) p ∧ Ready p 0 := by
  have hcall : CallAlone .start (init buffer) .started _ := start_alone rfl rfl rfl
  exact ⟨_, hcall.reaches, hcall.reaches.inv (inv_init buffer), rfl, rfl, rfl, rfl, rfl, rfl⟩

theorem Ready.succ {n : Nat} (h : Ready p n) (event : MarketDataEvent) :
    ∃ p', Reaches p p' ∧ Ready p' (n + 1) := by
  have hidle : p.queue.consumer = .idle := (h.inv.working h.worker).idle rfl
  have hroom : p.queue.published.length + 1 < p.queue.taken.length + QueueCapacity := by
    have htaken : p.queue.taken = p.queue.returned := by
      rw [System.taken, hidle]
      exact List.append_nil _
    have hcapacity : 1 < QueueCapacity := by decide
    rw [htaken, h.read]
    omega
  obtain ⟨queue₁, hcall, hpush⟩ :=
    submit_alone h.inv.queue h.control h.producer hroom event
  have hreach₁ := hcall.reaches
  obtain ⟨queue₂, hpass, hpop⟩ := pass_alone (hreach₁.inv h.inv) h.worker <| by
    show queue₁.published = queue₁.returned ++ [event]
    rw [hpush.published, hpush.returned, h.read]
  have hreach := hreach₁.trans hpass.reaches
  refine ⟨_, hreach, hreach.inv h.inv, rfl, h.running, ?_, ?_, ?_, ?_⟩
  · show some (Worker.next (!p.running)) = some .loadRunning
    rw [h.running]
    rfl
  · exact hpop.producer.trans hpush.producer
  · show queue₂.published = queue₂.returned
    rw [hpop.published, hpop.returned, hpush.published, hpush.returned, h.read]
  · have hstarted := h.inv.started
    have hcount : p.consumed.length - p.sessionStart = n := h.count
    show (p.consumed ++ [event]).length - p.sessionStart = n + 1
    rw [List.length_append, List.length_singleton]
    omega

theorem ready_of (buffer : Fin QueueCapacity → MarketDataEvent) (n : Nat) :
    ∃ p, Reaches (init buffer) p ∧ Ready p n := by
  induction n with
  | zero => exact ready_zero buffer
  | succ n ih =>
      obtain ⟨p, hreach, hready⟩ := ih
      obtain ⟨p', hreach', hready'⟩ := hready.succ {}
      exact ⟨p', hreach.trans hreach', hready'⟩

/-- The call of `stop`, the worker's last pass, and the turn that joins it. -/
theorem Ready.stop {n : Nat} (h : Ready p n) :
    ∃ p' p'', Reaches p p' ∧ p'.controlStep .stop = (p'', some (.stopped true)) ∧
      p''.sinceStart = n := by
  have hcall : Reaches p { p with running := false, control := .join } := by
    refine (Reaches.turn (.control .stop) rfl).trans (.turn (.control .stop) ?_)
    simp only [step, controlStep, h.control, h.running, if_true]
  obtain ⟨queue, hpass, hpop⟩ := pass_alone (hcall.inv h.inv) h.worker <| by
    show p.queue.published = p.queue.returned ++ []
    rw [h.read, List.append_nil]
  refine ⟨_, _, hcall.trans hpass.reaches, rfl, ?_⟩
  show (p.consumed ++ []).length - p.sessionStart = n
  rw [List.append_nil]
  exact h.count

theorem session_exists (buffer : Fin QueueCapacity → MarketDataEvent) (n : Nat) :
    ∃ turns p', ((init buffer).run turns).controlStep .stop =
        (p', some (.stopped true)) ∧ p'.sinceStart = n := by
  obtain ⟨p, hreach, hready⟩ := ready_of buffer n
  obtain ⟨p', p'', hreach', hstop, hcount⟩ := hready.stop
  obtain ⟨turns, rfl⟩ := hreach.trans hreach'
  exact ⟨turns, p'', hstop, hcount⟩

/-! ## What a session has done when it is over -/

theorem Inv.consumed_prefix (h : p.Inv) : p.consumed <+: p.queue.published := by
  have hreturned : p.queue.returned <+: p.queue.published :=
    (List.prefix_append _ _).trans h.queue.window.order
  refine List.IsPrefix.trans ?_ hreturned
  rw [← h.handed]
  exact List.prefix_append _ _

theorem Inv.stopped (h : p.Inv) {next : PipelineCall} {p' : MarketDataPipeline}
    (hstep : p.controlStep next = (p', some (.stopped true))) :
    p'.consumed = p'.queue.published ∧ p'.processedCount.toNat = p'.sinceStart % 2 ^ 64 := by
  obtain ⟨hw, rfl⟩ := h.joined hstep
  have hk := h.working hw
  have hcounted : p.processedCount = UInt64.ofNat p.sinceStart := by
    rw [← hk.counted]
    exact (UInt64.add_zero _).symm
  constructor
  · exact (List.append_nil _).symm.trans (hk.handed.trans hk.seen)
  · exact (congrArg UInt64.toNat hcounted).trans (UInt64.toNat_ofNat' ..)

/-- In every interleaving: nothing is lost or repeated on the way to the consumer, a
`stop` that joins leaves nothing behind and the counter says how many events the session
consumed, and no worker is ever replaced before it is joined. -/
theorem lifecycle_lossless (buffer : Fin QueueCapacity → MarketDataEvent)
    (turns : List PipelineTurn) :
    let p := (init buffer).run turns
    p.consumed <+: p.queue.published ∧
      (∀ next p', p.controlStep next = (p', some (.stopped true)) →
        p'.consumed = p'.queue.published ∧
          p'.processedCount.toNat = p'.sinceStart % 2 ^ 64) ∧
      p.control ≠ .terminated := by
  intro p
  have h : p.Inv := (inv_init buffer).run turns
  refine ⟨h.consumed_prefix, fun next p' hstep => h.stopped hstep, fun hc => ?_⟩
  have hsession := h.session
  rw [hc] at hsession
  exact hsession

/-- A session of three events. -/
theorem lifecycle_lossless_three_events :
    ∃ turns p', ((init fun _ => {}).run turns).controlStep .stop =
        (p', some (.stopped true)) ∧
      p'.consumed = p'.queue.published ∧ p'.processedCount.toNat = 3 := by
  obtain ⟨turns, p', hstop, hcount⟩ := session_exists (fun _ => {}) 3
  obtain ⟨hconsumed, hprocessed⟩ := (lifecycle_lossless (fun _ => {}) turns).2.1 .stop p' hstop
  rw [hcount] at hprocessed
  exact ⟨turns, p', hstop, hconsumed, hprocessed⟩

/-- After a session of `2 ^ 64` events the counter reads zero. -/
theorem session_count_wraps :
    ∃ turns p', ((init fun _ => {}).run turns).controlStep .stop =
        (p', some (.stopped true)) ∧
      p'.sinceStart = 2 ^ 64 ∧ p'.processedCount = 0 := by
  obtain ⟨turns, p', hstop, hcount⟩ := session_exists (fun _ => {}) (2 ^ 64)
  have h : ((init fun _ => {}).run turns).Inv := (inv_init _).run turns
  refine ⟨turns, p', hstop, hcount, UInt64.toNat_inj.mp ?_⟩
  rw [(h.stopped hstop).2, hcount, Nat.mod_self]
  rfl

end MarketDataPipeline

end OpenHft
