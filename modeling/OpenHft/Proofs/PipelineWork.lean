import OpenHft.Proofs.RuntimeReplay

/-!
# The way of the worker

The worker of the pipeline does not wait, but it turns in circles when there is nothing to do,
and it may miss an event that is published while it looks. While the session goes on and
something is not counted, every turn brings it nearer to the counter: the turns of a `tryPop`
that is going to find its indexes equal come before those of the one that finds the event.
Behind the session every turn brings it nearer to its end.
-/

namespace OpenHft

/-! ## The way of the worker -/

section Ways

variable {T : Type} {Capacity : Nat} {r r' : SPSCRingBuffer T Capacity}
  {c c' : Consumer T Capacity}

/-- The turns of a `tryPop` to the counter, while the session goes on and so many events are
not counted. The value of one that succeeds is the last that is counted for its event; one that
will find its indexes equal comes before the counter. -/
def Consumer.toCounter (uncounted : UInt64) : Consumer T Capacity → Nat
  | .storeTail _ _ => 1
  | .check tail head => if tail = head then 8 else 2
  | .loadHead _ => if uncounted = 0 then 3 else 9
  | .loadTail => if uncounted = 0 then 4 else 10
  | .idle => if uncounted = 0 then 5 else 11
  | .countPop _ => 13

/-- The turns of a `tryPop` to its end. -/
def Consumer.toReturn : Consumer T Capacity → Nat
  | .storeTail _ _ => 2
  | .check tail head => if tail = head then 2 else 3
  | .loadHead _ => 4
  | .loadTail => 5
  | .idle => 6
  | .countPop _ => 8

/-- Each turn inside `tryPop` is one less, but for the one that takes an event. -/
theorem ConsumerMove.toCounter_lt (hm : ConsumerMove r c r' c' none) (uncounted : UInt64)
    (hload : uncounted = 0 → ∀ tail, c = .loadHead tail → tail ≠ r.head) :
    c'.toCounter uncounted < c.toCounter uncounted + 14 * c.takes.length := by
  cases hm with
  | call =>
      simp only [Consumer.toCounter]
      split_ifs <;> omega
  | loadTail =>
      simp only [Consumer.toCounter]
      split_ifs <;> omega
  | loadHead tail =>
      simp only [Consumer.toCounter]
      split_ifs with heq hzero
      · exact absurd heq (hload hzero tail rfl)
      all_goals omega
  | read tail head hne =>
      simp only [Consumer.toCounter, if_neg hne]
      omega
  | storeTail tail value =>
      simp only [Consumer.toCounter, Consumer.takes, List.length_singleton]
      omega

theorem ConsumerMove.toReturn_lt (hm : ConsumerMove r c r' c' none) :
    c'.toReturn < c.toReturn + 14 * c.takes.length := by
  cases hm with
  | call | loadTail =>
      simp only [Consumer.toReturn]
      omega
  | loadHead tail =>
      simp only [Consumer.toReturn]
      split_ifs <;> omega
  | read tail head hne =>
      simp only [Consumer.toReturn, if_neg hne]
      omega
  | storeTail tail value =>
      simp only [Consumer.toReturn, Consumer.takes, List.length_singleton]
      omega

variable {s : System T Capacity}

/-- A `tryPop` takes what is there. -/
theorem System.Inv.unread_afterPop (h : s.Inv) {ret : Option (Option T)}
    (hm : ConsumerMove s.ring s.consumer r c ret) :
    (s.afterPop (r, c, ret)).unread.length + s.consumer.takes.length = s.unread.length := by
  have htaken := taken_afterPop hm
  have horder := (h.afterPop hm).window.order.length_le
  have hpublished : (s.afterPop (r, c, ret)).published = s.published := rfl
  rw [hpublished, htaken, List.length_append] at horder
  rw [unread, unread, hpublished, htaken, List.length_drop, List.length_drop, List.length_append]
  omega

/-- The call that returns has taken its event before. -/
theorem System.Inv.unread_returned (h : s.Inv) {result : Option T}
    (hm : ConsumerMove s.ring s.consumer r c (some result)) :
    (s.afterPop (r, c, some result)).unread.length = s.unread.length := by
  have hunread := h.unread_afterPop hm
  have hnil : s.consumer.takes = [] := by
    generalize s.consumer = phase at hm
    cases hm <;> rfl
  rw [hnil] at hunread
  exact hunread

/-- A `head` that has just been loaded differs from `tail` when there is something. -/
theorem System.Inv.unread_of_loaded (h : s.Inv) {tail : Fin Capacity}
    (hc : s.consumer = .loadHead tail) (heq : tail = s.ring.head) : s.unread.length = 0 := by
  have htail := h.consumer
  rw [hc] at htail
  have hsame : s.ring.tail = s.ring.head := by
    rw [← heq]
    exact Fin.ext (h.window.tail.trans htail.symm)
  rw [unread, List.length_drop, h.tail_eq_head_iff.mp hsame, Nat.sub_self]

end Ways

/-- The turns of the worker to the counter. -/
def Worker.toCounter (c : Consumer MarketDataEvent QueueCapacity) : Worker → Nat
  | .tryPop _ n => c.toCounter n
  | .loadRunning => 6
  | .fetchAdd _ _ => 7
  | .consume _ _ _ => 12
  | .finished => 0

/-- The turns of the worker to its end, when the session is over. One that does not drain yet
has a look at `running_` before it. -/
def Worker.toFinish (c : Consumer MarketDataEvent QueueCapacity) : Worker → Nat
  | .loadRunning => 9
  | .fetchAdd draining _ => 1 + if draining then 0 else 9
  | .tryPop draining _ => c.toReturn + if draining then 0 else 9
  | .consume draining _ _ => 7 + if draining then 0 else 9
  | .finished => 0

theorem Worker.toCounter_dispatched (c : Consumer MarketDataEvent QueueCapacity) (d : Bool)
    (n : UInt64) : (Worker.dispatched d n).toCounter c < 8 := by
  rw [dispatched]
  split
  · simp [toCounter]
  · cases d <;> simp [next, toCounter]

theorem Worker.toFinish_dispatched (c : Consumer MarketDataEvent QueueCapacity) (d : Bool)
    (n : UInt64) : (Worker.dispatched d n).toFinish c < 2 + if d then 0 else 9 := by
  rw [dispatched]
  split
  · cases d <;> simp [toFinish]
  · cases d <;> simp [next, toFinish]

namespace MarketDataPipeline

variable {p : MarketDataPipeline} {w : Worker}

/-- Nothing is on its way to the counter. -/
def AllCounted (p : MarketDataPipeline) : Prop :=
  p.queue.unread.length = 0 ∧ p.queue.consumer.inFlight = [] ∧ p.held = [] ∧ p.uncounted = 0

instance : Decidable p.AllCounted := inferInstanceAs (Decidable (_ ∧ _))

/-- While the session goes on and something is not counted, a turn of the worker brings it
nearer to the counter. -/
theorem toCounter_decreases (h : p.Inv) (hw : p.worker = some w) (hdraining : w.draining = false)
    (hnot : ¬ p.AllCounted) : ∃ w', p.workerStep.worker = some w' ∧
      14 * p.workerStep.queue.unread.length + w'.toCounter p.workerStep.queue.consumer <
        14 * p.queue.unread.length + w.toCounter p.queue.consumer := by
  have hworking := h.working hw
  have hmove := workerStep_move p
  generalize p.workerStep = p' at hmove
  cases hmove with
  | none hnone => cases hnone.symm.trans hw
  | loadRunning hw' =>
      cases hw.symm.trans hw'
      refine ⟨_, rfl, ?_⟩
      show 14 * p.queue.unread.length + Consumer.toCounter 0 p.queue.consumer <
        14 * p.queue.unread.length + 6
      rw [hworking.idle rfl]
      exact Nat.add_lt_add_left (by decide) _
  | tryPop d n hw' r c hm =>
      cases hw.symm.trans hw'
      refine ⟨_, hw, ?_⟩
      have hunread := h.queue.unread_afterPop hm
      have hless := hm.toCounter_lt n fun hzero tail hload heq => by
        refine hnot ⟨h.queue.unread_of_loaded hload heq, ?_, ?_, ?_⟩
        · rw [hload]
          rfl
        · rw [held, hw]
          rfl
        · rw [uncounted, hw]
          exact hzero
      show 14 * (System.afterPop _ _).unread.length + c.toCounter n <
        14 * p.queue.unread.length + p.queue.consumer.toCounter n
      omega
  | popped d n hw' r c event hm =>
      cases hw.symm.trans hw'
      refine ⟨_, rfl, ?_⟩
      have hunread := h.queue.unread_returned hm
      have hphase : p.queue.consumer.toCounter n = 13 := by
        generalize p.queue.consumer = phase at hm
        cases hm
        rfl
      show 14 * (System.afterPop _ _).unread.length + 12 <
        14 * p.queue.unread.length + p.queue.consumer.toCounter n
      omega
  | empty d n hw' r c hm =>
      cases hw.symm.trans hw'
      refine ⟨_, rfl, ?_⟩
      have hunread := h.queue.unread_returned hm
      have hphase : p.queue.consumer.toCounter n = 8 := by
        obtain ⟨tail, hcheck⟩ := hm.found_empty
        rw [hcheck]
        exact if_pos rfl
      have hnext := Worker.toCounter_dispatched c d n
      show 14 * (System.afterPop _ _).unread.length + (Worker.dispatched d n).toCounter c <
        14 * p.queue.unread.length + p.queue.consumer.toCounter n
      omega
  | consume d n event hw' =>
      cases hw.symm.trans hw'
      refine ⟨_, rfl, ?_⟩
      show 14 * p.queue.unread.length + p.queue.consumer.toCounter (n + 1) <
        14 * p.queue.unread.length + 12
      rw [hworking.idle rfl, Consumer.toCounter]
      split_ifs <;> omega
  | fetchAdd d n hw' =>
      cases hw.symm.trans hw'
      refine ⟨_, rfl, ?_⟩
      cases hdraining
      exact Nat.add_lt_add_left (show 6 < 7 by omega) _
  | finished hw' =>
      cases hw.symm.trans hw'
      cases hdraining

/-- When all is counted, the worker turns in circles. -/
theorem allCounted_workerStep (h : p.Inv) (hall : p.AllCounted) : p.workerStep.AllCounted := by
  obtain ⟨hunread, hinFlight, hheld, huncounted⟩ := hall
  have hmove := workerStep_move p
  generalize p.workerStep = p' at hmove
  cases hmove with
  | none => exact ⟨hunread, hinFlight, hheld, huncounted⟩
  | loadRunning hw => exact ⟨hunread, hinFlight, rfl, rfl⟩
  | tryPop d n hw r c hm =>
      have hafter := h.queue.unread_afterPop hm
      refine ⟨?_, ?_, hheld, huncounted⟩
      · show (System.afterPop _ _).unread.length = 0
        omega
      · show c.inFlight = []
        have htakes : p.queue.consumer.takes.length = 0 := by omega
        generalize p.queue.consumer = phase at hm htakes
        cases hm with
        | storeTail tail value => cases htakes
        | _ => rfl
  | popped d n hw r c event hm =>
      generalize p.queue.consumer = phase at hm hinFlight
      cases hm
      cases hinFlight
  | empty d n hw r c hm =>
      rw [uncounted, hw] at huncounted
      refine ⟨(h.queue.unread_returned hm).trans hunread, ?_, Worker.held_dispatched d n, ?_⟩
      · show c.inFlight = []
        rw [hm.returns_idle]
        rfl
      · exact (Worker.uncounted_dispatched d n).trans huncounted
  | consume d n event hw =>
      rw [held, hw] at hheld
      cases hheld
  | fetchAdd d n hw =>
      exact ⟨hunread, hinFlight, Worker.held_next d, Worker.uncounted_next d⟩
  | finished => exact ⟨hunread, hinFlight, hheld, huncounted⟩

/-- When the session is over, every turn of the worker brings it nearer to its end. -/
theorem toFinish_decreases (h : p.Inv) (hrunning : p.running = false) (hw : p.worker = some w)
    (hnot : w ≠ .finished) : ∃ w', p.workerStep.worker = some w' ∧
      14 * p.workerStep.queue.unread.length + w'.toFinish p.workerStep.queue.consumer <
        14 * p.queue.unread.length + w.toFinish p.queue.consumer := by
  have hworking := h.working hw
  have hmove := workerStep_move p
  generalize p.workerStep = p' at hmove
  cases hmove with
  | none hnone => cases hnone.symm.trans hw
  | loadRunning hw' =>
      cases hw.symm.trans hw'
      refine ⟨_, rfl, ?_⟩
      show 14 * p.queue.unread.length +
        (p.queue.consumer.toReturn + if (!p.running) then 0 else 9) < 14 * p.queue.unread.length + 9
      rw [hworking.idle rfl, hrunning]
      exact Nat.add_lt_add_left (show 6 + 0 < 9 by omega) _
  | tryPop d n hw' r c hm =>
      cases hw.symm.trans hw'
      refine ⟨_, hw, ?_⟩
      have hunread := h.queue.unread_afterPop hm
      have hless := hm.toReturn_lt
      show 14 * (System.afterPop _ _).unread.length + (c.toReturn + if d then 0 else 9) <
        14 * p.queue.unread.length + (p.queue.consumer.toReturn + if d then 0 else 9)
      omega
  | popped d n hw' r c event hm =>
      cases hw.symm.trans hw'
      refine ⟨_, rfl, ?_⟩
      have hunread := h.queue.unread_returned hm
      have hphase : p.queue.consumer.toReturn = 8 := by
        generalize p.queue.consumer = phase at hm
        cases hm
        rfl
      show 14 * (System.afterPop _ _).unread.length + (7 + if d then 0 else 9) <
        14 * p.queue.unread.length + (p.queue.consumer.toReturn + if d then 0 else 9)
      omega
  | empty d n hw' r c hm =>
      cases hw.symm.trans hw'
      refine ⟨_, rfl, ?_⟩
      have hunread := h.queue.unread_returned hm
      have hphase : p.queue.consumer.toReturn = 2 := by
        obtain ⟨tail, hcheck⟩ := hm.found_empty
        rw [hcheck]
        exact if_pos rfl
      have hnext := Worker.toFinish_dispatched c d n
      show 14 * (System.afterPop _ _).unread.length + (Worker.dispatched d n).toFinish c <
        14 * p.queue.unread.length + (p.queue.consumer.toReturn + if d then 0 else 9)
      omega
  | consume d n event hw' =>
      cases hw.symm.trans hw'
      refine ⟨_, rfl, ?_⟩
      show 14 * p.queue.unread.length + (p.queue.consumer.toReturn + if d then 0 else 9) <
        14 * p.queue.unread.length + (7 + if d then 0 else 9)
      rw [hworking.idle rfl, Consumer.toReturn]
      omega
  | fetchAdd d n hw' =>
      cases hw.symm.trans hw'
      refine ⟨_, rfl, Nat.add_lt_add_left ?_ _⟩
      cases d with
      | true => exact show 0 < 1 by omega
      | false => exact show 9 < 10 by omega
  | finished hw' => exact absurd (Option.some.inj (hw.symm.trans hw')) hnot

/-! ## What the worker has to do -/

/-- The way of the worker that counts: to the counter while the session goes on, and to its end
behind it. -/
def work (p : MarketDataPipeline) : Nat :=
  match p.worker with
  | none => 0
  | some w =>
      if p.running = true then
        if p.AllCounted then 0
        else 14 * p.queue.unread.length + w.toCounter p.queue.consumer
      else 14 * p.queue.unread.length + w.toFinish p.queue.consumer

theorem work_of_counted (hrunning : p.running = true) (hall : p.AllCounted) : p.work = 0 := by
  unfold work
  split
  · rfl
  · rw [if_pos hrunning, if_pos hall]

theorem work_worker_lt (h : p.Inv) (hrunning : p.running = true) (hw : p.worker = some w)
    (hdraining : w.draining = false) (hnot : ¬ p.AllCounted) : p.workerStep.work < p.work := by
  obtain ⟨w', hw', hless⟩ := toCounter_decreases h hw hdraining hnot
  have hframe := (TradingRuntime.workerStep_frame p).2.1
  have hbefore : p.work = 14 * p.queue.unread.length + w.toCounter p.queue.consumer := by
    rw [work, hw]
    dsimp only
    rw [if_pos hrunning, if_neg hnot]
  have hafter : p.workerStep.work ≤
      14 * p.workerStep.queue.unread.length + w'.toCounter p.workerStep.queue.consumer := by
    rw [work, hw']
    dsimp only
    rw [if_pos (hframe.trans hrunning)]
    split_ifs <;> omega
  omega

theorem work_worker_finish_lt (h : p.Inv) (hrunning : p.running = false) (hw : p.worker = some w)
    (hnot : w ≠ .finished) : p.workerStep.work < p.work := by
  obtain ⟨w', hw', hless⟩ := toFinish_decreases h hrunning hw hnot
  have hframe := (TradingRuntime.workerStep_frame p).2.1.trans hrunning
  rw [work, work, hw, hw']
  dsimp only
  rw [hframe, hrunning, if_neg Bool.false_ne_true, if_neg Bool.false_ne_true]
  exact hless

/-- While the session goes on the worker does not drain. -/
theorem Inv.not_draining (h : p.Inv) (hrunning : p.running = true) (hw : p.worker = some w) :
    w.draining = false := by
  have hsession := h.session
  rw [hrunning, hw] at hsession
  have hsteady : (true = true ∧ ∃ v, some w = some v ∧ v.draining = false) ∨
      (true = false ∧ some w = none) → w.draining = false := by
    rintro (⟨-, v, hv, hd⟩ | ⟨hfalse, -⟩)
    · cases hv
      exact hd
    · cases hfalse
  cases hc : p.control with
  | resetCount | createWorker =>
      rw [hc] at hsession
      cases hsession.2
  | join =>
      rw [hc] at hsession
      cases hsession.1
  | terminated =>
      rw [hc] at hsession
      cases hsession
  | _ =>
      rw [hc] at hsession
      exact hsteady hsession

/-- A turn of the worker brings it nearer, or it has nothing to do. -/
theorem work_worker (h : p.Inv) : p.workerStep.work < p.work ∨
    p.running = true ∧ p.AllCounted ∨
      p.workerStep = p ∧ (p.worker = none ∨ p.running = false ∧ p.worker = some .finished) := by
  cases hw : p.worker with
  | none => exact .inr (.inr ⟨by rw [workerStep, hw], .inl rfl⟩)
  | some w =>
      cases hrunning : p.running with
      | true =>
          by_cases hall : p.AllCounted
          · exact .inr (.inl ⟨rfl, hall⟩)
          · exact .inl (work_worker_lt h hrunning hw (h.not_draining hrunning hw) hall)
      | false =>
          by_cases hfinished : w = .finished
          · subst hfinished
            exact .inr (.inr ⟨by rw [workerStep, hw], .inr ⟨rfl, rfl⟩⟩)
          · exact .inl (work_worker_finish_lt h hrunning hw hfinished)

/-- The counter has come to what was published, once all is counted. -/
theorem processedCount_of_counted (h : p.Inv) (hc : Steady p.control)
    (hstart : p.sessionStart = 0) (hall : p.AllCounted) :
    p.processedCount = UInt64.ofNat p.queue.published.length := by
  obtain ⟨hunread, hinFlight, hheld, huncounted⟩ := hall
  have hconsumed : p.consumed = p.queue.taken := by
    rw [System.taken, hinFlight, List.append_nil, ← h.handed, hheld, List.append_nil]
  have hlength : p.queue.taken.length = p.queue.published.length := by
    have horder := h.queue.window.order.length_le
    rw [System.unread, List.length_drop] at hunread
    omega
  have hcounted := h.counted
  rw [counter_of_steady hc, huncounted, UInt64.add_zero, sinceStart, hstart, hconsumed,
    hlength] at hcounted
  exact hcounted

end MarketDataPipeline

end OpenHft
