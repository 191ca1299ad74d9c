import OpenHft.Proofs.SpscFifo

/-!
# The metrics of the queue

`tryPush` computes a depth from the `tail_` it loaded before it stored `head_`. A stale
`tail_` makes this depth too large, never too small: so the mark is at or above every depth
that the queue has had, and it is one of these depths in runs in which `tail_` cannot have
become stale. A push is in the queue before its depth is in the mark; while the producer is
between the two, the mark and the depth it has at hand bound the depths together.
-/

namespace OpenHft

open OpenHft.Lib SPSCRingBuffer

variable {T : Type} {Capacity : Nat}

/-- The distance of two indexes is the number of steps between them. -/
theorem distance_eq {head tail : Fin Capacity} {P K : Nat} (hhead : head.val = P % Capacity)
    (htail : tail.val = K % Capacity) (hle : K ≤ P) (hlt : P < K + Capacity) :
    distance head tail = P - K := by
  obtain ⟨count, rfl⟩ := Nat.exists_eq_add_of_le hle
  have hlt' := tail.isLt
  rw [Nat.add_mod, ← htail, Nat.mod_eq_of_lt (a := count) (by omega)] at hhead
  rw [distance, hhead]
  by_cases hturn : tail.val + count < Capacity
  · rw [Nat.mod_eq_of_lt hturn]
    split <;> omega
  · rw [Nat.mod_eq_sub_mod (by omega), Nat.mod_eq_of_lt (by omega)]
    split <;> omega

/-! ## Counters -/

/-- A push that is published and not yet counted. -/
def Producer.uncounted : Producer T Capacity → UInt64
  | .countPush _ _ _ => 1
  | _ => 0

/-- A pop that has given its slot back and is not yet counted. -/
def Consumer.uncounted : Consumer T Capacity → UInt64
  | .countPop _ => 1
  | _ => 0

section Moves

variable {r r' : SPSCRingBuffer T Capacity} {p p' : Producer T Capacity}
  {c c' : Consumer T Capacity} {next : T}

theorem ProducerMove.counts {ret : Option Bool} (hm : ProducerMove next r p r' p' ret) :
    r'.metrics.pushCount + p'.uncounted =
        r.metrics.pushCount + p.uncounted + .ofNat p.publishes.length ∧
      r'.metrics.popCount = r.metrics.popCount := by
  cases hm <;> simp [Producer.uncounted, Producer.publishes]

theorem ConsumerMove.counts {ret : Option (Option T)} (hm : ConsumerMove r c r' c' ret) :
    r'.metrics.popCount + c'.uncounted =
        r.metrics.popCount + c.uncounted + .ofNat c.takes.length ∧
      r'.metrics.pushCount = r.metrics.pushCount ∧
      r'.metrics.highWaterMark = r.metrics.highWaterMark := by
  cases hm <;> simp [Consumer.uncounted, Consumer.takes]

end Moves

/-! ## The mark -/

section Mark

variable {r r' : SPSCRingBuffer T Capacity} {p : Producer T Capacity} {depth depth' : Nat}
  {had had' : Nat → Prop}

/-- No depth that the queue has had is above. -/
def UpTo (had : Nat → Prop) (bound : Nat) : Prop := ∀ d, had d → d ≤ bound

/-- What the mark says, by phase. -/
def MarkOk (r : SPSCRingBuffer T Capacity) (depth : Nat) (had : Nat → Prop) :
    Producer T Capacity → Prop
  | .storeHead _ head tail => UpTo had r.metrics.highWaterMark ∧
      depth + 1 ≤ distance (increment head) tail ∧
      distance (increment head) tail < Capacity
  | .countPush _ head tail | .loadHighWaterMark _ head tail =>
      UpTo had (max r.metrics.highWaterMark (distance (increment head) tail)) ∧
      distance (increment head) tail < Capacity
  | .storeHighWaterMark _ currentSize previousHigh =>
      previousHigh = r.metrics.highWaterMark ∧
      UpTo had (max r.metrics.highWaterMark currentSize) ∧ currentSize < Capacity
  | _ => UpTo had r.metrics.highWaterMark

theorem UpTo.mono {bound : Nat} (h : UpTo had bound)
    (hhad : ∀ d, had' d → ∃ d', d ≤ d' ∧ had d') : UpTo had' bound := by
  intro d hd
  obtain ⟨d', hle, hd'⟩ := hhad d hd
  exact Nat.le_trans hle (h d' hd')

/-- Nothing is asked of depths that are not above earlier ones. -/
theorem MarkOk.mono (h : MarkOk r depth had p)
    (hmark : r'.metrics.highWaterMark = r.metrics.highWaterMark) (hle : depth' ≤ depth)
    (hhad : ∀ d, had' d → ∃ d', d ≤ d' ∧ had d') : MarkOk r' depth' had' p := by
  cases p with
  | storeHead value head tail =>
      obtain ⟨hup, hdist, hlt⟩ := h
      rw [MarkOk, hmark]
      exact ⟨hup.mono hhad, by omega, hlt⟩
  | countPush value head tail =>
      rw [MarkOk, hmark]
      exact ⟨h.1.mono hhad, h.2⟩
  | loadHighWaterMark value head tail =>
      rw [MarkOk, hmark]
      exact ⟨h.1.mono hhad, h.2⟩
  | storeHighWaterMark value currentSize previousHigh =>
      rw [MarkOk, hmark]
      exact ⟨h.1, h.2.1.mono hhad, h.2.2⟩
  | _ =>
      simp only [MarkOk, hmark] at h ⊢
      exact h.mono hhad

/-- The accesses of `tryPush` but for the store of `head_`, which is the only one to change the
depth. -/
theorem MarkOk.push (h : MarkOk r depth had p) (hbound : r.metrics.highWaterMark < Capacity)
    (hcheck : ∀ value head tail, p = .check value head tail → increment head ≠ tail →
      depth + 1 ≤ distance (increment head) tail ∧ distance (increment head) tail < Capacity)
    (hpub : p.publishes = []) (next : T) :
    (producerStep next r p).1.metrics.highWaterMark < Capacity ∧
      MarkOk (producerStep next r p).1 depth had (producerStep next r p).2.1 := by
  cases p with
  | idle => exact ⟨hbound, h⟩
  | loadHead value => exact ⟨hbound, h⟩
  | loadTail value head => exact ⟨hbound, h⟩
  | check value head tail =>
      rw [producerStep]
      split
      · exact ⟨hbound, h⟩
      · next hne => exact ⟨hbound, h, hcheck value head tail rfl hne⟩
  | storeHead value head tail => cases hpub
  | countPush value head tail => exact ⟨hbound, h⟩
  | loadHighWaterMark value head tail => exact ⟨hbound, rfl, h⟩
  | storeHighWaterMark value currentSize previousHigh =>
      obtain ⟨rfl, hup, hlt⟩ := h
      rw [producerStep]
      split
      · next habove =>
          rw [Nat.max_eq_right (Nat.le_of_lt habove)] at hup
          exact ⟨hlt, hup⟩
      · next hnot =>
          rw [Nat.max_eq_left (Nat.le_of_not_lt hnot)] at hup
          exact ⟨hbound, hup⟩

/-- The mark is a depth that the queue has had, and so is what will be compared with it. -/
def ExactOk (r : SPSCRingBuffer T Capacity) (had : Nat → Prop) : Producer T Capacity → Prop
  | .check _ _ tail | .storeHead _ _ tail => tail = r.tail
  | .countPush _ head tail | .loadHighWaterMark _ head tail =>
      had (distance (increment head) tail)
  | .storeHighWaterMark _ currentSize _ => had currentSize
  | _ => True

/-- The accesses of `tryPush`; a store of `head_` makes the depth at hand the depth of the
queue. -/
theorem ExactOk.push (h : ExactOk r had p) (hmark : had' r.metrics.highWaterMark)
    (hhad : ∀ d, had d → had' d)
    (hstored : ∀ value head tail, p = .storeHead value head tail → tail = r.tail →
      had' (distance (increment head) tail)) (next : T) :
    had' (producerStep next r p).1.metrics.highWaterMark ∧
      ExactOk (producerStep next r p).1 had' (producerStep next r p).2.1 := by
  cases p with
  | idle => exact ⟨hmark, trivial⟩
  | loadHead value => exact ⟨hmark, trivial⟩
  | loadTail value head => exact ⟨hmark, rfl⟩
  | check value head tail =>
      rw [producerStep]
      split
      · exact ⟨hmark, trivial⟩
      · exact ⟨hmark, h⟩
  | storeHead value head tail => exact ⟨hmark, hstored value head tail rfl h⟩
  | countPush value head tail => exact ⟨hmark, hhad _ h⟩
  | loadHighWaterMark value head tail => exact ⟨hmark, hhad _ h⟩
  | storeHighWaterMark value currentSize previousHigh =>
      rw [producerStep]
      split
      · exact ⟨hhad _ h, trivial⟩
      · exact ⟨hmark, trivial⟩

end Mark

namespace System

variable {s : System T Capacity} {had : Nat → Prop}

/-- The number of published values not yet taken. -/
def depth (s : System T Capacity) : Nat := s.unread.length

theorem depth_eq (s : System T Capacity) : s.depth = s.published.length - s.taken.length :=
  List.length_drop

theorem Inv.size_eq (h : Inv s) : s.ring.size = s.depth := by
  rw [depth_eq]
  exact distance_eq h.window.head h.window.tail h.window.order.length_le h.window.room

theorem published_push (s : System T Capacity) (next : T) :
    (s.step (.producer next)).published = s.published ++ s.producer.publishes :=
  published_afterPush (producerStep_move next s.ring s.producer)

theorem taken_pop (s : System T Capacity) :
    (s.step .consumer).taken = s.taken ++ s.consumer.takes :=
  taken_afterPop (consumerStep_move s.ring s.consumer)

theorem Inv.depth_push (h : Inv s) (next : T) :
    (s.step (.producer next)).depth = s.depth + s.producer.publishes.length := by
  have hle := h.window.order.length_le
  rw [depth_eq, depth_eq, published_push, List.length_append]
  show _ - s.taken.length = _
  omega

theorem depth_pop (s : System T Capacity) : (s.step .consumer).depth ≤ s.depth := by
  rw [depth_eq, depth_eq, taken_pop, List.length_append]
  show s.published.length - _ ≤ _
  omega

/-- Every push and every pop is counted, but for one that is under way. -/
structure Counted (s : System T Capacity) : Prop where
  pushes : s.ring.metrics.pushCount + s.producer.uncounted = .ofNat s.published.length
  pops : s.ring.metrics.popCount + s.consumer.uncounted = .ofNat s.taken.length

theorem Counted.step (h : Counted s) (turn : Turn T) : Counted (s.step turn) := by
  cases turn with
  | producer next =>
      obtain ⟨hpush, hpop⟩ := (producerStep_move next s.ring s.producer).counts
      refine ⟨?_, ?_⟩
      · rw [published_push, List.length_append, UInt64.ofNat_add, ← h.pushes]
        exact hpush
      · exact (congrArg (· + s.consumer.uncounted) hpop).trans h.pops
  | consumer =>
      obtain ⟨hpop, hpush, -⟩ := (consumerStep_move s.ring s.consumer).counts
      refine ⟨?_, ?_⟩
      · exact (congrArg (· + s.producer.uncounted) hpush).trans h.pushes
      · rw [taken_pop, List.length_append, UInt64.ofNat_add, ← h.pops]
        exact hpop

/-- A stale `tail_` makes the queue look deeper than it is. -/
theorem Inv.depth_lt_distance (h : Inv s) {value : T} {head tail : Fin Capacity}
    (hp : s.producer = .check value head tail) (hne : increment head ≠ tail) :
    s.depth + 1 ≤ distance (increment head) tail ∧
      distance (increment head) tail < Capacity := by
  have hproducer := h.producer
  rw [hp] at hproducer
  obtain ⟨hhead, K', hle, hroom, htail⟩ := hproducer
  have hroom' := room_of_ne hhead (Nat.le_refl K') hroom htail hne
  have horder := h.window.order.length_le
  rw [distance_eq (increment_val hhead) htail (by omega) hroom', depth_eq]
  omega

/-- The mark and the depths that the queue has had. -/
structure Marked (s : System T Capacity) (had : Nat → Prop) : Prop where
  bound : s.ring.metrics.highWaterMark < Capacity
  phase : MarkOk s.ring s.depth had s.producer

/-- The depths had after one more turn. -/
def hadAfter (had : Nat → Prop) (s : System T Capacity) : Nat → Prop :=
  fun d => had d ∨ d = s.depth

theorem publishes_cases (p : Producer T Capacity) :
    p.publishes = [] ∨ ∃ value head tail, p = .storeHead value head tail := by
  cases p with
  | storeHead value head tail => exact .inr ⟨value, head, tail, rfl⟩
  | _ => exact .inl rfl

theorem Marked.push (h : Marked s had) (hinv : Inv s) (hdepth : had s.depth) (next : T) :
    Marked (s.step (.producer next)) (hadAfter had (s.step (.producer next))) := by
  have hdepth' := hinv.depth_push next
  rcases publishes_cases s.producer with hpub | ⟨value, head, tail, hp⟩
  · rw [hpub, List.length_nil, Nat.add_zero] at hdepth'
    obtain ⟨hbound, hphase⟩ := h.phase.push h.bound
      (fun value head tail hp hne => hinv.depth_lt_distance hp hne) hpub next
    refine ⟨hbound, hphase.mono rfl (Nat.le_of_eq hdepth') fun d hd => ⟨d, Nat.le_refl d, ?_⟩⟩
    rcases hd with hd | rfl
    · exact hd
    · rw [hdepth']
      exact hdepth
  · have hphase := h.phase
    rw [hp] at hphase hdepth'
    obtain ⟨hup, hle, hlt⟩ := hphase
    have hstep : s.step (.producer next) =
        s.afterPush (producerStep next s.ring (.storeHead value head tail)) := by
      rw [step, hp]
    rw [hstep] at hdepth' ⊢
    refine ⟨h.bound, fun d hd => ?_, hlt⟩
    show d ≤ max s.ring.metrics.highWaterMark _
    rcases hd with hd | rfl
    · exact Nat.le_trans (hup d hd) (Nat.le_max_left _ _)
    · rw [hdepth']
      exact Nat.le_trans hle (Nat.le_max_right _ _)

theorem Marked.pop (h : Marked s had) (hdepth : had s.depth) :
    Marked (s.step .consumer) (hadAfter had (s.step .consumer)) := by
  have hmark : (s.step .consumer).ring.metrics.highWaterMark = s.ring.metrics.highWaterMark :=
    (consumerStep_move s.ring s.consumer).counts.2.2
  have hle := depth_pop s
  refine ⟨hmark.trans_lt h.bound, h.phase.mono hmark hle fun d hd => ?_⟩
  rcases hd with hd | rfl
  · exact ⟨d, Nat.le_refl d, hd⟩
  · exact ⟨s.depth, hle, hdepth⟩

/-! ## Runs in which the producer is left alone -/

/-- The producer has loaded `tail_` and has yet to store `head_`. -/
def midPush : Producer T Capacity → Prop
  | .check _ _ _ | .storeHead _ _ _ => True
  | _ => False

/-- The high water mark is a depth that the queue `had`. -/
structure Exact (s : System T Capacity) (had : Nat → Prop) : Prop where
  mark : had s.ring.metrics.highWaterMark
  phase : ExactOk s.ring had s.producer

theorem Exact.push (h : Exact s had) (hinv : Inv s) (next : T) :
    Exact (s.step (.producer next)) (hadAfter had (s.step (.producer next))) := by
  have hsize := (hinv.step (.producer next)).size_eq
  have hstored : ∀ value head tail, s.producer = .storeHead value head tail →
      tail = s.ring.tail →
      hadAfter had (s.step (.producer next)) (distance (increment head) tail) := by
    intro value head tail hp htail
    have hstep : s.step (.producer next) =
        s.afterPush (producerStep next s.ring (.storeHead value head tail)) := by
      rw [step, hp]
    refine .inr ?_
    rw [← hsize, hstep, htail]
    rfl
  obtain ⟨hmark, hphase⟩ := h.phase.push (.inl h.mark) (fun _ => .inl) hstored next
  exact ⟨hmark, hphase⟩

theorem Exact.pop (h : Exact s had) (hfree : ¬ midPush s.producer) :
    Exact (s.step .consumer) (hadAfter had (s.step .consumer)) := by
  have hmark : (s.step .consumer).ring.metrics.highWaterMark = s.ring.metrics.highWaterMark :=
    (consumerStep_move s.ring s.consumer).counts.2.2
  have hphase := h.phase
  refine ⟨.inl (by rw [hmark]; exact h.mark), ?_⟩
  show ExactOk _ _ s.producer
  cases hp : s.producer with
  | check value head tail => exact absurd (by rw [hp]; trivial) hfree
  | storeHead value head tail => exact absurd (by rw [hp]; trivial) hfree
  | countPush value head tail =>
      rw [hp] at hphase
      exact .inl hphase
  | loadHighWaterMark value head tail =>
      rw [hp] at hphase
      exact .inl hphase
  | storeHighWaterMark value currentSize previousHigh =>
      rw [hp] at hphase
      exact .inl hphase
  | _ => trivial

/-! ## Runs -/

/-- The queue has had this depth. -/
def HadDepth (s : System T Capacity) (turns : List (Turn T)) (d : Nat) : Prop :=
  ∃ front, front <+: turns ∧ (s.run front).depth = d

/-- No turn of the consumer falls between a load of `tail_` and the store of `head_`. -/
def PopsApart (s : System T Capacity) (turns : List (Turn T)) : Prop :=
  ∀ front back, turns = front ++ .consumer :: back → ¬ midPush (s.run front).producer

theorem run_concat (s : System T Capacity) (turns : List (Turn T)) (turn : Turn T) :
    s.run (turns ++ [turn]) = (s.run turns).step turn := by
  rw [run, List.foldl_append]
  rfl

theorem hadDepth_self (s : System T Capacity) (turns : List (Turn T)) :
    HadDepth s turns (s.run turns).depth := ⟨turns, List.prefix_rfl, rfl⟩

theorem hadDepth_concat (s : System T Capacity) (turns : List (Turn T)) (turn : Turn T) :
    HadDepth s (turns ++ [turn]) = hadAfter (HadDepth s turns) ((s.run turns).step turn) := by
  funext d
  refine propext ⟨?_, ?_⟩
  · rintro ⟨front, hfront, rfl⟩
    rcases List.prefix_concat_iff.mp hfront with rfl | hfront
    · exact .inr (by rw [run_concat])
    · exact .inl ⟨front, hfront, rfl⟩
  · rintro (⟨front, hfront, rfl⟩ | rfl)
    · exact ⟨front, hfront.trans (List.prefix_append _ _), rfl⟩
    · rw [← run_concat]
      exact hadDepth_self s _

theorem PopsApart.concat {turns : List (Turn T)} {turn : Turn T}
    (h : PopsApart s (turns ++ [turn])) :
    PopsApart s turns ∧ (turn = .consumer → ¬ midPush (s.run turns).producer) := by
  refine ⟨fun front back heq => h front (back ++ [turn]) ?_, ?_⟩
  · rw [heq, List.append_assoc]
    rfl
  · rintro rfl
    exact h turns [] rfl

variable (h : 1 < Capacity) (buffer : Fin Capacity → T) (turns : List (Turn T))

theorem counted_run : Counted ((init h buffer).run turns) := by
  induction turns using List.reverseRecOn with
  | nil => exact ⟨rfl, rfl⟩
  | append_singleton turns turn ih =>
      rw [run_concat]
      exact ih.step turn

theorem marked_run : Marked ((init h buffer).run turns) (HadDepth (init h buffer) turns) := by
  induction turns using List.reverseRecOn with
  | nil =>
      refine ⟨by show 0 < Capacity; omega, ?_⟩
      rintro d ⟨front, hfront, rfl⟩
      rw [List.prefix_nil.mp hfront]
      exact Nat.le_refl 0
  | append_singleton turns turn ih =>
      have hinv := (inv_init h buffer).run turns
      have hdepth := hadDepth_self (init h buffer) turns
      rw [run_concat, hadDepth_concat]
      cases turn with
      | producer next => exact ih.push hinv hdepth next
      | consumer => exact ih.pop hdepth

theorem exact_run (hapart : PopsApart (init h buffer) turns) :
    Exact ((init h buffer).run turns) (HadDepth (init h buffer) turns) := by
  induction turns using List.reverseRecOn with
  | nil => exact ⟨⟨[], List.prefix_rfl, rfl⟩, trivial⟩
  | append_singleton turns turn ih =>
      have hinv := (inv_init h buffer).run turns
      obtain ⟨hfront, hfree⟩ := hapart.concat
      rw [run_concat, hadDepth_concat]
      cases turn with
      | producer next => exact (ih hfront).push hinv next
      | consumer => exact (ih hfront).pop (hfree rfl)

end System

/-- Between two pushes the mark is at or above every depth there has been, and below the
capacity; with both sides idle the counters differ by the size; and if no turn of the consumer
falls between a load of `tail_` and the store of `head_`, the mark is a depth there has been. -/
theorem queue_metrics (h : 1 < Capacity) (buffer : Fin Capacity → T) (turns : List (Turn T)) :
    let s := (System.init h buffer).run turns
    (s.producer = .idle →
      (∀ d, System.HadDepth (System.init h buffer) turns d → d ≤ s.ring.metrics.highWaterMark) ∧
      s.ring.metrics.highWaterMark ≤ Capacity - 1) ∧
    (s.producer = .idle → s.consumer = .idle →
      s.ring.metrics.pushCount - s.ring.metrics.popCount = .ofNat s.ring.size) ∧
    (System.PopsApart (System.init h buffer) turns → s.producer = .idle →
      System.HadDepth (System.init h buffer) turns s.ring.metrics.highWaterMark) := by
  intro s
  have hinv : s.Inv := (System.inv_init h buffer).run turns
  obtain ⟨hbound, hphase⟩ := System.marked_run h buffer turns
  refine ⟨fun hidle => ⟨?_, Nat.le_sub_one_of_lt hbound⟩, fun hidle hidle' => ?_,
    fun hapart _ => (System.exact_run h buffer turns hapart).mark⟩
  · rw [show ((System.init h buffer).run turns).producer = _ from hidle] at hphase
    exact hphase
  · obtain ⟨hpushes, hpops⟩ := System.counted_run h buffer turns
    rw [show ((System.init h buffer).run turns).producer = _ from hidle] at hpushes
    rw [show ((System.init h buffer).run turns).consumer = _ from hidle'] at hpops
    rw [hinv.size_eq, System.depth_eq, UInt64.ofNat_sub hinv.window.order.length_le, ← hpushes,
      ← hpops]
    simp [Producer.uncounted, Consumer.uncounted, s]

/-- Two values pushed and one popped. -/
theorem queue_metrics_three_slots :
    ∃ s : System Nat 3, s = (System.init (by decide) fun _ => 0).run
        (List.replicate 16 (.producer 7) ++ List.replicate 6 .consumer) ∧
      s.ring.metrics.highWaterMark = 2 ∧ s.ring.metrics.highWaterMark ≤ 3 - 1 ∧
      s.ring.metrics.pushCount - s.ring.metrics.popCount = .ofNat s.ring.size := by
  obtain ⟨hmark, hcount, -⟩ := queue_metrics (by decide : 1 < 3) (fun _ => (0 : Nat))
    (List.replicate 16 (.producer 7) ++ List.replicate 6 .consumer)
  exact ⟨_, rfl, by decide, (hmark rfl).2, hcount rfl rfl⟩

end OpenHft
