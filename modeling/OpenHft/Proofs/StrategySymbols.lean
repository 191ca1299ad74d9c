import OpenHft.Proofs.DeskReference
import OpenHft.Proofs.WirePrices

/-!
# The symbol of a strategy's order

The strategy is asked after every event and puts the event's symbol on its order. Of the
five messages only Add Order has a symbol; the events of the others keep the eight zero
bytes an event starts with. So an order that is sent on a cancel, a delete, an execution or
a replacement is for no instrument at all, while the price is that of the book. Orders name
the instrument of the feed exactly as long as no message of these four kinds leaves a book
that the strategy acts on. Over a feed that the book can hold, the book is the market of the
live orders, and the condition is one on the feed alone.
-/

namespace OpenHft

open OpenHft.Lib

/-- Eight zero bytes. -/
def noSymbol : Symbol := Vector.replicate 8 0

/-- The symbol of the event of a message that is not an Add Order. -/
theorem ItchReplayDispatcher.event_symbol {message : Bytes} {length : Nat}
    {event : MarketDataEvent} (h : ItchReplayDispatcher.event message length = some event)
    (htype : event.type ≠ .addOrder) : event.symbol = noSymbol := by
  unfold ItchReplayDispatcher.event at h
  split at h
  · cases h
  split at h
  · obtain ⟨order, -, rfl⟩ := Option.map_eq_some_iff.mp h
    exact absurd rfl htype
  split at h
  · obtain ⟨cancel, -, rfl⟩ := Option.map_eq_some_iff.mp h
    rfl
  split at h
  · obtain ⟨deletion, -, rfl⟩ := Option.map_eq_some_iff.mp h
    rfl
  split at h
  · obtain ⟨execution, -, rfl⟩ := Option.map_eq_some_iff.mp h
    rfl
  split at h
  · obtain ⟨replacement, -, rfl⟩ := Option.map_eq_some_iff.mp h
    rfl
  · cases h

namespace MarketDataStrategyConsumer

variable {strategy : IStrategy} {c c' : MarketDataBookConsumer} {message : ItchMessage}
  {event : MarketDataEvent}

theorem receive_eq (strategy : IStrategy) (c : MarketDataBookConsumer) (message : ItchMessage) :
    receive strategy c message =
      match ItchReplayDispatcher.event message.data message.length with
      | none => .ok (none, c)
      | some event => consume strategy c event := by
  rw [receive, ItchReplayDispatcher.dispatch]
  cases ItchReplayDispatcher.event message.data message.length <;> rfl

/-- Something holds of all intents of a run if it does at every step. -/
theorem forall_intents_iff {P : OrderIntent → Prop} (messages : List ItchMessage) :
    (∀ intent ∈ intents strategy c messages, P intent) ↔
      StepsMeet (step strategy) (fun c message => ∀ intent c',
        receive strategy c message = .ok (some intent, c') → P intent) c messages := by
  induction messages generalizing c with
  | nil => exact ⟨fun _ => trivial, fun _ _ h => absurd h List.not_mem_nil⟩
  | cons message messages ih =>
      rw [intents, StepsMeet, step]
      cases hreceive : receive strategy c message with
      | error fault => simp [Except.map]
      | ok out =>
          obtain ⟨intent, c₁⟩ := out
          simp only [List.forall_mem_append, ih]
          refine and_congr ⟨fun h i c' heq => ?_, fun h i hi => ?_⟩
            ⟨fun h c' heq => ?_, fun h => h c₁ rfl⟩
          · cases heq
            exact h i (by simp)
          · cases Option.mem_toList.mp hi
            exact h i c₁ rfl
          · cases heq
            exact h

end MarketDataStrategyConsumer

theorem MicrostructureStrategy.onMarketData_symbol {D : Type} [DoubleArith D]
    {strategy : MicrostructureStrategy D} {marketView : ArrayOrderBook}
    {event : MarketDataEvent} {intent : OrderIntent}
    (h : strategy.onMarketData marketView event = .ok (some intent)) :
    intent.symbol = event.symbol := by
  obtain ⟨features, -, h⟩ := bind_eq_ok.mp h
  cases features with
  | none => cases h
  | some market =>
      dsimp only at h
      split at h
      · cases h
        rfl
      · split at h
        · cases h
          rfl
        · cases h

namespace MarketDataStrategyConsumer

variable {strategy : IStrategy} {c c' : MarketDataBookConsumer} {message : ItchMessage}
  {event : MarketDataEvent} {intent : OrderIntent}

theorem receive_some_iff :
    receive strategy c message = .ok (some intent, c') ↔
      ∃ event, ItchReplayDispatcher.event message.data message.length = some event ∧
        consume strategy c event = .ok (some intent, c') := by
  rw [receive_eq]
  cases ItchReplayDispatcher.event message.data message.length with
  | none => simp
  | some event => simp

theorem consume_symbol {D : Type} [DoubleArith D] {strategy : MicrostructureStrategy D}
    (h : consume strategy.onMarketData c event = .ok (some intent, c')) :
    intent.symbol = event.symbol := by
  obtain ⟨c₁, -, h⟩ := bind_eq_ok.mp h
  obtain ⟨answer, hanswer, h⟩ := bind_eq_ok.mp h
  cases h
  exact MicrostructureStrategy.onMarketData_symbol hanswer

end MarketDataStrategyConsumer

section Acts

variable {D : Type} [DoubleArith D]

/-- There are features to score, and the score is beyond one of the thresholds. -/
def MicrostructureStrategy.Acts (strategy : MicrostructureStrategy D)
    (features : Option (MarketFeatures D)) : Prop :=
  ∃ market ∈ features, strategy.signalModel market ≥ strategy.buyScoreThreshold ∨
    strategy.signalModel market ≤ strategy.sellScoreThreshold

instance (strategy : MicrostructureStrategy D) :
    ∀ features, Decidable (strategy.Acts features)
  | none => .isFalse fun ⟨_, h, _⟩ => nomatch h
  | some market => decidable_of_iff (strategy.signalModel market ≥ strategy.buyScoreThreshold ∨
      strategy.signalModel market ≤ strategy.sellScoreThreshold)
      ⟨fun h => ⟨market, rfl, h⟩, fun ⟨_, hm, h⟩ => Option.some.inj hm ▸ h⟩

/-- The book has two sides, and the score of what it shows is beyond a threshold. -/
def MicrostructureStrategy.ActsOn (strategy : MicrostructureStrategy D)
    (book : ArrayOrderBook) : Prop :=
  ∃ features, MarketFeatureExtractor.extract book = .ok features ∧ strategy.Acts features

/-- What the event has to offer for an order to go out is a book to act on. -/
theorem MicrostructureStrategy.onMarketData_some_iff (strategy : MicrostructureStrategy D)
    {book : ArrayOrderBook} (event : MarketDataEvent) :
    (∃ intent, strategy.onMarketData book event = .ok (some intent)) ↔ strategy.ActsOn book := by
  rw [onMarketData, ActsOn]
  cases hextract : (MarketFeatureExtractor.extract book : Except Fault (Option (MarketFeatures D)))
    with
  | error fault => simp [bind, Except.bind]
  | ok features =>
      cases features with
      | none => simp [bind, Except.bind, pure, Except.pure, Acts]
      | some market =>
          by_cases hbuy : strategy.signalModel market ≥ strategy.buyScoreThreshold
          · simp [bind, Except.bind, pure, Except.pure, Acts, hbuy]
          · by_cases hsell : strategy.signalModel market ≤ strategy.sellScoreThreshold
            · simp [bind, Except.bind, pure, Except.pure, Acts, hbuy, hsell]
            · simp [bind, Except.bind, pure, Except.pure, Acts, hbuy, hsell]

end Acts

namespace MarketDataStrategyConsumer

section Conditions

variable {D : Type} [DoubleArith D] {strategy : MicrostructureStrategy D}
  {c c' : MarketDataBookConsumer} {message : ItchMessage} {event : MarketDataEvent}
  {messages : List ItchMessage}

/-- Applied to this book, a message that is not an Add Order does not leave one that the
strategy acts on. -/
def LeavesQuiet (strategy : MicrostructureStrategy D) (c : MarketDataBookConsumer)
    (message : ItchMessage) : Prop :=
  ∀ event c', ItchReplayDispatcher.event message.data message.length = some event →
    event.type ≠ .addOrder → c.consume event = .ok c' → ¬ strategy.ActsOn c'.book

/-- The same of a market of live orders. -/
def QuietEvent (strategy : MicrostructureStrategy D) (m : Market) (event : MarketDataEvent) :
    Prop :=
  event.type ≠ .addOrder → ¬ strategy.Acts ((m.step event).features D)

instance (strategy : MicrostructureStrategy D) (m : Market) (event : MarketDataEvent) :
    Decidable (QuietEvent strategy m event) :=
  inferInstanceAs (Decidable (_ → _))

/-- The events of the messages. -/
def feedOf (messages : List ItchMessage) : List MarketDataEvent :=
  messages.filterMap fun message => ItchReplayDispatcher.event message.data message.length

theorem consume_some_iff :
    (∃ intent, consume strategy.onMarketData c event = .ok (some intent, c')) ↔
      c.consume event = .ok c' ∧ strategy.ActsOn c'.book := by
  rw [← strategy.onMarketData_some_iff event]
  constructor
  · rintro ⟨intent, h⟩
    obtain ⟨c₁, hbook, h⟩ := bind_eq_ok.mp h
    obtain ⟨answer, hanswer, h⟩ := bind_eq_ok.mp h
    cases h
    exact ⟨hbook, intent, hanswer⟩
  · rintro ⟨hbook, intent, hanswer⟩
    refine ⟨intent, bind_eq_ok.mpr ⟨c', hbook, bind_eq_ok.mpr ⟨some intent, hanswer, rfl⟩⟩⟩

/-- The intents of a run name the symbol if and only if the messages leave quiet books. -/
theorem symbols_iff_leavesQuiet (strategy : MicrostructureStrategy D)
    (c : MarketDataBookConsumer) {symbol : Symbol} (hne : symbol ≠ noSymbol)
    (hadds : ∀ message ∈ messages, ∀ event,
      ItchReplayDispatcher.event message.data message.length = some event →
        event.type = .addOrder → event.symbol = symbol) :
    (∀ intent ∈ intents strategy.onMarketData c messages, intent.symbol = symbol) ↔
      StepsMeet (step strategy.onMarketData) (LeavesQuiet strategy) c messages := by
  rw [forall_intents_iff]
  constructor
  · intro hall
    refine hall.mono_mem fun message _ c hsymbol event c' hevent htype hbook hacts => hne ?_
    obtain ⟨intent, hconsume⟩ := consume_some_iff.mpr ⟨hbook, hacts⟩
    rw [← hsymbol intent c' (receive_some_iff.mpr ⟨event, hevent, hconsume⟩),
      consume_symbol hconsume, ItchReplayDispatcher.event_symbol hevent htype]
  · intro hquiet
    refine hquiet.mono_mem fun message hmessage c hquiet intent c' hreceive => ?_
    obtain ⟨event, hevent, hconsume⟩ := receive_some_iff.mp hreceive
    obtain ⟨hbook, hacts⟩ := consume_some_iff.mp ⟨intent, hconsume⟩
    rw [consume_symbol hconsume]
    refine hadds message hmessage event hevent (by_contra fun htype => ?_)
    exact hquiet event c' hevent htype hbook hacts

/-- When all events have the one symbol there is nothing to get wrong. -/
theorem symbols_of_noSymbol (strategy : MicrostructureStrategy D)
    (c : MarketDataBookConsumer) (hadds : ∀ message ∈ messages, ∀ event,
      ItchReplayDispatcher.event message.data message.length = some event →
        event.type = .addOrder → event.symbol = noSymbol) :
    ∀ intent ∈ intents strategy.onMarketData c messages, intent.symbol = noSymbol := by
  rw [forall_intents_iff]
  refine .of_forall fun message hmessage c intent c' hreceive => ?_
  obtain ⟨event, hevent, hconsume⟩ := receive_some_iff.mp hreceive
  rw [consume_symbol hconsume]
  by_cases htype : event.type = .addOrder
  · exact hadds message hmessage event hevent htype
  · exact ItchReplayDispatcher.event_symbol hevent htype

/-- A book that shows the market is acted on if the market is. -/
theorem actsOn_iff (strategy : MicrostructureStrategy D) {book : ArrayOrderBook} {m : Market}
    (h : ShowsMarket book m) :
    strategy.ActsOn book ↔ strategy.Acts (m.features D) := by
  rw [MicrostructureStrategy.ActsOn, MarketFeatureExtractor.extract_eq h]
  constructor
  · rintro ⟨features, heq, hacts⟩
    cases heq
    exact hacts
  · exact fun hacts => ⟨_, rfl, hacts⟩

/-- Over a feed that the book can hold, the condition on the books is one on the market. -/
theorem leavesQuiet_iff {Q : Queues} {m : Market} (h : Shows c Q m)
    (hprices : ∀ event ∈ feedOf messages, MarketDataBookConsumer.bringsPrice event = true →
      ValidPrice event.price)
    (hfresh : Replay.addsFresh defaultOrderCapacity m.live (feedOf messages) = true) :
    StepsMeet (step strategy.onMarketData) (LeavesQuiet strategy) c messages ↔
      Meets Market.step (QuietEvent strategy) m (feedOf messages) := by
  induction messages generalizing c Q m with
  | nil => exact Iff.rfl
  | cons message messages ih =>
      cases hevent : ItchReplayDispatcher.event message.data message.length with
      | none =>
          have hfeed : feedOf (message :: messages) = feedOf messages :=
            List.filterMap_cons_none hevent
          have hstep : step strategy.onMarketData c message = .ok c := by
            rw [step, receive_eq, hevent]
            rfl
          rw [hfeed] at hprices hfresh ⊢
          refine Iff.trans ⟨fun hmeet => hmeet.2 c hstep, fun hmeet => ⟨?_, fun c' hc' => ?_⟩⟩
            (ih h hprices hfresh)
          · intro event c' hnone
            rw [hevent] at hnone
            cases hnone
          · cases hstep.symm.trans hc'
            exact hmeet
      | some event =>
          have hfeed : feedOf (message :: messages) = event :: feedOf messages :=
            List.filterMap_cons_some hevent
          rw [hfeed] at hprices hfresh ⊢
          rw [Replay.addsFresh, Bool.and_eq_true, Bool.or_eq_true, decide_eq_true_eq,
            Option.isNone_iff_eq_none] at hfresh
          obtain ⟨c₁, Q₁, hok, h₁⟩ := h.consume (hprices event List.mem_cons_self)
            fun ht => hfresh.1.resolve_left fun hne => hne ht
          have hacts := actsOn_iff strategy h₁.showsMarket
          obtain ⟨hanswer, -⟩ := strategy.sees c₁.book (m.step event) event h₁.showsMarket
          have hstep : step strategy.onMarketData c message = .ok c₁ := by
            simp only [step, receive_eq, hevent, consume, hok, hanswer, bind, Except.bind, pure,
              Except.pure, Except.map]
          have hrest := ih h₁ (fun x hx => hprices x (List.mem_cons_of_mem event hx)) hfresh.2
          refine and_congr ⟨fun hquiet htype hacted => ?_,
              fun hquiet event' c' hevent' htype hc' hacted => ?_⟩
            ⟨fun hmeet => hrest.mp (hmeet c₁ hstep), fun hmeet c' hc' => ?_⟩
          · exact hquiet event c₁ hevent htype hok (hacts.mpr hacted)
          · cases hevent.symm.trans hevent'
            cases hok.symm.trans hc'
            exact hquiet htype (hacts.mp hacted)
          · cases hstep.symm.trans hc'
            exact hrest.mpr hmeet

end Conditions

/-- On a feed of one symbol, all intents of a run have that symbol if and only if no cancel,
delete, execution or replacement, applied to the book that it meets, leaves a book with two
sides and a score beyond a threshold, or the symbol is the one that their events have. Where
the prices are in range and Add Orders are for ids that are not live, that is a condition on
the live orders of the feed. -/
theorem intents_symbol_iff {D : Type} [DoubleArith D] (strategy : MicrostructureStrategy D)
    (stdHash : OrderId → Nat) (symbol : Symbol) (messages : List ItchMessage)
    (hadds : ∀ message ∈ messages, ∀ event,
      ItchReplayDispatcher.event message.data message.length = some event →
        event.type = .addOrder → event.symbol = symbol) :
    ((∀ intent ∈ intents strategy.onMarketData (.init stdHash) messages,
        intent.symbol = symbol) ↔
      symbol = noSymbol ∨ StepsMeet (step strategy.onMarketData) (LeavesQuiet strategy)
        (.init stdHash) messages) ∧
    ((∀ event ∈ feedOf messages, MarketDataBookConsumer.bringsPrice event = true →
        ValidPrice event.price) →
      Replay.addsFresh defaultOrderCapacity [] (feedOf messages) = true →
      ((∀ intent ∈ intents strategy.onMarketData (.init stdHash) messages,
          intent.symbol = symbol) ↔
        symbol = noSymbol ∨
          Meets Market.step (QuietEvent strategy) .empty (feedOf messages))) := by
  by_cases hzero : symbol = noSymbol
  · subst hzero
    have hall := symbols_of_noSymbol strategy (.init stdHash) hadds
    exact ⟨iff_of_true hall (.inl rfl), fun _ _ => iff_of_true hall (.inl rfl)⟩
  · have hquiet := symbols_iff_leavesQuiet strategy (.init stdHash) hzero hadds
    simp only [hzero, false_or]
    refine ⟨hquiet, fun hprices hfresh => hquiet.trans ?_⟩
    exact leavesQuiet_iff (Shows.init stdHash) hprices hfresh

theorem addMessage_event {id side shares price : UInt8} {event : MarketDataEvent}
    (h : ItchReplayDispatcher.event (addMessage id side shares price).data
      (addMessage id side shares price).length = some event) :
    event.type = .addOrder ∧ event.symbol = aapl := by
  cases h
  exact ⟨rfl, rfl⟩

/-- Nine bid at 100 and three offered at 101. -/
def twoSided : List ItchMessage :=
  [addMessage 1 'B'.toUInt8 9 100, addMessage 2 'S'.toUInt8 3 101]

/-- The offer is deleted, and the strategy has sent one order, before that. -/
theorem intents_symbol_iff_offer_deleted :
    intents (runtimeStrategy Rat).onMarketData (.init UInt64.toNat)
        (twoSided ++ [deletionMessage 2]) ≠ [] ∧
      ∀ intent ∈ intents (runtimeStrategy Rat).onMarketData (.init UInt64.toNat)
        (twoSided ++ [deletionMessage 2]), intent.symbol = aapl := by
  have hadds : ∀ message ∈ twoSided ++ [deletionMessage 2], ∀ event,
      ItchReplayDispatcher.event message.data message.length = some event →
        event.type = .addOrder → event.symbol = aapl := by
    intro message hmessage event hevent htype
    simp only [twoSided, List.cons_append, List.nil_append, List.mem_cons, List.not_mem_nil,
      or_false] at hmessage
    rcases hmessage with rfl | rfl | rfl
    · exact (addMessage_event hevent).2
    · exact (addMessage_event hevent).2
    · cases hevent
      cases htype
  refine ⟨by decide +kernel, ?_⟩
  exact ((intents_symbol_iff (runtimeStrategy Rat) UInt64.toNat aapl _ hadds).2
    (by decide +kernel) (by decide +kernel)).mpr (.inr (by decide +kernel))

/-- One of the nine is cancelled, and the strategy sends an order for no instrument. -/
theorem cancel_sets_off_nameless_order :
    intents (runtimeStrategy Rat).onMarketData (.init UInt64.toNat)
        (twoSided ++ [cancelMessage 1 1]) =
      [{ accountId := 1001, side := .buy, symbol := aapl, price := 101, quantity := 10 },
        { accountId := 1001, side := .buy, symbol := noSymbol, price := 101,
          quantity := 10 }] ∧ noSymbol ≠ aapl := by
  refine ⟨?_, ?_⟩ <;> decide +kernel

end MarketDataStrategyConsumer

end OpenHft
