import OpenHft.Proofs.Attribution
import OpenHft.Proofs.WirePrices

/-!
# Runs of the handler

A call of `handleEnterOrder` on a handler whose engine follows the reference matcher: it is
refused and nothing changes, or the order enters the reference book and its id is
registered. All that this needs besides a price in range is that the id the order is given
is not in the book already, which can only happen to an engine whose counter has gone
round. Runs of any length are then followed on the reference book.

The first thing to come of it is what the trades of a run move. Nobody looks at the quantity
of a message. An order without one rests like any other if it does not cross, and the first
order that reaches it trades nothing with it, in a trade that is published.
-/

namespace OpenHft

open OpenHft.Lib PriceTime ExchangeSession

namespace ExchangeOuchHandler

variable {h h' : ExchangeOuchHandler} {call : EnterOrderCall} {Q : Queues} {R : Book}

/-- The id that the next order is given, if there is an object for it, is not in the book. -/
def IdFresh (h : ExchangeOuchHandler) (_ : EnterOrderCall) : Prop :=
  h.matchingEngine.orderPool.freeList ≠ [] →
    h.matchingEngine.book.orderIndex.contains (h.matchingEngine.sequence + 1) = false

/-- The order in the message, as the engine is given it. -/
def submission (call : EnterOrderCall) (enterOrder : EnterOrder) : Submission :=
  ⟨call.accountId, enterOrder.side, enterOrder.price.toInt64, enterOrder.quantity⟩

/-- The two ways a call can end. -/
inductive Received (h : ExchangeOuchHandler) (R : Book) (call : EnterOrderCall) :
    ExchangeOuchHandler → Book → Prop
  | refused
      (hfull : ∀ enterOrder, OuchDecoder.decodeEnterOrder call.data call.length =
        some enterOrder → h.matchingEngine.orderPool.freeList = []) :
      Received h R call h R
  | taken (enterOrder : EnterOrder) (engine : MatchingEngine)
      (hd : OuchDecoder.decodeEnterOrder call.data call.length = some enterOrder)
      (hroom : R.orders.length ≠ defaultOrderCapacity)
      (hfresh : ∀ o ∈ R.orders, o.id ≠ R.sequence + 1) :
      Received h R call (h.taken enterOrder (R.sequence + 1) engine)
        (R.enter (submission call enterOrder))

theorem receive_taken {enterOrder : EnterOrder} {id : OrderId} {engine : MatchingEngine}
    (hd : OuchDecoder.decodeEnterOrder call.data call.length = some enterOrder)
    (hfree : h.matchingEngine.orderPool.freeList ≠ [])
    (hsubmit : h.matchingEngine.submitOrder call.accountId enterOrder.side
      enterOrder.price.toInt64 enterOrder.quantity = .ok (id, engine)) :
    h.receive call = .ok (h.taken enterOrder id engine) := by
  rw [receive, handleEnterOrder_taken hd hfree hsubmit]
  rfl

theorem receive_outcome (hr : Refines h.matchingEngine Q [] R) (hprice : PriceInRange call)
    (hid : h.IdFresh call) :
    ∃ h' Q' R', h.receive call = .ok h' ∧ Refines h'.matchingEngine Q' [] R' ∧
      Received h R call h' R' := by
  cases hd : OuchDecoder.decodeEnterOrder call.data call.length with
  | none =>
      have hfull : ∀ enterOrder, OuchDecoder.decodeEnterOrder call.data call.length =
          some enterOrder → h.matchingEngine.orderPool.freeList = [] :=
        fun _ hsome => nomatch hd.symm.trans hsome
      exact ⟨h, Q, R, receive_undecoded hd, hr, .refused hfull⟩
  | some enterOrder =>
      by_cases hfree : h.matchingEngine.orderPool.freeList = []
      · exact ⟨h, Q, R, receive_exhausted hd hfree, hr, .refused fun _ _ => hfree⟩
      · have hfresh := hr.contains_eq_false_iff.mp (hid hfree)
        obtain ⟨engine, Q', hsubmit, hr'⟩ := hr.enter (s := submission call enterOrder)
          (hprice enterOrder hd) hfree hfresh
        have hroom : R.orders.length ≠ defaultOrderCapacity :=
          fun hfull => hfree (hr.free_nil_iff.mpr hfull)
        exact ⟨_, Q', _, receive_taken hd hfree hsubmit, hr',
          .taken enterOrder engine hd hroom hfresh⟩

/-- The same for a message that is known to be taken. -/
theorem receive_enter {sub : Submission} (hr : Refines h.matchingEngine Q [] R)
    (hcarries : Carries call sub) (hv : ValidPrice sub.price)
    (hroom : R.orders.length ≠ defaultOrderCapacity)
    (hfresh : ∀ o ∈ R.orders, o.id ≠ R.sequence + 1) :
    ∃ enterOrder engine Q',
      OuchDecoder.decodeEnterOrder call.data call.length = some enterOrder ∧
      h.IdFresh call ∧
      h.receive call = .ok (h.taken enterOrder (R.sequence + 1) engine) ∧
      Refines engine Q' [] (R.enter sub) := by
  obtain ⟨enterOrder, hd, rfl⟩ := hcarries
  have hfree : h.matchingEngine.orderPool.freeList ≠ [] :=
    fun hnil => hroom (hr.free_nil_iff.mp hnil)
  obtain ⟨engine, Q', hsubmit, hr'⟩ := hr.enter hv hfree hfresh
  exact ⟨enterOrder, engine, Q', hd, fun _ => hr.contains_eq_false_iff.mpr hfresh,
    receive_taken hd hfree hsubmit, hr'⟩

end ExchangeOuchHandler

/-! ## What the trades move -/

namespace PriceTime

variable {R : Book} {s : Submission} {i : OrderData} {sequence : UInt64}

theorem sweep_trades_pos {l : List OrderData} (hpos : ∀ o ∈ l, o.quantity ≠ 0) :
    ∀ t ∈ (sweep i sequence l).trades, t.quantity ≠ 0 := by
  induction l generalizing i sequence with
  | nil => simp [sweep]
  | cons r rest ih =>
      rw [sweep]
      split
      · simp
      · next hgo =>
          obtain ⟨hi, -⟩ := not_or.mp hgo
          have hr := hpos r List.mem_cons_self
          have hmin : min i.quantity r.quantity ≠ 0 := by
            rcases Quantity.min_cases i.quantity r.quantity with ⟨heq, -⟩ | ⟨heq, -⟩
            · rw [heq]
              exact hi
            · rw [heq]
              exact hr
          dsimp only
          split
          · intro t ht
            rcases List.mem_cons.mp ht with rfl | ht
            · rw [tradeOf_quantity]
              exact hmin
            · exact ih (fun o ho => hpos o (List.mem_cons_of_mem r ho)) t ht
          · intro t ht
            rw [List.mem_singleton.mp ht, tradeOf_quantity]
            exact hmin

theorem rest_trades (R : Book) (o : OrderData) : (R.rest o).trades = R.trades := by
  rw [Book.rest]
  split <;> rfl

/-- Among orders with a quantity every trade moves something. -/
theorem enter_trades_pos (hpos : Positive R) (hq : s.quantity ≠ 0)
    (htrades : ∀ t ∈ R.trades, t.quantity ≠ 0) :
    Positive (R.enter s) ∧ ∀ t ∈ (R.enter s).trades, t.quantity ≠ 0 := by
  have hside : ∀ o ∈ R.resting s.side.opposite, o.quantity ≠ 0 :=
    fun o ho => hpos o (Book.mem_orders.mpr ⟨_, ho⟩)
  rw [Book.enter_eq_submit hside hq]
  refine ⟨hpos.submit, fun t ht => ?_⟩
  rw [Book.submit, rest_trades] at ht
  rcases List.mem_append.mp ht with ht | ht
  · exact htrades t ht
  · exact sweep_trades_pos hside t ht

/-- An order without a quantity does not trade when it comes in. -/
theorem enter_trades_of_zero (hq : s.quantity = 0) : (R.enter s).trades = R.trades := by
  rw [Book.enter]
  split
  · have hnone : (rounds (R.incoming s) R.drawn.sequence
        (R.resting s.side.opposite)).trades = [] := by
      cases R.resting s.side.opposite with
      | nil => rfl
      | cons r rest => rw [rounds, if_pos (.inl hq)]
    rw [rest_trades]
    show R.trades ++ _ = R.trades
    rw [hnone, List.append_nil]
  · rfl

/-- An order that comes first and has no quantity is traded with nevertheless. -/
theorem enter_trades_nothing {r : OrderData} {rest : List OrderData}
    (hr : R.resting s.side.opposite = r :: rest) (hempty : r.quantity = 0)
    (hq : s.quantity ≠ 0) (hreach : reaches s.side s.price r.price = true) :
    ∃ t ∈ (R.enter s).trades, t.quantity = 0 := by
  have hcross : crosses (R.incoming s) (r :: rest) = true := hreach
  have hgo : ¬ ((R.incoming s).quantity = 0 ∨
      reaches (R.incoming s).side (R.incoming s).price r.price = false) := by
    rintro (h0 | hno)
    · exact hq h0
    · exact absurd (hreach.symm.trans hno) Bool.noConfusion
  refine ⟨tradeOf (R.incoming s) r 0 (R.drawn.sequence + 1), ?_, tradeOf_quantity _ _ _ _⟩
  rw [Book.enter, hr, if_pos hcross, rest_trades]
  refine List.mem_append_right _ ?_
  simp only [rounds, if_neg hgo, hempty, Quantity.min_zero, if_true, List.mem_singleton]

end PriceTime

namespace ExchangeOuchHandler

variable {h h' : ExchangeOuchHandler} {call : EnterOrderCall} {Q : Queues} {R : Book}

/-- The quantity of the order in the call, if there is one, is one of these. -/
def QuantityIn (quantities : Set Quantity) (call : EnterOrderCall) : Prop :=
  ∀ enterOrder, OuchDecoder.decodeEnterOrder call.data call.length = some enterOrder →
    enterOrder.quantity ∈ quantities

/-- Every trade published so far moved something. -/
def MovesShares (h : ExchangeOuchHandler) : Prop :=
  ∀ t ∈ h.matchingEngine.published, 1 ≤ t.quantity

theorem one_le_iff_ne_zero {quantity : Quantity} : 1 ≤ quantity ↔ quantity ≠ 0 := by
  rw [← UInt32.pos_iff_ne_zero, UInt32.le_iff_toNat_le, UInt32.lt_iff_toNat_lt]
  exact Iff.rfl

theorem movesShares_iff (hr : Refines h.matchingEngine Q [] R) :
    h.MovesShares ↔ ∀ t ∈ R.trades, t.quantity ≠ 0 := by
  simp only [MovesShares, hr.trades, one_le_iff_ne_zero]

/-- Messages that all have a quantity, or that all have none. -/
theorem movesShares_throughout (stdHash : OrderId → Nat) {quantities : Set Quantity}
    (hkind : 0 ∉ quantities ∨ ∀ q ∈ quantities, q = 0) {calls : List EnterOrderCall}
    (hcalls : ∀ call ∈ calls, PriceInRange call ∧ QuantityIn quantities call)
    (hids : StepsMeet receive IdFresh (.init stdHash) calls) :
    Throughout receive MovesShares (.init stdHash) calls := by
  -- in the first case no order without a quantity rests, in the second nothing trades
  refine StepsMeet.throughout (fun call => PriceInRange call ∧ QuantityIn quantities call)
    (fun h => ∃ Q R, Refines h.matchingEngine Q [] R ∧
      ((0 ∉ quantities ∧ Positive R) ∨ ∀ q ∈ quantities, q = 0) ∧
        ∀ t ∈ R.trades, t.quantity ≠ 0) ?_ ?_ ?_ hcalls hids
  · rintro h ⟨Q, R, hr, -, htrades⟩
    exact (movesShares_iff hr).mpr htrades
  · rintro h call ⟨hprice, hquantity⟩ ⟨Q, R, hr, hcase, htrades⟩ hid
    obtain ⟨h', Q', R', hok, hr', hreceived⟩ := receive_outcome hr hprice hid
    refine ⟨h', hok, Q', R', hr', ?_⟩
    cases hreceived with
    | refused => exact ⟨hcase, htrades⟩
    | taken enterOrder engine hd hroom hfresh =>
        have hmem := hquantity enterOrder hd
        rcases hcase with ⟨hzero, hpos⟩ | hzero
        · obtain ⟨hpos', htrades'⟩ := enter_trades_pos hpos
            (s := submission call enterOrder) (fun h0 => hzero (h0 ▸ hmem)) htrades
          exact ⟨.inl ⟨hzero, hpos'⟩, htrades'⟩
        · rw [enter_trades_of_zero (s := submission call enterOrder) (hzero _ hmem)]
          exact ⟨.inr hzero, htrades⟩
  · refine ⟨_, _, init_refines stdHash, ?_, by simp [Book.empty]⟩
    exact hkind.imp (fun hzero => ⟨hzero, by simp [Positive, Book.empty, Book.orders]⟩) id

theorem enterCall_quantityIn {quantities : Set Quantity} {sub : Submission}
    (hmem : sub.quantity ∈ quantities) : QuantityIn quantities (enterCall blank sub) := by
  intro enterOrder hd
  rw [decode_enterCall, Option.some.injEq] at hd
  rw [← hd]
  exact hmem

/-- An order without a quantity rests, and is then traded with. -/
theorem empty_order_trades (stdHash : OrderId → Nat) {quantity : Quantity}
    (hq : quantity ≠ 0) :
    ∃ h₁ h₂, (init stdHash).IdFresh (enterCall blank ⟨1, .sell, 10, 0⟩) ∧
      (init stdHash).receive (enterCall blank ⟨1, .sell, 10, 0⟩) = .ok h₁ ∧
      h₁.IdFresh (enterCall blank ⟨2, .buy, 10, quantity⟩) ∧
      h₁.receive (enterCall blank ⟨2, .buy, 10, quantity⟩) = .ok h₂ ∧ ¬ h₂.MovesShares := by
  obtain ⟨_, e₁, Q₁, -, hid₁, hok₁, hr₁⟩ := receive_enter (h := init stdHash)
    (init_refines stdHash) (enterCall_carries blank ⟨1, .sell, 10, 0⟩) (by decide)
    (by decide) (by decide)
  obtain ⟨_, e₂, Q₂, -, hid₂, hok₂, hr₂⟩ := receive_enter
    (h := (init stdHash).taken _ (Book.empty.sequence + 1) e₁) hr₁
    (enterCall_carries blank ⟨2, .buy, 10, quantity⟩) (by decide : ValidPrice 10) (by decide)
    (by decide)
  refine ⟨_, _, hid₁, hok₁, hid₂, hok₂, ?_⟩
  rw [movesShares_iff hr₂]
  have hresting : (Book.empty.enter ⟨1, .sell, 10, 0⟩).resting .sell =
      [⟨1001, 1, .sell, 10, 0⟩] := by decide
  obtain ⟨t, ht, hzero⟩ := enter_trades_nothing (s := ⟨2, .buy, 10, quantity⟩) hresting rfl hq
    rfl
  exact fun hall => hall t ht hzero

end ExchangeOuchHandler

open ExchangeOuchHandler

/-- Every trade moves something in every run of messages with such quantities, if and only if
all of them are something, or all of them are nothing. -/
theorem trades_move_shares_iff (stdHash : OrderId → Nat) (quantities : Set Quantity) :
    (∀ calls, (∀ call ∈ calls, PriceInRange call ∧ QuantityIn quantities call) →
      StepsMeet receive IdFresh (.init stdHash) calls →
        Throughout receive MovesShares (.init stdHash) calls) ↔
      (0 ∉ quantities ∨ ∀ q ∈ quantities, q = 0) := by
  constructor
  · intro hall
    by_contra hkind
    obtain ⟨hzero, hsome⟩ := not_or.mp hkind
    push Not at hzero hsome
    obtain ⟨quantity, hmem, hq⟩ := hsome
    obtain ⟨h₁, h₂, hid₁, hok₁, hid₂, hok₂, hnot⟩ := empty_order_trades stdHash hq
    have hcalls : ∀ call ∈ [enterCall blank ⟨1, .sell, 10, 0⟩,
        enterCall blank ⟨2, .buy, 10, quantity⟩],
          PriceInRange call ∧ QuantityIn quantities call := by
      have hprice : ValidPrice 10 := by decide
      rw [List.forall_mem_cons, List.forall_mem_singleton]
      exact ⟨⟨(enterCall_carries _ _).inRange hprice, enterCall_quantityIn hzero⟩,
        (enterCall_carries _ _).inRange hprice, enterCall_quantityIn hmem⟩
    have hids : StepsMeet receive IdFresh (.init stdHash)
        [enterCall blank ⟨1, .sell, 10, 0⟩, enterCall blank ⟨2, .buy, 10, quantity⟩] := by
      refine ⟨hid₁, fun h hok => ?_⟩
      cases hok₁.symm.trans hok
      exact ⟨hid₂, fun _ _ => trivial⟩
    obtain ⟨-, h₁', hok₁', -, h₂', hok₂', hgood⟩ := hall _ hcalls hids
    cases hok₁.symm.trans hok₁'
    cases hok₂.symm.trans hok₂'
    exact hnot hgood
  · exact fun hkind calls => movesShares_throughout stdHash hkind

/-- An order to sell nothing, and one to buy five. -/
theorem trade_of_nothing :
    ∃ h₁ h₂, (ExchangeOuchHandler.init UInt64.toNat).receive
        (enterCall blank ⟨1, .sell, 10, 0⟩) = .ok h₁ ∧
      h₁.receive (enterCall blank ⟨2, .buy, 10, 5⟩) = .ok h₂ ∧ ¬ h₂.MovesShares := by
  obtain ⟨h₁, h₂, -, hok₁, -, hok₂, hnot⟩ := empty_order_trades UInt64.toNat
    (by decide : (5 : Quantity) ≠ 0)
  exact ⟨h₁, h₂, hok₁, hok₂, hnot⟩

end OpenHft
