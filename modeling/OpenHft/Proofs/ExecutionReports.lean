import OpenHft.Proofs.HandlerRuns
import OpenHft.Proofs.KnownOrders
import OpenHft.Spec.ReferenceExchange

/-!
# What the listener still has after a call

Both orders of every trade are registered when it is published, so the listener prepares a
message for either side. It keeps them until the next trade. Trades have different numbers,
so what it has after a call reports one of them; and an order that meets two resting orders
makes two. Nor does a call clear what an earlier one has left: after a call without a trade
the listener still has the messages for the last trade there was, and a client that uses a
number twice takes them for its new order.

Whether a call is reported in full can be told before it is made, from the reference book and
the messages that the listener has.
-/

namespace OpenHft

open OpenHft.Lib PriceTime

/-- The message tells one side of a trade about it. -/
def ReportsTrade (sessionMap : ExchangeOrderSessionMap) (trade : Trade) (orderId : OrderId)
    (response : Option ExecutedEncoder.Buffer) : Prop :=
  ∃ bytes message, response = some bytes ∧
    OuchResponseDispatcher.dispatch (.ofList bytes.toList) 36 = some (.executed message) ∧
    sessionMap orderId = some message.userRefNum ∧ message.quantity = trade.quantity ∧
    message.price = trade.price.toUInt64 ∧ message.matchNumber = trade.sequence

theorem reportsTrade_of_registered {sessionMap : ExchangeOrderSessionMap} {orderId : OrderId}
    (h : (sessionMap orderId).isSome = true) (trade : Trade) :
    ReportsTrade sessionMap trade orderId ((sessionMap orderId).map fun userRefNum =>
      ExecutedEncoder.encode (ExchangeExecutionListener.executed trade userRefNum)) := by
  obtain ⟨userRefNum, hfound⟩ := Option.isSome_iff_exists.mp h
  rw [hfound]
  exact ⟨_, _, rfl, dispatch_execution trade userRefNum, hfound, rfl, rfl, rfl⟩

/-- A message reports trades of one number only. -/
theorem ReportsTrade.sequence_eq {sessionMap sessionMap' : ExchangeOrderSessionMap}
    {trade trade' : Trade} {orderId orderId' : OrderId}
    {response : Option ExecutedEncoder.Buffer}
    (h : ReportsTrade sessionMap trade orderId response)
    (h' : ReportsTrade sessionMap' trade' orderId' response) :
    trade.sequence = trade'.sequence := by
  obtain ⟨bytes, message, rfl, hmessage, -, -, -, hnumber⟩ := h
  obtain ⟨bytes', message', hbytes, hmessage', -, -, -, hnumber'⟩ := h'
  cases hbytes
  cases hmessage.symm.trans hmessage'
  exact hnumber.symm.trans hnumber'

namespace ExchangeSession

variable {s s' : ExchangeSession} {call : EnterOrderCall}

/-- The orders in the engine's book are registered. -/
def Registered (s : ExchangeSession) : Prop :=
  ∃ known, KnownBook known s.handler.matchingEngine.book ∧ ∀ q, known q →
    (s.handler.sessionMap (s.handler.matchingEngine.book.orders q).id).isSome = true

theorem registered_init (stdHash : OrderId → Nat) : (init stdHash).Registered := by
  refine ⟨fun _ => False, ⟨fun lv q hq => ?_, fun p q hp => hp.elim, fun q hq => ?_⟩,
    fun _ hq => hq.elim⟩
  · cases hq
  · exact FixedHashMap.not_stores_init stdHash q hq

/-- The trades published between two states. -/
def tradesSince (s s' : ExchangeSession) : List Trade :=
  s'.handler.matchingEngine.published.drop s.handler.matchingEngine.published.length

/-- What a call leaves: its trades are numbered, both sides of each are registered, and the
listener has heard of them in order. -/
structure CallTrades (s s' : ExchangeSession) : Prop where
  registered : s'.Registered
  numbered : ∃ last, Consecutive last (s.tradesSince s')
  sides : ∀ t ∈ s.tradesSince s',
    (s'.handler.sessionMap t.buyOrderId).isSome = true ∧
      (s'.handler.sessionMap t.sellOrderId).isSome = true
  heard : s'.executions = s.executions ++ (s.tradesSince s').map fun t =>
    (t, ExchangeExecutionListener.onTrade s'.handler.sessionMap t)

/-- A call that leaves the handler as it is. -/
theorem Registered.unchanged (h : s.Registered) (hhandler : s'.handler = s.handler)
    (hexecutions : s'.executions = s.executions ++ (s.tradesSince s').map fun t =>
      (t, ExchangeExecutionListener.onTrade s'.handler.sessionMap t)) : CallTrades s s' := by
  have hnone : s.tradesSince s' = [] := by
    rw [tradesSince, hhandler, List.drop_length]
  refine ⟨?_, ⟨0, ?_⟩, ?_, hexecutions⟩
  · unfold Registered
    rw [hhandler]
    exact h
  · rw [hnone]
    trivial
  · rw [hnone]
    exact fun _ ht => absurd ht List.not_mem_nil

/-- Registering an order does not take another one out. -/
theorem isSome_registerOrder {sessionMap : ExchangeOrderSessionMap} {id : OrderId}
    (h : (sessionMap id).isSome = true) (orderId : OrderId) (userRefNum : UserRefNum) :
    (sessionMap.registerOrder orderId userRefNum id).isSome = true := by
  by_cases hid : id = orderId
  · rw [hid, ExchangeOrderSessionMap.registerOrder, Function.update_self]
    rfl
  · rwa [ExchangeOrderSessionMap.registerOrder, Function.update_of_ne hid]

theorem tradesSince_eq {new : List Trade} (h : s'.handler.matchingEngine.published =
      s.handler.matchingEngine.published ++ new) : s.tradesSince s' = new := by
  rw [tradesSince, h, List.drop_left]

/-- The order that is taken is registered, and those known before stay so. -/
theorem isSome_taken {known : OrderPtr → Prop} {p q : OrderPtr} (hknown : ∀ q, known q →
      (s.handler.sessionMap (s.handler.matchingEngine.book.orders q).id).isSome = true)
    (enterOrder : EnterOrder) (engine : MatchingEngine) (rest : List OrderPtr) (o : Order)
    (hq : q = p ∨ known q) :
    ((s.handler.taken enterOrder o.id engine).sessionMap
      ((EngineInv.prepared s.handler.matchingEngine p rest o).book.orders q).id).isSome =
        true := by
  by_cases hqp : q = p
  · have hself : (s.handler.taken enterOrder o.id engine).sessionMap o.id =
        some enterOrder.userRefNum := Function.update_self ..
    rw [hqp, EngineInv.prepared_self, hself]
    rfl
  · rw [EngineInv.prepared_of_ne _ _ _ hqp]
    exact isSome_registerOrder (hknown q (hq.resolve_left hqp)) _ _

/-- An order that was taken, with what `process` has made of the engine. -/
theorem Registered.taken (h : s.Registered) {enterOrder : EnterOrder} {p : OrderPtr}
    {rest : List OrderPtr} {o : Order} (hnext : o.next = none) {engine : MatchingEngine}
    (hprocess : (EngineInv.prepared s.handler.matchingEngine p rest o).process (some p) =
      .ok engine)
    (hhandler : s'.handler = s.handler.taken enterOrder o.id engine)
    (hexecutions : s'.executions = s.executions ++ (s.tradesSince s').map fun t =>
      (t, ExchangeExecutionListener.onTrade s'.handler.sessionMap t)) : CallTrades s s' := by
  obtain ⟨known, hbook, hknown⟩ := h
  have hadvances := MatchingEngine.process_advances
    (e := EngineInv.prepared s.handler.matchingEngine p rest o)
    (hbook.rewriteOrder (p := p) hnext) (.inl rfl) hprocess
  have hregistered : ∀ q, q = p ∨ known q → (s'.handler.sessionMap
      ((EngineInv.prepared s.handler.matchingEngine p rest o).book.orders q).id).isSome =
        true := by
    intro q hq
    rw [hhandler]
    exact isSome_taken hknown enterOrder engine rest o hq
  obtain ⟨new, hnew, -, hnumbers, hsides⟩ := hadvances.trades
  have hsince : s.tradesSince s' = new := by
    refine tradesSince_eq ?_
    rw [hhandler]
    exact hnew
  refine ⟨⟨fun q => q = p ∨ known q, ?_, fun q hq => ?_⟩, ⟨_, hsince ▸ hnumbers⟩, ?_,
    hexecutions⟩
  · rw [hhandler]
    exact hadvances.book
  · have hids := hadvances.ids q
    have hq' := hregistered q hq
    rw [hhandler] at hq' ⊢
    rwa [← hids] at hq'
  · rw [hsince]
    intro t ht
    obtain ⟨⟨q, hq, hbuy⟩, ⟨q', hq', hsell⟩⟩ := hsides t ht
    rw [← hbuy, ← hsell]
    exact ⟨hregistered q hq, hregistered q' hq'⟩

theorem Registered.handle (h : s.Registered) (hok : s.handle call = .ok s') :
    CallTrades s s' := by
  unfold ExchangeSession.handle at hok
  obtain ⟨⟨response, handler⟩, hcall, hok⟩ := bind_eq_ok.mp hok
  rw [← ExchangeOuchHandler.handleEnterOrder_sessionMap hcall] at hok
  cases hok
  cases hd : OuchDecoder.decodeEnterOrder call.data call.length with
  | none =>
      rw [ExchangeOuchHandler.handleEnterOrder_undecoded hd] at hcall
      cases hcall
      exact h.unchanged rfl rfl
  | some enterOrder =>
      cases hfree : s.handler.matchingEngine.orderPool.freeList with
      | nil =>
          rw [ExchangeOuchHandler.handleEnterOrder_exhausted hd hfree] at hcall
          cases hcall
          exact h.unchanged rfl rfl
      | cons p rest =>
          rw [ExchangeOuchHandler.handleEnterOrder_prepared hd
            (EngineInv.prepareOrder_some hfree ..), EngineInv.prepared_self] at hcall
          cases hprocess : (EngineInv.prepared s.handler.matchingEngine p rest
              (EngineInv.newOrder s.handler.matchingEngine call.accountId enterOrder.side
                enterOrder.price.toInt64 enterOrder.quantity)).process (some p) with
          | error fault =>
              rw [hprocess] at hcall
              cases hcall
          | ok engine =>
              rw [hprocess] at hcall
              cases hcall
              exact h.taken rfl hprocess rfl rfl

theorem Registered.handleAll {calls : List EnterOrderCall} (h : s.Registered)
    (hok : s.handleAll calls = .ok s') : s'.Registered := by
  induction calls generalizing s with
  | nil =>
      cases hok
      exact h
  | cons call calls ih =>
      obtain ⟨s₁, hcall, hok⟩ := bind_eq_ok.mp hok
      exact ih (h.handle hcall).registered hok

/-- The quantity that the listener's message for this side reports under this number. -/
def reportedTo (side : Side) (userRefNum : UserRefNum)
    (responses : ExchangeExecutionListener.ExecutionResponses) : Nat :=
  let response :=
    match side with
    | .buy => responses.buyResponse
    | .sell => responses.sellResponse
  match response.bind fun bytes => OuchResponseDispatcher.dispatch (.ofList bytes.toList) 36 with
  | some (.executed message) =>
      if message.userRefNum = userRefNum then message.quantity.toNat else 0
  | _ => 0

/-- For every trade of the call the listener has a message for the buyer and one for the
seller. -/
def TradesReported (s s' : ExchangeSession) : Prop :=
  ∀ t ∈ s.tradesSince s',
    ReportsTrade s'.handler.sessionMap t t.buyOrderId s'.lastResponses.buyResponse ∧
      ReportsTrade s'.handler.sessionMap t t.sellOrderId s'.lastResponses.sellResponse

/-- All trades are reported, and what is reported for the incoming order is what it traded in
the call. -/
def AllReported (s : ExchangeSession) (call : EnterOrderCall) (s' : ExchangeSession) : Prop :=
  s.TradesReported s' ∧
    ∀ enterOrder, OuchDecoder.decodeEnterOrder call.data call.length = some enterOrder →
      reportedTo enterOrder.side enterOrder.userRefNum s'.lastResponses =
        ((s.tradesSince s').map fun t => t.quantity.toNat).sum

/-- The responses that are left are those for the last trade. -/
theorem CallTrades.lastResponses (h : CallTrades s s') (front : List Trade) {t : Trade}
    (hlast : s.tradesSince s' = front ++ [t]) :
    s'.lastResponses = ExchangeExecutionListener.onTrade s'.handler.sessionMap t := by
  rw [ExchangeSession.lastResponses, h.heard, hlast, List.map_append, List.map_singleton,
    ← List.append_assoc, List.getLast?_concat]

theorem CallTrades.tradesReported_iff (h : CallTrades s s') :
    s.TradesReported s' ↔ (s.tradesSince s').length ≤ 1 := by
  constructor
  · intro hall
    match htrades : s.tradesSince s' with
    | [] | [_] => simp
    | t :: t' :: trades =>
        obtain ⟨last, hnumbers⟩ := h.numbered
        rw [htrades] at hnumbers
        have hreport := (hall t (by simp [htrades])).1
        have hreport' := (hall t' (by simp [htrades])).1
        have hsame := hreport.sequence_eq hreport'
        rw [hnumbers.1, hnumbers.2.1] at hsame
        exact absurd hsame (by simp)
  · intro hle t ht
    have hone : s.tradesSince s' = [] ++ [t] := by
      match htrades : s.tradesSince s', ht, hle with
      | [t'], ht, _ => rw [List.mem_singleton.mp ht, List.nil_append]
    obtain ⟨hbuy, hsell⟩ := h.sides t ht
    rw [h.lastResponses [] hone]
    exact ⟨reportsTrade_of_registered hbuy t, reportsTrade_of_registered hsell t⟩

end ExchangeSession

/-! ## The trades of one submission -/

namespace PriceTime

variable {R : Book} {s : Submission} {i r : OrderData} {l rest : List OrderData}
  {sequence : UInt64}

/-- The trades that a submission makes when it is taken. -/
def Book.newTrades (b : Book) (s : Submission) : List Trade :=
  if crosses (b.incoming s) (b.resting s.side.opposite) then
    (rounds (b.incoming s) b.drawn.sequence (b.resting s.side.opposite)).trades
  else []

theorem enter_trades (R : Book) (s : Submission) :
    (R.enter s).trades = R.trades ++ R.newTrades s := by
  rw [Book.enter, Book.newTrades]
  split
  · exact rest_trades _ _
  · exact (List.append_nil _).symm

theorem takeWhile_eq_nil_iff_crosses :
    (l.takeWhile fun o => reaches i.side i.price o.price) = [] ↔ crosses i l = false := by
  cases l with
  | nil => simp [crosses]
  | cons r rest => simp [crosses, List.takeWhile_cons]

/-- A first order that is reached is traded with; the rest is when it does not suffice. -/
theorem rounds_trades_cons (hq : i.quantity ≠ 0)
    (hreach : reaches i.side i.price r.price = true) :
    (rounds i sequence (r :: rest)).trades =
      tradeOf i r (min i.quantity r.quantity) (sequence + 1) ::
        if r.quantity < i.quantity ∧ r.quantity ≠ 0 then
          (rounds { i with quantity := i.quantity - r.quantity } (sequence + 1) rest).trades
        else [] := by
  have hgo : ¬ (i.quantity = 0 ∨ reaches i.side i.price r.price = false) := by
    rintro (h0 | hno)
    · exact hq h0
    · exact absurd (hreach.symm.trans hno) Bool.noConfusion
  rw [rounds, if_neg hgo]
  dsimp only
  rcases Quantity.min_cases i.quantity r.quantity with ⟨hmin, hle⟩ | ⟨hmin, hlt⟩
  · have hnot : ¬ (r.quantity < i.quantity ∧ r.quantity ≠ 0) :=
      fun h => UInt32.not_lt.mpr hle h.1
    rw [hmin, if_neg hnot]
    by_cases heq : r.quantity = i.quantity
    · -- both are filled, and nothing is left of the incoming order
      rw [if_pos heq, if_neg hq, UInt32.sub_self]
      cases rest with
      | nil => rfl
      | cons r' rest => rw [rounds, if_pos (.inl rfl)]
    · rw [if_neg heq]
  · rw [hmin, if_pos rfl]
    by_cases hempty : r.quantity = 0
    · rw [if_pos hempty, if_neg fun h => h.2 hempty]
    · rw [if_neg hempty, if_pos ⟨hlt, hempty⟩]

theorem rounds_trades_eq_nil_iff (sequence : UInt64) (hq : i.quantity ≠ 0) :
    (rounds i sequence l).trades = [] ↔ crosses i l = false := by
  cases l with
  | nil => exact iff_of_true rfl rfl
  | cons r rest =>
      cases hreach : reaches i.side i.price r.price with
      | false =>
          rw [rounds, if_pos (.inr hreach)]
          exact iff_of_true rfl hreach
      | true =>
          rw [rounds_trades_cons hq hreach]
          exact iff_of_false (List.cons_ne_nil _ _) (by simp [crosses, hreach])

theorem newTrades_eq_nil_iff : R.newTrades s = [] ↔ s.quantity = 0 ∨ R.reached s = [] := by
  have hreached : R.reached s = [] ↔
      crosses (R.incoming s) (R.resting s.side.opposite) = false :=
    takeWhile_eq_nil_iff_crosses (i := R.incoming s)
  rw [hreached, Book.newTrades]
  cases hcross : crosses (R.incoming s) (R.resting s.side.opposite) with
  | false => simp
  | true =>
      by_cases hq : s.quantity = 0
      · have hnone := enter_trades_of_zero (R := R) hq
        rw [enter_trades, List.append_right_eq_self, Book.newTrades, hcross] at hnone
        simpa [hq] using hnone
      · simp [rounds_trades_eq_nil_iff (i := R.incoming s) _ hq, hcross, hq]

/-- What the first order leaves is nothing, or finds nothing. -/
theorem rounds_length_le_one_iff (hq : i.quantity ≠ 0)
    (hreach : reaches i.side i.price r.price = true) :
    (rounds i sequence (r :: rest)).trades.length ≤ 1 ↔
      crosses i rest = false ∨ i.quantity ≤ r.quantity ∨ r.quantity = 0 := by
  rw [rounds_trades_cons hq hreach, List.length_cons]
  by_cases hmore : r.quantity < i.quantity ∧ r.quantity ≠ 0
  · have hleft : i.quantity - r.quantity ≠ 0 := fun hzero => by
      rw [Quantity.sub_eq_zero_iff.mp hzero] at hmore
      exact absurd hmore.1 (UInt32.lt_irrefl _)
    have hnone := rounds_trades_eq_nil_iff (l := rest)
      (i := { i with quantity := i.quantity - r.quantity }) (sequence + 1) hleft
    have hsame : crosses { i with quantity := i.quantity - r.quantity } rest =
        crosses i rest := by cases rest <;> rfl
    rw [hsame, ← List.length_eq_zero_iff] at hnone
    have hle : ¬ i.quantity ≤ r.quantity := UInt32.not_le.mpr hmore.1
    simp only [if_pos hmore, hle, hmore.2, or_false, ← hnone]
    omega
  · refine iff_of_true (by rw [if_neg hmore]; exact Nat.le_refl 1) (.inr ?_)
    rcases not_and_or.mp hmore with hle | hempty
    · exact .inl (UInt32.not_lt.mp hle)
    · exact .inr (not_not.mp hempty)

/-- A submission that trades reaches the first order of the other side. -/
theorem resting_of_newTrades (h : R.newTrades s ≠ []) :
    s.quantity ≠ 0 ∧ ∃ r rest, R.resting s.side.opposite = r :: rest ∧
      reaches s.side s.price r.price = true ∧
      R.newTrades s = (rounds (R.incoming s) R.drawn.sequence (r :: rest)).trades := by
  rw [ne_eq, newTrades_eq_nil_iff, not_or, Book.reached] at h
  obtain ⟨hq, hsome⟩ := h
  cases hresting : R.resting s.side.opposite with
  | nil => simp [hresting] at hsome
  | cons r rest =>
      have hreach : reaches s.side s.price r.price = true := by
        by_contra hno
        exact hsome (by simp [hresting, hno])
      refine ⟨hq, r, rest, rfl, hreach, ?_⟩
      rw [Book.newTrades, hresting]
      exact if_pos hreach

theorem newTrades_length_le_one_iff (h : R.newTrades s ≠ []) :
    (R.newTrades s).length ≤ 1 ↔ R.onePartner s = true := by
  obtain ⟨hq, r, rest, hresting, hreach, htrades⟩ := resting_of_newTrades h
  have hrest : (rest.takeWhile fun o => reaches s.side s.price o.price) = [] ↔
      crosses (R.incoming s) rest = false :=
    takeWhile_eq_nil_iff_crosses (i := R.incoming s)
  rw [htrades, rounds_length_le_one_iff (i := R.incoming s) hq hreach, ← hrest, Book.onePartner,
    Book.reached, hresting, List.takeWhile_cons, if_pos hreach]
  cases rest.takeWhile fun o => reaches s.side s.price o.price with
  | nil => exact iff_of_true (.inl rfl) rfl
  | cons r' rest =>
      rw [decide_eq_true_eq]
      exact ⟨fun h => h.resolve_left (List.cons_ne_nil _ _), .inr⟩

/-- A single trade names the submission under the number it was given. -/
theorem newTrades_names {t : Trade} (h : R.newTrades s = [t]) :
    (match s.side with | .buy => t.buyOrderId | .sell => t.sellOrderId) = R.sequence + 1 := by
  obtain ⟨hq, r, rest, -, hreach, htrades⟩ :=
    resting_of_newTrades (by rw [h]; exact List.cons_ne_nil _ _)
  rw [h, rounds_trades_cons (i := R.incoming s) hq hreach] at htrades
  rw [(List.cons.inj htrades).1]
  have hside : (R.incoming s).side = s.side := rfl
  rw [tradeOf, hside]
  cases s.side <;> rfl

end PriceTime

namespace ExchangeSession

variable {s s' : ExchangeSession} {call : EnterOrderCall} {enterOrder : EnterOrder} {Q Q' : Queues}
  {R R' : Book} {n : Nat}

/-! ## A call and the reference book -/

/-- The engine and the reference book take the call in step, and an order that is taken is
registered under its number. -/
theorem handle_receive (h : Refines s.handler.matchingEngine Q [] R) (hnumbered : Numbered R n)
    (hn : 1000 + 2 * (n + 1) < 2 ^ 64) (hprice : PriceInRange call) :
    ∃ s' Q', s.handle call = .ok s' ∧
      Refines s'.handler.matchingEngine Q' [] (R.receive call) ∧
      Numbered (R.receive call) (n + 1) ∧
      ∀ enterOrder, OuchDecoder.decodeEnterOrder call.data call.length = some enterOrder →
        R.orders.length ≠ defaultOrderCapacity →
        s'.handler.sessionMap (R.sequence + 1) = some enterOrder.userRefNum := by
  have hdrawn := hnumbered.drawn
  have hsame : Numbered R (n + 1) := ⟨by omega, hnumbered.issued⟩
  rw [Book.receive]
  cases hd : OuchDecoder.decodeEnterOrder call.data call.length with
  | none =>
      exact ⟨_, Q, handle_unanswered (ExchangeOuchHandler.handleEnterOrder_undecoded hd), h, hsame,
        nofun⟩
  | some enterOrder =>
      dsimp only
      rw [Book.enterWithin]
      split
      · next hfull =>
          exact ⟨_, Q, handle_unanswered
            (ExchangeOuchHandler.handleEnterOrder_exhausted hd (h.free_nil_iff.mpr hfull)), h,
            hsame, fun _ _ hroom => absurd hfull hroom⟩
      · next hroom =>
          have hfree : s.handler.matchingEngine.orderPool.freeList ≠ [] :=
            fun hnil => hroom (h.free_nil_iff.mp hnil)
          obtain ⟨engine, Q', hsubmit, h'⟩ := h.enter
            (s := submissionOf call.accountId enterOrder) (hprice enterOrder hd) hfree
            (hnumbered.fresh hn)
          obtain ⟨s', hok, hhandler, -⟩ := handle_ok
            (ExchangeOuchHandler.handleEnterOrder_taken hd hfree hsubmit)
          refine ⟨s', Q', hok, ?_, hnumbered.taken (enter_taken R _) hn, fun _ hsome _ => ?_⟩
          · rw [hhandler]
            exact h'
          · cases hsome
            rw [hhandler]
            exact Function.update_self ..

theorem handleAll_receive (calls : List EnterOrderCall)
    (h : Refines s.handler.matchingEngine Q [] R) (hnumbered : Numbered R n)
    (hn : 1000 + 2 * (n + calls.length) < 2 ^ 64) (hprices : ∀ call ∈ calls, PriceInRange call) :
    ∃ s' Q', s.handleAll calls = .ok s' ∧
      Refines s'.handler.matchingEngine Q' [] (R.receiveAll calls) ∧
      Numbered (R.receiveAll calls) (n + calls.length) := by
  induction calls generalizing s Q R n with
  | nil => exact ⟨s, Q, rfl, h, hnumbered⟩
  | cons call calls ih =>
      rw [List.length_cons] at hn ⊢
      obtain ⟨s₁, Q₁, hok, h₁, hnumbered₁, -⟩ :=
        handle_receive h hnumbered (by omega) (hprices call List.mem_cons_self)
      obtain ⟨s', Q', hok', h', hnumbered'⟩ := ih h₁ hnumbered₁ (by omega)
        fun c hc => hprices c (List.mem_cons_of_mem call hc)
      refine ⟨s', Q', ?_, h', ?_⟩
      · rw [handleAll, hok]
        exact hok'
      · have hcount : n + (calls.length + 1) = n + 1 + calls.length := by omega
        rw [hcount]
        exact hnumbered'

/-- The trades between two states are those the reference matcher makes. -/
theorem tradesSince_receive (h : Refines s.handler.matchingEngine Q [] R)
    (h' : Refines s'.handler.matchingEngine Q' [] (R.receive call))
    (hd : OuchDecoder.decodeEnterOrder call.data call.length = some enterOrder) :
    s.tradesSince s' =
      if R.orders.length = defaultOrderCapacity then []
      else R.newTrades (submissionOf call.accountId enterOrder) := by
  refine tradesSince_eq ?_
  rw [h'.trades, h.trades, Book.receive, hd]
  dsimp only
  rw [Book.enterWithin]
  split
  · exact (List.append_nil _).symm
  · exact enter_trades R _

theorem tradesSince_undecoded (h : Refines s.handler.matchingEngine Q [] R)
    (h' : Refines s'.handler.matchingEngine Q' [] (R.receive call))
    (hd : OuchDecoder.decodeEnterOrder call.data call.length = none) : s.tradesSince s' = [] := by
  refine tradesSince_eq ?_
  rw [h'.trades, h.trades, Book.receive, hd, List.append_nil]

/-- A taken order has made trades exactly if the reference book says so. -/
theorem tradesSince_ne_nil_iff (h : Refines s.handler.matchingEngine Q [] R)
    (h' : Refines s'.handler.matchingEngine Q' [] (R.receive call))
    (hd : OuchDecoder.decodeEnterOrder call.data call.length = some enterOrder) :
    s.tradesSince s' ≠ [] ↔ R.wouldTrade (submissionOf call.accountId enterOrder) = true := by
  rw [tradesSince_receive h h' hd, Book.wouldTrade, Bool.and_eq_true, decide_eq_true_eq,
    Bool.not_eq_true', List.isEmpty_eq_false_iff]
  split
  · next hfull => simp [hfull]
  · next hroom => simp [hroom, newTrades_eq_nil_iff]

/-! ## What is reported -/

theorem reportedTo_onTrade {sessionMap : ExchangeOrderSessionMap} {t : Trade} {side : Side}
    {userRefNum : UserRefNum} (h : sessionMap (match side with
      | .buy => t.buyOrderId
      | .sell => t.sellOrderId) = some userRefNum) :
    reportedTo side userRefNum (ExchangeExecutionListener.onTrade sessionMap t) =
      t.quantity.toNat := by
  have hdispatch := dispatch_execution t userRefNum
  cases side with
  | buy =>
      simp only [reportedTo, ExchangeExecutionListener.onTrade, h, Option.map_some,
        Option.bind_some, hdispatch]
      exact if_pos rfl
  | sell =>
      simp only [reportedTo, ExchangeExecutionListener.onTrade, h, Option.map_some,
        Option.bind_some, hdispatch]
      exact if_pos rfl

/-- A call without a trade leaves what was there. -/
theorem CallTrades.lastResponses_unchanged (h : CallTrades s s') (hnone : s.tradesSince s' = []) :
    s'.lastResponses = s.lastResponses := by
  have hheard := h.heard
  rw [hnone, List.map_nil, List.append_nil] at hheard
  rw [ExchangeSession.lastResponses, hheard, ExchangeSession.lastResponses]

/-- Said before the call: if its order will trade it has one partner, and if it will not, the
listener has nothing under its number. -/
def Reportable (s : ExchangeSession) (R : Book) (call : EnterOrderCall) : Prop :=
  ∀ enterOrder, OuchDecoder.decodeEnterOrder call.data call.length = some enterOrder →
    if R.wouldTrade (submissionOf call.accountId enterOrder) = true then
      R.onePartner (submissionOf call.accountId enterOrder) = true
    else reportedTo enterOrder.side enterOrder.userRefNum s.lastResponses = 0

theorem CallTrades.allReported_iff (h : CallTrades s s')
    (hr : Refines s.handler.matchingEngine Q [] R)
    (hr' : Refines s'.handler.matchingEngine Q' [] (R.receive call))
    (hregistered : ∀ enterOrder,
      OuchDecoder.decodeEnterOrder call.data call.length = some enterOrder →
        R.orders.length ≠ defaultOrderCapacity →
        s'.handler.sessionMap (R.sequence + 1) = some enterOrder.userRefNum) :
    s.AllReported call s' ↔ s.Reportable R call := by
  rw [AllReported, h.tradesReported_iff, Reportable]
  cases hd : OuchDecoder.decodeEnterOrder call.data call.length with
  | none =>
      rw [tradesSince_undecoded hr hr' hd]
      simp
  | some enterOrder =>
      simp only [Option.some.injEq, forall_eq']
      have htrade := tradesSince_ne_nil_iff hr hr' hd
      split
      · next hwould =>
          have hne := htrade.mpr hwould
          have hroom : R.orders.length ≠ defaultOrderCapacity := by
            rw [Book.wouldTrade, Bool.and_eq_true, decide_eq_true_eq] at hwould
            exact hwould.1.1
          have hsince := tradesSince_receive hr hr' hd
          rw [if_neg hroom] at hsince
          rw [hsince] at hne
          rw [hsince, ← newTrades_length_le_one_iff hne]
          refine and_iff_left_of_imp fun hle => ?_
          -- the one trade there is names the order under the number it is registered under
          obtain ⟨t, ht⟩ : ∃ t, R.newTrades (submissionOf call.accountId enterOrder) = [t] := by
            rw [← List.length_eq_one_iff]
            have hpos := List.length_pos_of_ne_nil hne
            omega
          have hnames := newTrades_names ht
          rw [h.lastResponses [] (hsince.trans ht), ht]
          rw [reportedTo_onTrade]
          · simp
          · have hside : (submissionOf call.accountId enterOrder).side = enterOrder.side := rfl
            rw [hside] at hnames
            rw [hnames]
            exact hregistered enterOrder hd hroom
      · next hnot =>
          have hnone : s.tradesSince s' = [] := by
            by_contra hne
            exact hnot (htrade.mp hne)
          rw [h.lastResponses_unchanged hnone, hnone]
          simp

theorem reported_iff (stdHash : OrderId → Nat) (calls : List EnterOrderCall)
    (call : EnterOrderCall) (hprices : ∀ c ∈ call :: calls, PriceInRange c)
    (hlength : calls.length + 1 < 2 ^ 63 - 500) :
    ∃ s s', (init stdHash).handleAll calls = .ok s ∧ s.handle call = .ok s' ∧
      (s.AllReported call s' ↔ s.Reportable (Book.empty.receiveAll calls) call) := by
  obtain ⟨s, Q, hs, hr, hnumbered⟩ := handleAll_receive (s := init stdHash) calls
    (init_refines stdHash) Numbered.empty (by omega)
    fun c hc => hprices c (List.mem_cons_of_mem call hc)
  obtain ⟨s', Q', hs', hr', -, hregistered⟩ :=
    handle_receive hr hnumbered (by omega) (hprices call List.mem_cons_self)
  exact ⟨s, s', hs, hs', (((registered_init stdHash).handleAll hs).handle hs').allReported_iff
    hr hr' hregistered⟩

/-- Before any call of a run it can be told whether it will be reported in full: an order that
trades is, exactly if it trades with one order only; one that does not trade is, exactly if
what the listener still has is not under its number. -/
theorem all_reported_iff (stdHash : OrderId → Nat) (calls : List EnterOrderCall)
    (call : EnterOrderCall) (hprices : ∀ c ∈ call :: calls, PriceInRange c)
    (hlength : calls.length + 1 < 2 ^ 63 - 500) :
    ∃ s s', (init stdHash).handleAll calls = .ok s ∧ s.handle call = .ok s' ∧
      (s.AllReported call s' ↔ s.Reportable (Book.empty.receiveAll calls) call) :=
  reported_iff stdHash calls call hprices hlength

/-- Submissions with prices in range, as calls. -/
theorem inRange_enterCalls (subs : List Submission) (h : ∀ sub ∈ subs, ValidPrice sub.price) :
    ∀ c ∈ subs.map (enterCall blank), PriceInRange c := by
  intro c hc
  obtain ⟨sub, hsub, rfl⟩ := List.mem_map.mp hc
  exact (enterCall_carries blank sub).inRange (h sub hsub)

/-- For a call that carries a submission, under number 1. -/
theorem reportable_enterCall {s : ExchangeSession} {R : Book} {symbol : Symbol}
    {sub : Submission} :
    s.Reportable R (enterCall symbol sub) ↔
      if R.wouldTrade sub = true then R.onePartner sub = true
      else reportedTo sub.side 1 s.lastResponses = 0 := by
  have hsub : submissionOf (enterCall symbol sub).accountId (OuchExecutionSink.enterOrder 1
      { side := sub.side, symbol := symbol, price := sub.price, quantity := sub.quantity }) =
        sub := rfl
  rw [Reportable, decode_enterCall]
  simp only [Option.some.injEq, forall_eq', hsub]
  exact Iff.rfl

/-- One sells at 10 and one at 11. -/
def sellersApart : List Submission := [⟨1, .sell, 10, 1⟩, ⟨2, .sell, 11, 4⟩]

/-- Two sell at 10. -/
def sellersTogether : List Submission := [⟨1, .sell, 10, 1⟩, ⟨2, .sell, 10, 1⟩]

/-- A buyer at 10. -/
def buyerOfTwo : Submission := ⟨3, .buy, 10, 2⟩

/-- Of two sellers at different prices the buyer reaches one. -/
theorem all_reported_iff_one_partner :
    ∃ s s', (init UInt64.toNat).handleAll (sellersApart.map (enterCall blank)) = .ok s ∧
      s.handle (enterCall blank buyerOfTwo) = .ok s' ∧
      (Book.empty.receiveAll (sellersApart.map (enterCall blank))).wouldTrade buyerOfTwo = true ∧
      s.AllReported (enterCall blank buyerOfTwo) s' := by
  have hwould : (Book.empty.receiveAll (sellersApart.map (enterCall blank))).wouldTrade
      buyerOfTwo = true := by decide +kernel
  obtain ⟨s, s', hs, hs', hiff⟩ := all_reported_iff UInt64.toNat
    (sellersApart.map (enterCall blank)) (enterCall blank buyerOfTwo)
    (inRange_enterCalls (buyerOfTwo :: sellersApart) (by decide)) (by decide)
  refine ⟨s, s', hs, hs', hwould, hiff.mpr (reportable_enterCall.mpr ?_)⟩
  rw [if_pos hwould]
  decide +kernel

/-- A trade of one at 10, and a buyer who finds nothing at 5. -/
def tradedBefore : List Submission := [⟨1, .sell, 10, 1⟩, ⟨2, .buy, 10, 1⟩]

/-- A bid that nobody reaches. -/
def buyerOfNone : Submission := ⟨3, .buy, 5, 7⟩

/-- Buying from two sellers makes two trades, and the first is not reported. A buyer who finds
nothing after the last trade is told of it once more, if it uses the same number. -/
theorem swept_trade_not_reported :
    (∃ s s', (init UInt64.toNat).handleAll (sellersTogether.map (enterCall blank)) = .ok s ∧
      s.handle (enterCall blank buyerOfTwo) = .ok s' ∧
      ¬ s.AllReported (enterCall blank buyerOfTwo) s') ∧
    ∃ s s', (init UInt64.toNat).handleAll (tradedBefore.map (enterCall blank)) = .ok s ∧
      s.handle (enterCall blank buyerOfNone) = .ok s' ∧
      ¬ s.AllReported (enterCall blank buyerOfNone) s' := by
  constructor
  · obtain ⟨s, s', hs, hs', hiff⟩ := reported_iff UInt64.toNat
      (sellersTogether.map (enterCall blank)) (enterCall blank buyerOfTwo)
      (inRange_enterCalls (buyerOfTwo :: sellersTogether) (by decide)) (by decide)
    refine ⟨s, s', hs, hs', fun hall => ?_⟩
    have hwould : (Book.empty.receiveAll (sellersTogether.map (enterCall blank))).wouldTrade
        buyerOfTwo = true := by decide +kernel
    have hone := reportable_enterCall.mp (hiff.mp hall)
    rw [if_pos hwould] at hone
    exact absurd hone (by decide +kernel)
  · obtain ⟨s, s', hs, hs', hiff⟩ := reported_iff UInt64.toNat
      (tradedBefore.map (enterCall blank)) (enterCall blank buyerOfNone)
      (inRange_enterCalls (buyerOfNone :: tradedBefore) (by decide)) (by decide)
    refine ⟨s, s', hs, hs', fun hall => ?_⟩
    have hnot : ¬ (Book.empty.receiveAll (tradedBefore.map (enterCall blank))).wouldTrade
        buyerOfNone = true := by decide +kernel
    have hnone := reportable_enterCall.mp (hiff.mp hall)
    rw [if_neg hnot] at hnone
    -- the listener still has the message for the buyer of the trade before
    have hstale : ((init UInt64.toNat).handleAll (tradedBefore.map (enterCall blank))).map
        (fun s => reportedTo .buy 1 s.lastResponses) = .ok 1 := by decide +kernel
    rw [hs] at hstale
    exact absurd (hnone.symm.trans (Except.ok.inj hstale)) (by decide)

end ExchangeSession

end OpenHft
