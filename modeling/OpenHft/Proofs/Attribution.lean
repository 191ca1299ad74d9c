import OpenHft.Proofs.EngineWrap
import OpenHft.Proofs.OrderWire

/-!
# Who hears of a trade

The listener finds the client of an order by the order's id, in a map that is only ever
added to. A trade names the order that is being worked on, which was registered before it
was processed, and an order that rested, which was registered by an earlier call; so both
are found. That it is the right client is a matter of ids being given out once: a second
order of the same number would take over the entry of the first. Orders and trades are
numbered by one counter, and `Numbered` keeps a run from going round it.
-/

namespace OpenHft

open OpenHft.Lib PriceTime

/-! ## The record of a session -/

/-- A call and its answer. -/
abbrev Answered := EnterOrderCall × Option AcceptedEncoder.Buffer

/-- The order id that an answer tells the client. -/
def acceptedId (response : AcceptedEncoder.Buffer) : Option OrderId :=
  match OuchResponseDispatcher.dispatch (.ofList response.toList) 64 with
  | some (.accepted message) => some message.orderReferenceNumber
  | _ => none

/-- The calls, and the order ids that the clients were told. -/
def told (answered : List Answered) : List (EnterOrderCall × Option OrderId) :=
  answered.map fun entry => (entry.1, entry.2.bind acceptedId)

/-- The ids of the orders accepted so far. -/
def orderIds (answered : List Answered) : List OrderId :=
  (told answered).filterMap Prod.snd

/-- The Enter Order was answered by an Accepted with this id. -/
def AcceptedAs (answered : List Answered) (id : OrderId) (enterOrder : EnterOrder) : Prop :=
  ∃ call, (call, some id) ∈ told answered ∧
    OuchDecoder.decodeEnterOrder call.data call.length = some enterOrder

/-- The message prepared for one side of a trade is for the client whose order was
accepted under this id, and tells the trade. -/
def Reported (answered : List Answered) (trade : Trade) (id : OrderId)
    (response : Option ExecutedEncoder.Buffer) : Prop :=
  ∃ enterOrder buffer message, AcceptedAs answered id enterOrder ∧ response = some buffer ∧
    OuchResponseDispatcher.dispatch (.ofList buffer.toList) 36 = some (.executed message) ∧
    message.userRefNum = enterOrder.userRefNum ∧ message.quantity = trade.quantity ∧
    message.price = trade.price.toUInt64 ∧ message.matchNumber = trade.sequence

section Record

variable {answered : List Answered} {call : EnterOrderCall} {enterOrder : EnterOrder}
  {id given : OrderId}

theorem acceptedId_encode (enterOrder : EnterOrder) (id : OrderId) :
    acceptedId (AcceptedEncoder.encode (ExchangeOuchHandler.accept enterOrder id)) =
      some id := by
  rw [acceptedId, dispatch_accept]
  rfl

theorem told_none (answered : List Answered) (call : EnterOrderCall) :
    told (answered ++ [(call, none)]) = told answered ++ [(call, none)] :=
  List.map_append

theorem told_accept (answered : List Answered) (call : EnterOrderCall)
    (enterOrder : EnterOrder) (id : OrderId) :
    told (answered ++ [(call, some (AcceptedEncoder.encode
      (ExchangeOuchHandler.accept enterOrder id)))]) = told answered ++ [(call, some id)] := by
  rw [← acceptedId_encode enterOrder id]
  exact List.map_append

theorem orderIds_none (answered : List Answered) (call : EnterOrderCall) :
    orderIds (answered ++ [(call, none)]) = orderIds answered := by
  rw [orderIds, told_none, List.filterMap_append]
  exact List.append_nil _

theorem orderIds_accept (answered : List Answered) (call : EnterOrderCall)
    (enterOrder : EnterOrder) (id : OrderId) :
    orderIds (answered ++ [(call, some (AcceptedEncoder.encode
      (ExchangeOuchHandler.accept enterOrder id)))]) = orderIds answered ++ [id] := by
  rw [orderIds, told_accept, List.filterMap_append]
  rfl

theorem AcceptedAs.mem_orderIds (h : AcceptedAs answered id enterOrder) :
    id ∈ orderIds answered := by
  obtain ⟨call, hmem, -⟩ := h
  exact List.mem_filterMap.mpr ⟨_, hmem, rfl⟩

theorem AcceptedAs.append (h : AcceptedAs answered id enterOrder) (more : List Answered) :
    AcceptedAs (answered ++ more) id enterOrder := by
  obtain ⟨call, hmem, hd⟩ := h
  refine ⟨call, ?_, hd⟩
  rw [told, List.map_append]
  exact List.mem_append_left _ hmem

theorem Reported.append {trade : Trade} {response : Option ExecutedEncoder.Buffer}
    (h : Reported answered trade id response) (more : List Answered) :
    Reported (answered ++ more) trade id response := by
  obtain ⟨enterOrder, buffer, message, haccepted, hrest⟩ := h
  exact ⟨enterOrder, buffer, message, haccepted.append more, hrest⟩

theorem acceptedAs_none (h : AcceptedAs (answered ++ [(call, none)]) id enterOrder) :
    AcceptedAs answered id enterOrder := by
  obtain ⟨call', hmem, hd⟩ := h
  rw [told_none] at hmem
  rcases List.mem_append.mp hmem with hmem | hmem
  · exact ⟨call', hmem, hd⟩
  · cases List.mem_singleton.mp hmem

theorem acceptedAs_last (answered : List Answered)
    (hd : OuchDecoder.decodeEnterOrder call.data call.length = some enterOrder) (id : OrderId) :
    AcceptedAs (answered ++ [(call, some (AcceptedEncoder.encode
      (ExchangeOuchHandler.accept enterOrder id)))]) id enterOrder := by
  refine ⟨call, ?_, hd⟩
  rw [told_accept]
  exact List.mem_append_right _ (List.mem_singleton.mpr rfl)

theorem acceptedAs_accept {enterOrder' : EnterOrder}
    (hd : OuchDecoder.decodeEnterOrder call.data call.length = some enterOrder)
    (h : AcceptedAs (answered ++ [(call, some (AcceptedEncoder.encode
      (ExchangeOuchHandler.accept enterOrder given)))]) id enterOrder') :
    AcceptedAs answered id enterOrder' ∨ id = given ∧ enterOrder' = enterOrder := by
  obtain ⟨call', hmem, hd'⟩ := h
  rw [told_accept] at hmem
  rcases List.mem_append.mp hmem with hmem | hmem
  · exact .inl ⟨call', hmem, hd'⟩
  · cases List.mem_singleton.mp hmem
    exact .inr ⟨rfl, Option.some.inj (hd'.symm.trans hd)⟩

end Record

/-! ## Numbers -/

/-- Numbers up to `m`, and others beyond it. -/
theorem nodup_append_of_le {l l' : List UInt64} {m : Nat} (h : l.Nodup) (h' : l'.Nodup)
    (hle : ∀ n ∈ l, n.toNat ≤ m) (hlt : ∀ n ∈ l', m < n.toNat) : (l ++ l').Nodup := by
  refine List.nodup_append'.mpr ⟨h, h', fun n hn hn' => ?_⟩
  have := hle n hn
  have := hlt n hn'
  omega

/-- The numbers of trades and orders stay distinct when an order gets the next number and
its trades those behind it. -/
theorem numbers_nodup {trades new : List Trade} {ids : List OrderId} {id : OrderId} {m : Nat}
    (h : (trades.map Trade.sequence ++ ids).Nodup)
    (hle : ∀ n ∈ trades.map Trade.sequence ++ ids, n.toNat ≤ m) (hid : id.toNat = m + 1)
    (hlt : ∀ t ∈ new, m + 1 < t.sequence.toNat)
    (hpairs : new.Pairwise fun t t' => t.sequence.toNat < t'.sequence.toNat) :
    ((trades ++ new).map Trade.sequence ++ (ids ++ [id])).Nodup := by
  have hperm : ((trades ++ new).map Trade.sequence ++ (ids ++ [id])).Perm
      (trades.map Trade.sequence ++ ids ++ id :: new.map Trade.sequence) := by
    rw [List.map_append, List.append_assoc, List.append_assoc]
    refine List.Perm.append_left _ (List.perm_append_comm.trans (.of_eq ?_))
    rw [List.append_assoc, List.singleton_append]
  have hnew : (new.map Trade.sequence).Nodup := by
    refine List.pairwise_map.mpr (hpairs.imp fun hlt heq => ?_)
    rw [heq] at hlt
    omega
  have hid' : id ∉ new.map Trade.sequence := by
    intro hmem
    obtain ⟨t, ht, heq⟩ := List.mem_map.mp hmem
    have := hlt t ht
    rw [heq] at this
    omega
  rw [hperm.nodup_iff]
  refine nodup_append_of_le h (List.nodup_cons.mpr ⟨hid', hnew⟩) hle fun n hn => ?_
  rcases List.mem_cons.mp hn with rfl | hn
  · omega
  · obtain ⟨t, ht, rfl⟩ := List.mem_map.mp hn
    have := hlt t ht
    omega

theorem numbers_le {trades new : List Trade} {ids : List OrderId} {id : OrderId} {m m' : Nat}
    (hle : ∀ n ∈ trades.map Trade.sequence ++ ids, n.toNat ≤ m) (hid : id.toNat = m + 1)
    (hm : m + 1 ≤ m') (hnew : ∀ t ∈ new, t.sequence.toNat ≤ m') :
    ∀ n ∈ (trades ++ new).map Trade.sequence ++ (ids ++ [id]), n.toNat ≤ m' := by
  intro n hn
  simp only [List.map_append, List.mem_append, List.mem_singleton] at hn
  rcases hn with (hold | hmade) | (hold | rfl)
  · have := hle n (List.mem_append_left _ hold)
    omega
  · obtain ⟨t, ht, rfl⟩ := List.mem_map.mp hmade
    exact hnew t ht
  · have := hle n (List.mem_append_right _ hold)
    omega
  · omega

/-! ## One call -/

theorem reported_of_registered {answered : List Answered} {id : OrderId}
    {enterOrder : EnterOrder} {sessionMap : ExchangeOrderSessionMap}
    (haccepted : AcceptedAs answered id enterOrder)
    (hmap : sessionMap id = some enterOrder.userRefNum) (trade : Trade) :
    Reported answered trade id ((sessionMap id).map fun userRefNum =>
      ExecutedEncoder.encode (ExchangeExecutionListener.executed trade userRefNum)) := by
  rw [hmap]
  exact ⟨enterOrder, _, _, haccepted, rfl, dispatch_execution trade _, rfl, rfl, rfl, rfl⟩

namespace ExchangeSession

variable {s : ExchangeSession} {R : Book} {n : Nat} {call : EnterOrderCall}
  {enterOrder : EnterOrder}

/-- After `n` calls: ids and trade numbers are all different, every accepted order is in the
session map, and every resting order is one of them. -/
structure Inv (s : ExchangeSession) (R : Book) (n : Nat) : Prop where
  refines : ∃ Q, Refines s.handler.matchingEngine Q [] R
  numbered : Numbered R n
  distinct : (R.trades.map Trade.sequence ++ orderIds s.answered).Nodup
  issued : ∀ number ∈ R.trades.map Trade.sequence ++ orderIds s.answered,
    number.toNat ≤ R.sequence.toNat
  registered : ∀ id enterOrder, AcceptedAs s.answered id enterOrder →
    s.handler.sessionMap id = some enterOrder.userRefNum
  resting : ∀ o ∈ R.orders, ∃ enterOrder, AcceptedAs s.answered o.id enterOrder
  published : s.executions.map Prod.fst = R.trades
  reported : ∀ entry ∈ s.executions,
    Reported s.answered entry.1 entry.1.buyOrderId entry.2.buyResponse ∧
      Reported s.answered entry.1 entry.1.sellOrderId entry.2.sellResponse

theorem inv_init (stdHash : OrderId → Nat) : Inv (init stdHash) Book.empty 0 where
  refines := ⟨_, init_refines stdHash⟩
  numbered := Numbered.empty
  distinct := List.nodup_nil
  issued := fun _ h => absurd h List.not_mem_nil
  registered := fun _ _ h => absurd h.mem_orderIds List.not_mem_nil
  resting := fun _ h => absurd h List.not_mem_nil
  published := rfl
  reported := fun _ h => absurd h List.not_mem_nil

theorem handle_ok {response : Option AcceptedEncoder.Buffer} {handler : ExchangeOuchHandler}
    (hcall : s.handler.handleEnterOrder call.accountId call.data call.length =
      .ok (response, handler)) :
    ∃ s', s.handle call = .ok s' ∧ s'.handler = handler ∧
      s'.answered = s.answered ++ [(call, response)] := by
  simp only [handle, hcall, bind, Except.bind]
  exact ⟨_, rfl, rfl, rfl⟩

/-- A call that is not answered. -/
theorem handle_unanswered (hcall : s.handler.handleEnterOrder call.accountId call.data
      call.length = .ok (none, s.handler)) :
    s.handle call = .ok { s with answered := s.answered ++ [(call, none)] } := by
  simp only [handle, hcall, bind, Except.bind, List.drop_length, List.map_nil,
    List.append_nil]

theorem Inv.unanswered (h : s.Inv R n) (call : EnterOrderCall) :
    Inv { s with answered := s.answered ++ [(call, none)] } R (n + 1) := by
  have hdrawn := h.numbered.drawn
  refine ⟨h.refines, ⟨by omega, h.numbered.issued⟩, ?_, ?_, ?_, ?_, h.published, ?_⟩
  · rw [orderIds_none]
    exact h.distinct
  · rw [orderIds_none]
    exact h.issued
  · intro id enterOrder haccepted
    exact h.registered id enterOrder (acceptedAs_none haccepted)
  · intro o ho
    obtain ⟨enterOrder, haccepted⟩ := h.resting o ho
    exact ⟨enterOrder, haccepted.append _⟩
  · intro entry hentry
    obtain ⟨hbuy, hsell⟩ := h.reported entry hentry
    exact ⟨hbuy.append _, hsell.append _⟩

/-- The session after an order has been accepted under `id` and has made some trades. -/
def accepted (s : ExchangeSession) (call : EnterOrderCall) (enterOrder : EnterOrder)
    (id : OrderId) (engine : MatchingEngine) (new : List Trade) : ExchangeSession where
  handler := s.handler.taken enterOrder id engine
  answered := s.answered ++
    [(call, some (AcceptedEncoder.encode (ExchangeOuchHandler.accept enterOrder id)))]
  executions := s.executions ++ new.map fun trade =>
    (trade, ExchangeExecutionListener.onTrade
      (s.handler.taken enterOrder id engine).sessionMap trade)

theorem handle_accepted {id : OrderId} {engine : MatchingEngine} {new : List Trade}
    (hcall : s.handler.handleEnterOrder call.accountId call.data call.length =
      .ok (some (AcceptedEncoder.encode (ExchangeOuchHandler.accept enterOrder id)),
        s.handler.taken enterOrder id engine))
    (hnew : engine.published = s.handler.matchingEngine.published ++ new) :
    s.handle call = .ok (s.accepted call enterOrder id engine new) := by
  have hpublished : (s.handler.taken enterOrder id engine).matchingEngine.published =
    s.handler.matchingEngine.published ++ new := hnew
  simp only [handle, hcall, bind, Except.bind, hpublished, List.drop_left,
    ← ExchangeOuchHandler.handleEnterOrder_sessionMap hcall]
  rfl

/-- The map after the call, for the orders accepted before and in it. -/
theorem Inv.registered_accepted (h : s.Inv R n) (hfit : R.sequence.toNat + 1 < 2 ^ 64)
    (hd : OuchDecoder.decodeEnterOrder call.data call.length = some enterOrder)
    (engine : MatchingEngine) (new : List Trade) (id : OrderId) (enterOrder' : EnterOrder)
    (haccepted : AcceptedAs
      (s.accepted call enterOrder (R.sequence + 1) engine new).answered id enterOrder') :
    (s.accepted call enterOrder (R.sequence + 1) engine new).handler.sessionMap id =
      some enterOrder'.userRefNum := by
  show Function.update s.handler.sessionMap (R.sequence + 1) (some enterOrder.userRefNum) id = _
  rcases acceptedAs_accept hd haccepted with hold | ⟨rfl, rfl⟩
  · have hle := h.issued id (List.mem_append_right _ hold.mem_orderIds)
    have hne : id ≠ R.sequence + 1 := by
      intro heq
      rw [heq, toNat_succ hfit] at hle
      omega
    rw [Function.update_of_ne hne]
    exact h.registered id enterOrder' hold
  · exact Function.update_self ..

/-- An order that rested, or the one just accepted, has its answer in the record. -/
theorem Inv.found (h : s.Inv R n)
    (hd : OuchDecoder.decodeEnterOrder call.data call.length = some enterOrder)
    (engine : MatchingEngine) (new : List Trade) (id : OrderId)
    (hid : (∃ r ∈ R.orders, id = r.id) ∨ id = R.sequence + 1) :
    ∃ placed, AcceptedAs
      (s.accepted call enterOrder (R.sequence + 1) engine new).answered id placed := by
  rcases hid with ⟨r, hr, rfl⟩ | rfl
  · obtain ⟨placed, haccepted⟩ := h.resting r hr
    exact ⟨placed, haccepted.append _⟩
  · exact ⟨enterOrder, acceptedAs_last s.answered hd (R.sequence + 1)⟩

/-- Both sides of a trade made by the call are told. -/
theorem Inv.reported_accepted (h : s.Inv R n) (hfit : R.sequence.toNat + 1 < 2 ^ 64)
    (hd : OuchDecoder.decodeEnterOrder call.data call.length = some enterOrder)
    (engine : MatchingEngine) (new : List Trade) {t : Trade} {r : OrderData}
    (hr : r ∈ R.orders) (hnames : ∀ id, t.Names id ↔ R.sequence + 1 = id ∨ r.id = id)
    {id : OrderId} (hid : t.Names id) :
    Reported (s.accepted call enterOrder (R.sequence + 1) engine new).answered t id
      (((s.accepted call enterOrder (R.sequence + 1) engine new).handler.sessionMap id).map
        fun userRefNum => ExecutedEncoder.encode
          (ExchangeExecutionListener.executed t userRefNum)) := by
  obtain ⟨placed, haccepted⟩ := h.found hd engine new id (by
    rcases (hnames id).mp hid with rfl | rfl
    · exact .inr rfl
    · exact .inl ⟨r, hr, rfl⟩)
  exact reported_of_registered haccepted
    (h.registered_accepted hfit hd engine new id placed haccepted) t

theorem Inv.accepted (h : s.Inv R n) (hn : 1000 + 2 * (n + 1) < 2 ^ 64)
    (hd : OuchDecoder.decodeEnterOrder call.data call.length = some enterOrder)
    {engine : MatchingEngine} {Q : Queues} {R' : Book} {sub : Submission}
    (hrefines : Refines engine Q [] R') (htaken : Taken R sub R') {new : List Trade}
    (hnew : R'.trades = R.trades ++ new)
    (hnamed : ∀ t ∈ new, ∃ r ∈ R.orders, ∀ id,
      t.Names id ↔ R.sequence + 1 = id ∨ r.id = id) :
    Inv (s.accepted call enterOrder (R.sequence + 1) engine new) R' (n + 1) := by
  have hdrawn := h.numbered.drawn
  have hfit : R.sequence.toNat + 1 < 2 ^ 64 := by omega
  have hid : (R.sequence + 1).toNat = R.sequence.toNat + 1 := toNat_succ hfit
  obtain ⟨-, hmono⟩ := htaken.drawn_le (by omega)
  obtain ⟨hbounds, hpairs⟩ := htaken.trades_increasing (by omega) hnew
  have hids : orderIds (s.accepted call enterOrder (R.sequence + 1) engine new).answered =
      orderIds s.answered ++ [R.sequence + 1] :=
    orderIds_accept s.answered call enterOrder (R.sequence + 1)
  refine ⟨⟨Q, hrefines⟩, h.numbered.taken htaken hn, ?_, ?_,
    h.registered_accepted hfit hd engine new,
    fun o ho => h.found hd engine new o.id (htaken.orders_ids ho), ?_, ?_⟩
  · rw [hnew, hids]
    exact numbers_nodup h.distinct h.issued hid (fun t ht => (hbounds t ht).1) hpairs
  · rw [hnew, hids]
    exact numbers_le h.issued hid hmono fun t ht => (hbounds t ht).2
  · show (s.executions ++ new.map _).map Prod.fst = R'.trades
    rw [List.map_append, h.published, List.map_map, hnew]
    exact congrArg _ (List.map_id _)
  · intro entry hentry
    rcases List.mem_append.mp hentry with hentry | hentry
    · obtain ⟨hbuy, hsell⟩ := h.reported entry hentry
      exact ⟨hbuy.append _, hsell.append _⟩
    · obtain ⟨t, ht, rfl⟩ := List.mem_map.mp hentry
      obtain ⟨r, hr, hnames⟩ := hnamed t ht
      exact ⟨h.reported_accepted hfit hd engine new hr hnames (.inl rfl),
        h.reported_accepted hfit hd engine new hr hnames (.inr rfl)⟩

/-- The price of the order in the call, if there is one, is in range. -/
def PriceInRange (call : EnterOrderCall) : Prop :=
  ∀ enterOrder, OuchDecoder.decodeEnterOrder call.data call.length = some enterOrder →
    ValidPrice enterOrder.price.toInt64

theorem Inv.handle (h : s.Inv R n) (hn : 1000 + 2 * (n + 1) < 2 ^ 64)
    (hprice : PriceInRange call) :
    ∃ s' R', s.handle call = .ok s' ∧ s'.Inv R' (n + 1) := by
  cases hd : OuchDecoder.decodeEnterOrder call.data call.length with
  | none =>
      exact ⟨_, R, handle_unanswered (ExchangeOuchHandler.handleEnterOrder_undecoded hd),
        h.unanswered call⟩
  | some enterOrder =>
      by_cases hfree : s.handler.matchingEngine.orderPool.freeList = []
      · exact ⟨_, R,
          handle_unanswered (ExchangeOuchHandler.handleEnterOrder_exhausted hd hfree),
          h.unanswered call⟩
      · obtain ⟨Q, hrefines⟩ := h.refines
        obtain ⟨engine, Q', hok, hrefines'⟩ := hrefines.enter
          (s := ⟨call.accountId, enterOrder.side, enterOrder.price.toInt64,
            enterOrder.quantity⟩) (hprice enterOrder hd) hfree (h.numbered.fresh hn)
        obtain ⟨new, hnew, hnamed⟩ := (enter_taken R ⟨call.accountId, enterOrder.side,
          enterOrder.price.toInt64, enterOrder.quantity⟩).trades_suffix
        have hcall := ExchangeOuchHandler.handleEnterOrder_taken hd hfree hok
        have hpublished : engine.published = s.handler.matchingEngine.published ++ new := by
          rw [hrefines'.trades, hnew, hrefines.trades]
        exact ⟨_, _, handle_accepted hcall hpublished,
          h.accepted hn hd hrefines' (enter_taken R _) hnew hnamed⟩

/-! ## Runs -/

theorem Inv.handleAll {calls : List EnterOrderCall} (h : s.Inv R n)
    (hn : 1000 + 2 * (n + calls.length) < 2 ^ 64) (hprices : ∀ call ∈ calls, PriceInRange call) :
    ∃ s' R', s.handleAll calls = .ok s' ∧ s'.Inv R' (n + calls.length) := by
  induction calls generalizing s R n with
  | nil => exact ⟨s, R, rfl, h⟩
  | cons call calls ih =>
      rw [List.length_cons] at hn ⊢
      obtain ⟨s₁, R₁, hok, h₁⟩ := h.handle (by omega) (hprices call List.mem_cons_self)
      obtain ⟨s', R', hok', h'⟩ := ih h₁ (by omega)
        fun c hc => hprices c (List.mem_cons_of_mem _ hc)
      refine ⟨s', R', ?_, ?_⟩
      · simp only [ExchangeSession.handleAll, hok, bind, Except.bind]
        exact hok'
      · have hcount : n + (calls.length + 1) = n + 1 + calls.length := by omega
        rw [hcount]
        exact h'

theorem handle_answered {s' : ExchangeSession} (h : s.handle call = .ok s') :
    s'.answered.map Prod.fst = s.answered.map Prod.fst ++ [call] := by
  cases hcall : s.handler.handleEnterOrder call.accountId call.data call.length with
  | error fault =>
      rw [handle, hcall] at h
      cases h
  | ok out =>
      obtain ⟨s₁, hok, -, hanswered⟩ := handle_ok hcall
      cases hok.symm.trans h
      rw [hanswered]
      exact List.map_append

theorem handleAll_answered {calls : List EnterOrderCall} {s' : ExchangeSession}
    (h : s.handleAll calls = .ok s') :
    s'.answered.map Prod.fst = s.answered.map Prod.fst ++ calls := by
  induction calls generalizing s with
  | nil =>
      cases h
      exact (List.append_nil _).symm
  | cons call calls ih =>
      cases hok : s.handle call with
      | error fault =>
          rw [handleAll, hok] at h
          cases h
      | ok s₁ =>
          rw [handleAll, hok] at h
          rw [ih h, handle_answered hok, List.append_assoc, List.singleton_append]

/-- After every run that is short enough for the counter, the messages prepared for either
side of every trade are for the clients whose orders were accepted under the ids the trade
names, and the numbers of all trades and orders are distinct. -/
theorem trades_attributed (stdHash : OrderId → Nat) (calls : List EnterOrderCall)
    (hprices : ∀ call ∈ calls, PriceInRange call) (hlen : calls.length < 2 ^ 63 - 500) :
    ∃ s, (init stdHash).handleAll calls = .ok s ∧ s.answered.map Prod.fst = calls ∧
      s.executions.map Prod.fst = s.handler.matchingEngine.published ∧
      (∀ entry ∈ s.executions,
        Reported s.answered entry.1 entry.1.buyOrderId entry.2.buyResponse ∧
          Reported s.answered entry.1 entry.1.sellOrderId entry.2.sellResponse) ∧
      (s.handler.matchingEngine.published.map Trade.sequence ++
        orderIds s.answered).Nodup := by
  obtain ⟨s, R, hok, h⟩ := (inv_init stdHash).handleAll (by omega) hprices
  obtain ⟨Q, hrefines⟩ := h.refines
  refine ⟨s, hok, handleAll_answered hok, ?_, h.reported, ?_⟩
  · rw [h.published, hrefines.trades]
  · rw [hrefines.trades]
    exact h.distinct

/-- The order in the call is this submission. -/
def Carries (call : EnterOrderCall) (sub : Submission) : Prop :=
  ∃ enterOrder, OuchDecoder.decodeEnterOrder call.data call.length = some enterOrder ∧
    sub = ⟨call.accountId, enterOrder.side, enterOrder.price.toInt64, enterOrder.quantity⟩

/-- The message of a submission, for a symbol. -/
def enterCall (symbol : Symbol) (sub : Submission) : EnterOrderCall where
  accountId := sub.accountId
  data := .ofList (OuchExecutionSink.message 1
    { side := sub.side, symbol := symbol, price := sub.price, quantity := sub.quantity })
  length := 47

theorem decode_enterCall (symbol : Symbol) (sub : Submission) :
    OuchDecoder.decodeEnterOrder (enterCall symbol sub).data (enterCall symbol sub).length =
      some (OuchExecutionSink.enterOrder 1
        { side := sub.side, symbol := symbol, price := sub.price, quantity := sub.quantity }) := by
  dsimp only [enterCall]
  exact OuchExecutionSink.decodeEnterOrder_message 1
    { side := sub.side, symbol := symbol, price := sub.price, quantity := sub.quantity }

theorem enterCall_carries (symbol : Symbol) (sub : Submission) :
    Carries (enterCall symbol sub) sub :=
  ⟨_, decode_enterCall symbol sub, rfl⟩

theorem Carries.inRange {sub : Submission} (h : Carries call sub) (hv : ValidPrice sub.price) :
    PriceInRange call := by
  obtain ⟨enterOrder, hd, rfl⟩ := h
  intro enterOrder' hd'
  rw [← Option.some.inj (hd.symm.trans hd')]
  exact hv

/-- Eight spaces. -/
def blank : Symbol := Vector.replicate 8 32

/-- Three of five shares on offer are bought. -/
def crossing : List Submission := [⟨1, .sell, 10, 5⟩, ⟨2, .buy, 11, 3⟩]

/-- Two orders that cross. -/
theorem trades_attributed_one_trade :
    ∃ s, (init UInt64.toNat).handleAll (crossing.map (enterCall blank)) =
        .ok s ∧ s.handler.matchingEngine.published ≠ [] ∧
      ∀ entry ∈ s.executions,
        Reported s.answered entry.1 entry.1.buyOrderId entry.2.buyResponse ∧
          Reported s.answered entry.1 entry.1.sellOrderId entry.2.sellResponse := by
  obtain ⟨s, hok, -, -, hreported, -⟩ := trades_attributed UInt64.toNat
    (crossing.map (enterCall blank)) (fun call hcall => by
      obtain ⟨sub, hsub, rfl⟩ := List.mem_map.mp hcall
      exact (enterCall_carries blank sub).inRange
        ((by decide : ∀ sub ∈ crossing, ValidPrice sub.price) sub hsub)) (by decide)
  refine ⟨s, hok, ?_, hreported⟩
  have hpublished : ((init UInt64.toNat).handleAll (crossing.map (enterCall blank))).map
      (fun s => s.handler.matchingEngine.published.length) = .ok 1 := by decide +kernel
  rw [hok] at hpublished
  intro hnil
  have hlength : s.handler.matchingEngine.published.length = 1 := Except.ok.inj hpublished
  rw [hnil] at hlength
  cases hlength

/-- A run of the engine that finds an object for every call, from the messages. -/
theorem handleAll_submitAll {calls : List EnterOrderCall} {subs : List Submission}
    (hcalls : List.Forall₂ Carries calls subs) {ids : List OrderId} {e : MatchingEngine}
    (hok : s.handler.matchingEngine.submitAll subs = .ok (ids, e))
    (hpool : s.handler.matchingEngine.poolSuffices subs = true) :
    ∃ s', s.handleAll calls = .ok s' ∧ s'.handler.matchingEngine = e ∧
      told s'.answered = told s.answered ++ calls.zip (ids.map some) ∧
      orderIds s'.answered = orderIds s.answered ++ ids := by
  induction hcalls generalizing s ids with
  | nil =>
      cases hok
      exact ⟨s, rfl, rfl, (List.append_nil _).symm, (List.append_nil _).symm⟩
  | @cons call sub calls subs hcarries hcalls ih =>
      obtain ⟨enterOrder, hd, rfl⟩ := hcarries
      obtain ⟨id, e₁, ids', hsubmit, hrest, rfl⟩ := MatchingEngine.submitAll_cons_ok hok
      rw [MatchingEngine.poolSuffices, Bool.and_eq_true, decide_eq_true_eq, hsubmit] at hpool
      have hfree : s.handler.matchingEngine.orderPool.freeList ≠ [] := by
        intro hnil
        exact hpool.1 (by rw [OrderPool.available, hnil]; rfl)
      obtain ⟨s₁, hok₁, hhandler, hanswered⟩ := handle_ok
        (ExchangeOuchHandler.handleEnterOrder_taken hd hfree hsubmit)
      have hengine : s₁.handler.matchingEngine = e₁ := by
        rw [hhandler]
        rfl
      rw [← hengine] at hrest
      obtain ⟨s', hok', hend, htold, hids⟩ := ih hrest (by
        rw [hengine]
        exact hpool.2)
      refine ⟨s', ?_, hend, ?_, ?_⟩
      · rw [handleAll, hok₁]
        exact hok'
      · rw [htold, hanswered, told_accept, List.append_assoc]
        rfl
      · rw [hids, hanswered, orderIds_accept, List.append_assoc, List.singleton_append]

theorem forall_carries (symbol : Symbol) (subs : List Submission) :
    List.Forall₂ Carries (subs.map (enterCall symbol)) subs := by
  induction subs with
  | nil => exact .nil
  | cons sub subs ih => exact .cons (enterCall_carries symbol sub) ih

/-- Once the counter has gone round, two clients are told the same order id. -/
theorem wrapped_session_repeats_id :
    (∀ call ∈ Wrap.shortRun.map (enterCall blank), PriceInRange call) ∧
      ∀ stdHash, ∃ s, (init stdHash).handleAll (Wrap.shortRun.map (enterCall blank)) = .ok s ∧
        ¬ (orderIds s.answered).Nodup := by
  refine ⟨fun call hcall => ?_, fun stdHash => ?_⟩
  · obtain ⟨sub, hsub, rfl⟩ := List.mem_map.mp hcall
    exact (enterCall_carries blank sub).inRange (Wrap.shortRun_valid sub hsub)
  · obtain ⟨ids, e, hok, -⟩ := Wrap.shortRun_namesakes stdHash
    obtain ⟨s, hok', -, -, hids⟩ := handleAll_submitAll (s := init stdHash)
      (forall_carries blank Wrap.shortRun) hok (Wrap.shortRun_pool stdHash)
    refine ⟨s, hok', ?_⟩
    rw [hids]
    intro hnodup
    have hfirst : (1001 : OrderId) ∉ ids ++ [1001] := (List.nodup_cons.mp hnodup).1
    exact hfirst (List.mem_append_right _ (List.mem_singleton.mpr rfl))

end ExchangeSession

end OpenHft
