import OpenHft.Proofs.HandlerCalls
import OpenHft.Proofs.OuchCodec

/-!
# From an intent to the answer

The whole way of an order: the sink numbers it and encodes it, the exchange decodes it,
takes it into the engine and encodes an answer, and the client decodes the answer. What
the transport reports does not matter to the sink, so the numbers are those of the calls
and not of the messages that got through.
-/

namespace OpenHft

namespace OuchExecutionSink

variable {τ : Type}

/-- A transport that also keeps what it is handed. -/
def recorded (send : OuchTransport τ) : OuchTransport (τ × List (List UInt8)) :=
  fun bytes state =>
    let (sent, transport) := send bytes state.1
    (sent, (transport, state.2 ++ [bytes]))

/-- What a new sink hands to its transport for these intents. -/
def messages (send : OuchTransport τ) (transport : τ) (intents : List OrderIntent) :
    List (List UInt8) :=
  (submitAll (recorded send) { transport := (transport, []) } intents).transport.2

/-- The bytes of an order with a number. -/
def message (userRefNum : UserRefNum) (intent : OrderIntent) : List UInt8 :=
  (OuchEncoder.encode (enterOrder userRefNum intent)).toList

theorem submitAll_recorded (send : OuchTransport τ) (intents : List OrderIntent)
    (sink : OuchExecutionSink (τ × List (List UInt8))) :
    (submitAll (recorded send) sink intents).transport.2 =
      sink.transport.2 ++
        intents.mapIdx fun n intent => message (sink.next + UInt32.ofNat n) intent := by
  induction intents generalizing sink with
  | nil => simp [submitAll]
  | cons intent intents ih =>
      have hrecorded : (sink.submit (recorded send) intent).2.transport.2 =
        sink.transport.2 ++ [message sink.next intent] := rfl
      have hnext : (sink.submit (recorded send) intent).2.next = sink.next + 1 := rfl
      have hcount : ∀ n, sink.next + 1 + UInt32.ofNat n = sink.next + UInt32.ofNat (n + 1) := by
        intro n
        rw [UInt32.ofNat_add, UInt32.add_assoc, UInt32.add_comm 1]
        rfl
      have hzero : sink.next + UInt32.ofNat 0 = sink.next := UInt32.add_zero _
      rw [submitAll, List.foldl_cons, ← submitAll, ih, hrecorded, hnext, List.mapIdx_cons, hzero,
        List.append_assoc, List.singleton_append]
      simp only [hcount]

/-- The n-th message, counted from zero. -/
theorem messages_getElem (send : OuchTransport τ) (transport : τ)
    {intents : List OrderIntent} {n : Nat} {intent : OrderIntent}
    (hn : intents[n]? = some intent) :
    (messages send transport intents)[n]? = some (message (UInt32.ofNat (n + 1)) intent) := by
  rw [messages, submitAll_recorded, List.nil_append, List.getElem?_mapIdx, hn, Option.map_some,
    UInt32.ofNat_add, UInt32.add_comm]
  rfl

theorem decodeEnterOrder_message (userRefNum : UserRefNum) (intent : OrderIntent) :
    OuchDecoder.decodeEnterOrder (.ofList (message userRefNum intent)) 47 =
      some (enterOrder userRefNum intent) :=
  decodeEnterOrder_encode (Bytes.startsWith_ofList _) (Nat.le_refl 47)

/-- The n-th submit of a sink, counted from zero, is taken by any handler with an object
left as an order with the side, the price and the quantity of the intent, and the answer
tells the client the number of the submit and the id of the order. -/
theorem intent_survives_wire (send : OuchTransport τ) (transport : τ)
    (intents : List OrderIntent) (n : Nat) (intent : OrderIntent)
    (hn : intents[n]? = some intent) (h : ExchangeOuchHandler) (accountId : AccountId)
    (hfree : h.matchingEngine.orderPool.freeList ≠ []) :
    ∃ bytes order engine response accepted,
      (messages send transport intents)[n]? = some bytes ∧ bytes.length = 47 ∧
      h.matchingEngine.prepareOrder accountId intent.side intent.price intent.quantity =
        (some order, engine) ∧
      h.handleEnterOrder accountId (.ofList bytes) 47 =
        (engine.process (some order)).map (fun processed =>
          (some response,
            { matchingEngine := processed
              sessionMap := h.sessionMap.registerOrder (engine.book.orders order).id
                (UInt32.ofNat (n + 1)) })) ∧
      (h.Inv → ValidPrice intent.price →
        ∃ processed, engine.process (some order) = .ok processed) ∧
      OuchResponseDispatcher.dispatch (.ofList response.toList) 64 =
        some (.accepted accepted) ∧
      accepted.userRefNum = UInt32.ofNat (n + 1) ∧ accepted.side = intent.side ∧
      accepted.quantity = intent.quantity ∧ accepted.symbol = intent.symbol ∧
      accepted.price = intent.price.toUInt64 ∧
      accepted.orderReferenceNumber = (engine.book.orders order).id := by
  obtain ⟨p, rest, hcons⟩ := List.exists_cons_of_ne_nil hfree
  have hprepare := EngineInv.prepareOrder_some hcons accountId intent.side intent.price
    intent.quantity
  have hd := decodeEnterOrder_message (UInt32.ofNat (n + 1)) intent
  refine ⟨message (UInt32.ofNat (n + 1)) intent, p, _, _,
    ExchangeOuchHandler.accept (enterOrder (UInt32.ofNat (n + 1)) intent) _,
    messages_getElem send transport hn, Vector.length_toList, hprepare,
    ExchangeOuchHandler.handleEnterOrder_prepared hd hprepare, ?_,
    dispatch_accept _ _, rfl, rfl, rfl, rfl, rfl, rfl⟩
  intro hinv hv
  obtain ⟨Q, he⟩ := hinv
  obtain ⟨processed, -, hok, -⟩ := MatchingEngine.process_new he hcons accountId intent.side hv
    intent.quantity
  exact ⟨processed, hok⟩

/-- The second submit of a sink whose transport never gets anything through: a sell order,
to a new exchange. -/
theorem intent_survives_wire_second_submit :
    ∃ order engine, ∃ accepted : Accepted,
      (MatchingEngine.init UInt64.toNat).prepareOrder 7 .sell 250 3 = (some order, engine) ∧
      (∃ processed, engine.process (some order) = .ok processed) ∧
      accepted.userRefNum = 2 ∧ accepted.side = .sell ∧ accepted.quantity = 3 ∧
      accepted.orderReferenceNumber = (engine.book.orders order).id := by
  obtain ⟨-, order, engine, -, accepted, -, -, hprepare, -, hok, -, href, hside, hquantity, -,
    -, hid⟩ := intent_survives_wire (fun _ _ => (false, ())) ()
      [{}, { side := .sell, price := 250, quantity := 3 }] 1 _ rfl
      (.init UInt64.toNat) 7 (List.cons_ne_nil _ _)
  exact ⟨order, engine, accepted, hprepare, hok ⟨_, engine_init_inv UInt64.toNat⟩ (by decide),
    href, hside, hquantity, hid⟩

end OuchExecutionSink

end OpenHft
