import OpenHft.Proofs.ServerAnswers
import OpenHft.Proofs.WireCodec

/-!
# Messages with an appendage

The last two bytes of an Enter Order say how many bytes of options follow it. The decoder
reads that number and nobody acts on it: the server counts to 47, hands the block over and
starts to count again. So what it hands over are the 47-byte blocks of the stream
(`Framed`), on the connections that are open and on those that were closed. They are the
fixed parts of the messages as long as no message has an appendage. The first one that has
puts the blocks out of step, and from there on the server takes orders from wherever the
blocks happen to begin.
-/

namespace OpenHft

open OpenHft.Lib

/-! ## Connections that have been closed -/

/-- The blocks handled are the stream's, from its beginning. -/
def Connection.Framed (c : Connection) : Prop := c.handledBytes <+: c.stream

theorem Connection.Ok.framed {c : Connection} (h : c.Ok) : c.Framed := by
  rw [Framed, h.input, List.append_assoc]
  exact List.prefix_append _ _

namespace ExchangeTcpServer

variable {s : ExchangeTcpServer} {fd : Nat} {c : Connection} {caller : FlushCaller}
  {events : List EpollEvent}

/-- All clients, closed or not. -/
structure AllFramed (s : ExchangeTcpServer) : Prop where
  clients : ∀ fd c, s.clients fd = some c → c.Framed
  closed : ∀ c ∈ s.closed, c.Framed

namespace AllFramed

theorem of_init (accountId : AccountId) (handler : ExchangeOuchHandler) :
    AllFramed (init accountId handler) :=
  ⟨nofun, nofun⟩

theorem setClient (h : s.AllFramed) (hc : c.Framed) : (s.setClient fd c).AllFramed := by
  refine ⟨fun fd' c' hc' => ?_, h.closed⟩
  rcases eq_or_ne fd' fd with rfl | hne
  · cases (setClient_self s _ _).symm.trans hc'
    exact hc
  · exact h.clients fd' c' ((setClient_of_ne hne).symm.trans hc')

theorem closeClient (h : s.AllFramed) (fd : Nat) : (s.closeClient fd).AllFramed := by
  unfold ExchangeTcpServer.closeClient
  split
  · exact h
  · next c hc =>
      refine ⟨fun fd' c' hc' => ?_, fun c' hc' => ?_⟩
      · dsimp only at hc'
        rcases eq_or_ne fd' fd with rfl | hne
        · rw [Function.update_self] at hc'
          cases hc'
        · rw [Function.update_of_ne hne] at hc'
          exact h.clients fd' c' hc'
      · rcases List.mem_append.mp hc' with hc' | hc'
        · exact h.closed c' hc'
        · rw [List.mem_singleton.mp hc']
          exact h.clients fd c hc

theorem at_phase (h : s.AllFramed) (phase : ServerPhase) :
    AllFramed { s with phase := phase } := ⟨h.clients, h.closed⟩

theorem flushPendingWrite (h : s.AllFramed) (hc : c.Framed) :
    (s.flushPendingWrite fd c caller events).AllFramed := by
  unfold ExchangeTcpServer.flushPendingWrite
  split
  · exact (h.setClient hc).at_phase _
  · refine AllFramed.at_phase (h.setClient ?_) _
    exact hc

theorem pollEvents (h : s.AllFramed) (events : List EpollEvent) :
    (s.pollEvents events).AllFramed := by
  induction events generalizing s with
  | nil => exact h.at_phase _
  | cons event events ih =>
      cases event with
      | listen => exact h.at_phase _
      | client fd hangup writable readable =>
          unfold ExchangeTcpServer.pollEvents
          split
          · exact ih (h.closeClient fd)
          · split
            · exact ih h
            · next c hc =>
                split
                · exact h.flushPendingWrite (h.clients fd c hc)
                · split
                  · exact h.at_phase _
                  · exact ih h

theorem flushed (h : s.AllFramed) (hc : c.Framed) (ok : Bool) :
    (s.flushed fd c ok caller events).AllFramed := by
  unfold ExchangeTcpServer.flushed
  split
  · cases caller with
    | sendAll =>
        refine AllFramed.at_phase (h.setClient ?_) _
        exact hc
    | pollOnce readable =>
        dsimp only
        split
        · exact h.at_phase _
        · exact h.pollEvents events
  · exact (h.closeClient fd).pollEvents events

/-- A block that is handled, whatever becomes of it. -/
theorem handleBlock (h : s.AllFramed)
    (hc : Connection.Framed { c with handled := c.handled ++ [c.state.receiveBuffer] }) :
    (s.handleBlock fd c events).AllFramed := by
  unfold ExchangeTcpServer.handleBlock
  dsimp only
  split
  · exact ⟨(h.setClient hc).clients, h.closed⟩
  · next handler _ =>
      have hs : AllFramed { s with handler := handler } := ⟨h.clients, h.closed⟩
      exact ((hs.setClient hc).closeClient fd).pollEvents events
  · next response handler _ =>
      have hs : AllFramed { s with handler := handler } := ⟨h.clients, h.closed⟩
      unfold ExchangeTcpServer.sendAll
      split
      · refine ((hs.setClient ?_).closeClient fd).pollEvents events
        exact hc
      · refine hs.flushPendingWrite ?_
        exact hc

theorem handleClientReadable (h : s.AllFramed) (hc : s.clients fd = some c) (hready : c.Ready)
    (answer : Answer) : (s.handleClientReadable fd c events answer).AllFramed := by
  unfold ExchangeTcpServer.handleClientReadable
  split
  · next more =>
      have hunread := c.delivered_append (more + 1)
      dsimp only
      generalize c.delivered (more + 1) = bytes at hunread ⊢
      split
      · exact h
      · split
        · next hfull => exact h.handleBlock (hready.receive_full hfull hunread).framed
        · exact h.setClient (h.clients fd c hc)
  · exact (h.closeClient fd).pollEvents events
  · exact (h.closeClient fd).pollEvents events
  · exact h.pollEvents events
  · exact h

theorem acceptClients (h : s.AllFramed) (answer : Answer) :
    (s.acceptClients events answer).AllFramed := by
  unfold ExchangeTcpServer.acceptClients
  split
  · next fd added stream =>
      split
      · unfold emplace
        split
        · exact h.setClient (Connection.init_ready stream).ok.framed
        · exact h
      · exact h.at_phase _
  · exact h.pollEvents events
  · exact h.at_phase _
  · exact h

theorem afterSend (h : s.AllFramed) (hc : s.clients fd = some c) (answer : Answer) :
    (s.afterSend fd c caller events answer).AllFramed := by
  unfold ExchangeTcpServer.afterSend
  split
  · exact h.flushPendingWrite (h.clients fd c hc)
  · exact h.at_phase _
  · exact h.flushed (h.clients fd c hc) false
  · exact h

theorem step (h : s.AllFramed) (hinv : s.Inv) (answer : Answer) :
    (s.step answer).AllFramed := by
  unfold ExchangeTcpServer.step
  split
  · exact h
  · next hfault =>
      have hnone : s.fault = none := Option.not_isSome_iff_eq_none.mp hfault
      split
      · split
        · exact h.pollEvents _
        · exact h
      · exact h.acceptClients answer
      · next fd events hphase =>
          split
          · exact h
          · next c hc =>
              have hready := hinv.allReady hnone (fun fd' => by rw [hphase]; exact id) fd c hc
              exact h.handleClientReadable hc hready answer
      · split
        · exact h
        · next c hc => exact h.afterSend hc answer
      · split
        · exact h
        · next c hc =>
            split
            · exact h.flushed (h.clients _ c hc) true
            · exact h.flushed (h.clients _ c hc) false
            · exact h

theorem run (h : s.AllFramed) (hinv : s.Inv) (answers : List Answer) :
    (s.run answers).AllFramed := by
  induction answers generalizing s with
  | nil => exact h
  | cons answer answers ih => exact ih (h.step hinv answer) (hinv.step answer)

end AllFramed

end ExchangeTcpServer

/-! ## Streams of messages -/

/-- The number in the last two bytes of an Enter Order. -/
def declaredLength (fixed : Vector UInt8 EnterOrderSize) : UInt16 :=
  readUint16 ((Bytes.ofList fixed.toList).drop 45)

/-- An Enter Order followed by as many bytes as it announces. -/
structure EnterOrderMessage where
  fixed : Vector UInt8 EnterOrderSize
  appendage : List UInt8
  type : Bytes.ofList fixed.toList 0 = 'O'.toUInt8
  length : appendage.length = (declaredLength fixed).toNat

namespace EnterOrderMessage

/-- The message with its appendage. -/
def bytes (m : EnterOrderMessage) : List UInt8 := m.fixed.toList ++ m.appendage

/-- Messages as one stream. -/
def wire (messages : List EnterOrderMessage) : List UInt8 := messages.flatMap bytes

variable {messages : List EnterOrderMessage}

theorem wire_cons (m : EnterOrderMessage) (messages : List EnterOrderMessage) :
    wire (m :: messages) = m.fixed.toList ++ (m.appendage ++ wire messages) := by
  rw [wire, List.flatMap_cons, bytes, List.append_assoc]
  rfl

/-- No message announces anything. -/
def Plain (messages : List EnterOrderMessage) : Prop :=
  ∀ m ∈ messages, declaredLength m.fixed = 0

theorem Plain.wire_eq (h : Plain messages) :
    wire messages = ((messages.map fixed).map Vector.toList).flatten := by
  induction messages with
  | nil => rfl
  | cons m messages ih =>
      have hnone : m.appendage = [] := by
        rw [← List.length_eq_zero_iff, m.length, h m List.mem_cons_self]
        rfl
      rw [wire_cons, hnone, List.nil_append, ih fun x hx => h x (List.mem_cons_of_mem m hx)]
      rfl

end EnterOrderMessage

open EnterOrderMessage

theorem length_flatten_blocks (blocks : List (Vector UInt8 EnterOrderSize)) :
    ((blocks.map Vector.toList).flatten).length = EnterOrderSize * blocks.length := by
  induction blocks with
  | nil => rfl
  | cons block blocks ih =>
      rw [List.map_cons, List.flatten_cons, List.length_append, ih, Vector.length_toList,
        List.length_cons, Nat.mul_succ, Nat.add_comm]

namespace Connection

variable {c : Connection} {messages : List EnterOrderMessage}

/-- What was handled are the fixed parts of the first messages. -/
def Handles (c : Connection) (messages : List EnterOrderMessage) : Prop :=
  c.handled <+: messages.map fixed

/-- Every message that has been received as a whole has been handled. -/
def UpToDate (c : Connection) (messages : List EnterOrderMessage) : Prop :=
  ∀ k ≤ messages.length, (wire (messages.take k)).length + c.unread.length ≤ c.stream.length →
    k ≤ c.handled.length

theorem Framed.handles (h : c.Framed) (hstream : c.stream = wire messages)
    (hplain : Plain messages) : c.Handles messages := by
  rw [Framed, hstream, hplain.wire_eq] at h
  have hsize (blocks : List (Vector UInt8 EnterOrderSize)) :
      ∀ b ∈ blocks.map Vector.toList, b.length = EnterOrderSize := by
    intro b hb
    obtain ⟨v, -, rfl⟩ := List.mem_map.mp hb
    exact Vector.length_toList
  obtain ⟨front, hfront, heq⟩ := List.prefix_map_iff.mp
    (prefix_of_flatten (Nat.zero_lt_succ 46) (hsize _) (hsize _) h)
  have hsame : c.handled = front :=
    List.map_injective_iff.mpr (fun _ _ => Vector.toList_inj.mp) heq
  rw [Handles, hsame]
  exact hfront

theorem Ok.upToDate (h : c.Ok) (hplain : Plain messages) : c.UpToDate messages := by
  intro k hk hreceived
  have hpart : c.partialBlock.length < EnterOrderSize := by
    rw [partialBlock, List.length_take]
    exact Nat.lt_of_le_of_lt (Nat.min_le_left _ _) (Nat.mod_lt _ (Nat.zero_lt_succ 46))
  have hlength := congrArg List.length h.input
  rw [List.length_append, List.length_append, handledBytes, length_flatten_blocks] at hlength
  have htaken : Plain (messages.take k) := fun m hm => hplain m (List.mem_of_mem_take hm)
  rw [htaken.wire_eq, length_flatten_blocks, List.length_map, List.length_take,
    Nat.min_eq_left hk] at hreceived
  unfold EnterOrderSize at *
  omega

end Connection

namespace ExchangeTcpServer

variable {s : ExchangeTcpServer} {fd : Nat} {c : Connection} {caller : FlushCaller}
  {events : List EpollEvent} {block : Vector UInt8 EnterOrderSize} {rest : List UInt8}
  {handler : ExchangeOuchHandler}

/-- `handleEnterOrder` is called once for every message, with its fixed part, on every
connection whose client sends messages with appendages of these lengths. -/
def OneCallPerMessage (lengths : Set UInt16) (s : ExchangeTcpServer) : Prop :=
  ∀ messages, (∀ m ∈ messages, declaredLength m.fixed ∈ lengths) →
    (∀ fd c, s.clients fd = some c → c.stream = wire messages →
      c.Handles messages ∧ c.UpToDate messages) ∧
    ∀ c ∈ s.closed, c.stream = wire messages → c.Handles messages

/-! ## A client that is served -/

/-- The server is about to receive a block of this client, to whom nothing is pending. -/
structure Awaiting (s : ExchangeTcpServer) (fd : Nat) (c : Connection) : Prop where
  running : s.fault = none
  phase : s.phase = .recv fd []
  client : s.clients fd = some c
  flushed : c.state.sendBuffer = []
  empty : c.state.receivedBytes = 0

theorem run_connect (accountId : AccountId) (handler : ExchangeOuchHandler)
    (stream : List UInt8) :
    Awaiting ((init accountId handler).run [.events [.listen], .connection 5 true stream, .again,
      .events [.client 5 false false true]]) 5 (.init stream) :=
  ⟨rfl, rfl, rfl, rfl, rfl⟩

/-- A whole block is delivered at once. -/
theorem Awaiting.step_block (h : s.Awaiting fd c) (hunread : c.unread = block.toList ++ rest) :
    (c.receive block.toList).state.receiveBuffer = block ∧
      s.step (.bytes 46) = s.handleBlock fd (c.receive block.toList) [] := by
  have hlength : block.toList.length = EnterOrderSize := Vector.length_toList
  have hdelivered : c.delivered (46 + 1) = block.toList := by
    rw [Connection.delivered, h.empty, hunread]
    exact List.take_left' hlength
  constructor
  · have hwritten : (writeBuffer c.state.receiveBuffer 0 block.toList).toList.take
        (0 + block.toList.length) = [] ++ block.toList :=
      Connection.writeBuffer_take (by omega)
    rw [Nat.zero_add, hlength, List.nil_append,
      List.take_of_length_le (Nat.le_of_eq Vector.length_toList)] at hwritten
    rw [Connection.receive, h.empty]
    exact Vector.toList_inj.mp hwritten
  · have hfull : c.state.receivedBytes + (c.delivered (46 + 1)).length = EnterOrderSize := by
      rw [hdelivered, h.empty, hlength, Nat.zero_add]
    rw [step_completes h.running h.phase h.client (by rw [h.empty]; decide) hfull, hdelivered]

/-- A response that `send` takes as a whole. -/
theorem step_sent {more : Nat} (hrunning : s.fault = none)
    (hphase : s.phase = .send fd caller events) (hc : s.clients fd = some c)
    (hstart : c.state.sentBytes = 0) (hmore : c.state.sendBuffer.length ≤ more + 1) :
    s.step (.bytes more) =
      { s.setClient fd { c.send c.state.sendBuffer with
          state := { c.state with sendBuffer := [], sentBytes := 0 } } with
        phase := .updateEvents fd caller events } := by
  have haccepted : c.accepted (more + 1) = c.state.sendBuffer := by
    rw [Connection.accepted, hstart, List.drop_zero, List.take_of_length_le hmore]
  have hall : ¬ (c.send c.state.sendBuffer).state.sentBytes <
      (c.send c.state.sendBuffer).state.sendBuffer.length := by
    show ¬ c.state.sentBytes + c.state.sendBuffer.length < c.state.sendBuffer.length
    omega
  unfold step
  rw [hrunning, if_neg Bool.noConfusion, hphase]
  dsimp only
  rw [hc]
  dsimp only [afterSend]
  rw [haccepted, flushPendingWrite, if_neg hall]
  rfl

theorem step_done (hrunning : s.fault = none) (hphase : s.phase = .updateEvents fd .sendAll events)
    (hc : s.clients fd = some c) :
    s.step .done =
      { s.setClient fd { c with state := { c.state with receivedBytes := 0 } } with
        phase := .recv fd events } := by
  unfold step
  rw [hrunning, if_neg Bool.noConfusion, hphase]
  dsimp only
  rw [hc]
  rfl

/-- The connection when the response to a block is in its buffer. -/
def answering (c : Connection) (block : Vector UInt8 EnterOrderSize)
    (response : AcceptedEncoder.Buffer) : Connection :=
  { c.receive block.toList with
    handled := c.handled ++ [block]
    responses := c.responses ++ [response]
    state := { (c.receive block.toList).state with
      sendBuffer := response.toList, sentBytes := 0 } }

/-- An order that is accepted. -/
theorem Awaiting.step_answered (h : s.Awaiting fd c)
    (hunread : c.unread = block.toList ++ rest) {response : AcceptedEncoder.Buffer}
    (hhandle : s.handler.handleEnterOrder s.accountId (.ofList block.toList) EnterOrderSize =
      .ok (some response, handler)) :
    s.step (.bytes 46) =
      { { s with handler := handler }.setClient fd (answering c block response) with
        phase := .send fd .sendAll [] } := by
  obtain ⟨hbuffer, hstep⟩ := h.step_block hunread
  have hempty : (c.receive block.toList).state.sendBuffer = [] := h.flushed
  have hlength : response.toList.length = 64 := Vector.length_toList
  rw [hstep, handleBlock]
  dsimp only
  rw [hbuffer, hhandle]
  dsimp only
  rw [sendAll, if_neg (not_not.mpr hempty), flushPendingWrite, if_pos (by simp [hlength])]
  rfl

/-- An order that is accepted, and answered in one piece. -/
theorem Awaiting.run_accepted (h : s.Awaiting fd c) (hunread : c.unread = block.toList ++ rest)
    {response : AcceptedEncoder.Buffer}
    (hhandle : s.handler.handleEnterOrder s.accountId (.ofList block.toList) EnterOrderSize =
      .ok (some response, handler)) :
    ∃ s' c', s.run [.bytes 46, .bytes 63, .done] = s' ∧ s'.Awaiting fd c' ∧
      c'.handled = c.handled ++ [block] ∧ c'.unread = rest ∧ c'.stream = c.stream := by
  have hlength : response.toList.length = 64 := Vector.length_toList
  have hanswered := h.step_answered hunread hhandle
  let c₁ := answering c block response
  let c₂ : Connection := { c₁.send response.toList with
    state := { c₁.state with sendBuffer := [], sentBytes := 0 } }
  have hsent : (s.step (.bytes 46)).step (.bytes 63) =
      { (s.step (.bytes 46)).setClient fd c₂ with phase := .updateEvents fd .sendAll [] } := by
    rw [hanswered]
    exact step_sent h.running rfl (setClient_self _ fd c₁) rfl (Nat.le_of_eq hlength)
  have hrunning : (s.step (.bytes 46)).fault = none := by
    rw [hanswered]
    exact h.running
  have hdone : ((s.step (.bytes 46)).step (.bytes 63)).step .done =
      { ((s.step (.bytes 46)).step (.bytes 63)).setClient fd
          { c₂ with state := { c₂.state with receivedBytes := 0 } } with
        phase := .recv fd [] } := by
    rw [hsent]
    exact step_done hrunning rfl (setClient_self _ fd c₂)
  refine ⟨_, { c₂ with state := { c₂.state with receivedBytes := 0 } }, hdone,
    ⟨?_, rfl, setClient_self _ _ _, rfl, rfl⟩, rfl, ?_, rfl⟩
  · rw [hsent]
    exact hrunning
  · show c.unread.drop block.toList.length = rest
    rw [hunread, List.drop_left]

/-- The connection is one of those open or one of those closed. -/
def Has (s : ExchangeTcpServer) (c : Connection) : Prop :=
  (∃ fd, s.clients fd = some c) ∨ c ∈ s.closed

/-- A block that is complete is handled, whatever the handler makes of it. -/
theorem Awaiting.step_handled (h : s.Awaiting fd c) (hunread : c.unread = block.toList ++ rest) :
    ∃ c', (s.step (.bytes 46)).Has c' ∧ c'.handled = c.handled ++ [block] ∧
      c'.stream = c.stream := by
  obtain ⟨hbuffer, hstep⟩ := h.step_block hunread
  have hempty : (c.receive block.toList).state.sendBuffer = [] := h.flushed
  rw [hstep, handleBlock]
  dsimp only
  rw [hbuffer]
  split
  · exact ⟨_, .inl ⟨fd, setClient_self s fd _⟩, rfl, rfl⟩
  · refine ⟨{ c.receive block.toList with handled := c.handled ++ [block] }, .inr ?_, rfl, rfl⟩
    dsimp only [pollEvents]
    unfold closeClient
    rw [setClient_self]
    exact List.mem_append_right _ (List.mem_singleton_self _)
  · rw [sendAll, if_neg (not_not.mpr hempty), flushPendingWrite]
    split
    · exact ⟨_, .inl ⟨fd, setClient_self _ fd _⟩, rfl, rfl⟩
    · exact ⟨_, .inl ⟨fd, setClient_self _ fd _⟩, rfl, rfl⟩

/-- A client connects, its first block is handled and answered, and so is its second. -/
def twoBlocks (stream : List UInt8) : List Answer :=
  [.events [.listen], .connection 5 true stream, .again, .events [.client 5 false false true]] ++
    ([.bytes 46, .bytes 63, .done] ++ [.bytes 46])

theorem run_append (s : ExchangeTcpServer) (first second : List Answer) :
    s.run (first ++ second) = (s.run first).run second :=
  List.foldl_append

theorem run_twoBlocks (accountId : AccountId) (stdHash : OrderId → Nat)
    {first : Vector UInt8 EnterOrderSize} (hvalid : ValidBlock first.toList)
    {stream : List UInt8} (hstream : stream = first.toList ++ (block.toList ++ rest)) :
    ∃ c, ((init accountId (.init stdHash)).run (twoBlocks stream)).Has c ∧
      c.stream = stream ∧ c.handled = [first, block] := by
  have hconnect := run_connect accountId (.init stdHash) stream
  have hinit : (ExchangeOuchHandler.init stdHash).Inv := ⟨_, engine_init_inv stdHash⟩
  -- the first order is valid, and the pool is full
  obtain ⟨response, handler, hhandle⟩ : ∃ response handler,
      (ExchangeOuchHandler.init stdHash).handleEnterOrder accountId
        (.ofList first.toList) EnterOrderSize = .ok (some response, handler) := by
    rcases ExchangeOuchHandler.handle_cases accountId hinit hvalid with
      ⟨hfree, -⟩ | ⟨-, response, handler, hhandle, -⟩
    · cases hfree
    · exact ⟨response, handler, hhandle⟩
  obtain ⟨s', c', hrun, hawaiting, hhandled, hunread, hsame⟩ :=
    hconnect.run_accepted hstream hhandle
  obtain ⟨c, hc, hboth, hsame'⟩ := hawaiting.step_handled hunread
  rw [hhandled] at hboth
  refine ⟨c, ?_, hsame'.trans hsame, hboth⟩
  rw [twoBlocks, run_append, run_append, hrun]
  exact hc

/-! ## One message with an appendage -/

/-- An order to buy ten at 100, up to the number of bytes that follow it. -/
def buyTenHead : Vector UInt8 45 :=
  #v['O'.toUInt8, 0, 0, 0, 1, 'B'.toUInt8, 0, 0, 0, 10] ++ (Vector.replicate 8 32 : Symbol) ++
    writeUint64 100 ++ (Vector.replicate 19 0 : Vector UInt8 19)

/-- The same order, announcing an appendage of `n` bytes. -/
def buyTenWith (n : UInt16) : Vector UInt8 EnterOrderSize := buyTenHead ++ writeUint16 n

theorem startsWith_buyTenWith (n : UInt16) :
    (Bytes.ofList (buyTenWith n).toList).StartsWith (buyTenHead ++ writeUint16 n) :=
  Bytes.startsWith_ofList _

theorem buyTenWith_type (n : UInt16) :
    Bytes.ofList (buyTenWith n).toList 0 = 'O'.toUInt8 :=
  (startsWith_buyTenWith n).left 0 (by decide)

theorem buyTenWith_declares (n : UInt16) : declaredLength (buyTenWith n) = n :=
  readUint16_of_startsWith (startsWith_buyTenWith n).right

theorem buyTenWith_valid (n : UInt16) : ValidBlock (buyTenWith n).toList := by
  refine ⟨Vector.length_toList, ?_⟩
  rw [OuchDecoder.decodeEnterOrder, if_neg (by decide), if_neg (not_not.mpr (buyTenWith_type n))]
  refine ⟨_, rfl, ?_⟩
  dsimp only
  rw [readUint64_of_startsWith (startsWith_buyTenWith n).left.left.right]
  decide

/-- The order with zeros behind it. -/
def withZeros (n : UInt16) : EnterOrderMessage where
  fixed := buyTenWith n
  appendage := List.replicate n.toNat 0
  type := buyTenWith_type n
  length := by rw [List.length_replicate, buyTenWith_declares]

/-- What the server takes for the second order begins with a zero. -/
theorem second_block {n : UInt16} (hn : n ≠ 0) :
    ∃ (block : Vector UInt8 EnterOrderSize) (rest : List UInt8),
      wire [withZeros n, withZeros n] = (buyTenWith n).toList ++ (block.toList ++ rest) ∧
        Bytes.ofList block.toList 0 = 0 := by
  obtain ⟨k, hk⟩ := Nat.exists_eq_succ_of_ne_zero fun h => hn (UInt16.toNat_inj.mp h)
  let behind : List UInt8 := (withZeros n).appendage ++ wire [withZeros n]
  have hbehind : behind = 0 :: (List.replicate k 0 ++ wire [withZeros n]) := by
    show List.replicate n.toNat 0 ++ _ = _
    rw [hk]
    rfl
  have hlength : EnterOrderSize ≤ behind.length := by
    have hfixed : (withZeros n).fixed.toList.length = EnterOrderSize := Vector.length_toList
    rw [List.length_append, wire_cons, List.length_append, hfixed]
    omega
  refine ⟨⟨(behind.take EnterOrderSize).toArray, by simpa using hlength⟩,
    behind.drop EnterOrderSize, ?_, ?_⟩
  · rw [wire_cons]
    exact congrArg _ (List.take_append_drop EnterOrderSize behind).symm
  · show Bytes.ofList (behind.take EnterOrderSize) 0 = 0
    rw [hbehind]
    rfl

/-- Two messages with appendages of any length but 0 are not taken apart as sent. -/
theorem appendage_is_handled (accountId : AccountId) (stdHash : OrderId → Nat) {n : UInt16}
    (hn : n ≠ 0) :
    ∃ answers c, ((init accountId (.init stdHash)).run answers).Has c ∧
      c.stream = wire [withZeros n, withZeros n] ∧ ¬ c.Handles [withZeros n, withZeros n] := by
  obtain ⟨block, rest, hwire, hzero⟩ := second_block hn
  obtain ⟨c, hc, hstream, hhandled⟩ := run_twoBlocks accountId stdHash (buyTenWith_valid n) hwire
  refine ⟨_, c, hc, hstream, ?_⟩
  rw [Connection.Handles, hhandled]
  rintro ⟨more, hmore⟩
  have hblock : block = buyTenWith n := Option.some.inj (congrArg (fun l => l[1]?) hmore)
  rw [hblock, buyTenWith_type] at hzero
  exact absurd hzero (by decide)

/-- In every run `handleEnterOrder` is called once for each message and with its fixed
part, if and only if the clients send no appendages. -/
theorem one_call_per_message_iff (accountId : AccountId) (stdHash : OrderId → Nat)
    (lengths : Set UInt16) :
    (∀ answers, OneCallPerMessage lengths ((init accountId (.init stdHash)).run answers)) ↔
      ∀ n ∈ lengths, n = 0 := by
  constructor
  · intro h n hn
    by_contra hne
    obtain ⟨answers, c, hc, hstream, hnot⟩ := appendage_is_handled accountId stdHash hne
    have hlengths : ∀ m ∈ [withZeros n, withZeros n], declaredLength m.fixed ∈ lengths := by
      intro m hm
      have hm' : m = withZeros n := by simpa using hm
      rw [hm', withZeros, buyTenWith_declares]
      exact hn
    obtain ⟨hopen, hclosed⟩ := h answers _ hlengths
    rcases hc with ⟨fd, hc⟩ | hc
    · exact hnot (hopen fd c hc hstream).1
    · exact hnot (hclosed c hc hstream)
  · intro hzero answers messages hlengths
    have hplain : Plain messages := fun m hm => hzero _ (hlengths m hm)
    have hinv := (inv_init accountId (.init stdHash)).run answers
    have hframed := (AllFramed.of_init accountId (.init stdHash)).run
      (inv_init accountId (.init stdHash)) answers
    refine ⟨fun fd c hc hstream => ?_, fun c hc hstream => ?_⟩
    · exact ⟨(hframed.clients fd c hc).handles hstream hplain, (hinv.ok fd c hc).upToDate hplain⟩
    · exact (hframed.closed c hc).handles hstream hplain

/-- An order whose appendage is an order. -/
def nested : EnterOrderMessage where
  fixed := ⟨(buyTen.take 45 ++ [0, 47]).toArray, rfl⟩
  appendage := buyTen
  type := rfl
  length := rfl

theorem nested_valid : ValidBlock nested.fixed.toList := ⟨rfl, _, rfl, by decide⟩

/-- The client sends one message, and its appendage is handled as an order. -/
theorem appendage_taken_for_order :
    ∃ c, ((init 7 (.init UInt64.toNat)).run (twoBlocks (wire [nested]))).Has c ∧
      c.stream = wire [nested] ∧
      c.handled.map Vector.toList = [nested.fixed.toList, nested.appendage] ∧
      ValidBlock nested.appendage ∧ ¬ c.Handles [nested] := by
  have hwire : wire [nested] = nested.fixed.toList ++
      ((Vector.toList ⟨buyTen.toArray, rfl⟩ : List UInt8) ++ []) := rfl
  obtain ⟨c, hc, hstream, hhandled⟩ := run_twoBlocks 7 UInt64.toNat nested_valid hwire
  refine ⟨c, hc, hstream, ?_, buyTen_valid, ?_⟩
  · rw [hhandled]
    rfl
  · rw [Connection.Handles, hhandled]
    intro hprefix
    exact absurd hprefix.length_le (by simp)

end ExchangeTcpServer

end OpenHft
