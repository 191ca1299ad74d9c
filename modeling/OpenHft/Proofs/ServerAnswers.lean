import OpenHft.Lib.Runs
import OpenHft.Proofs.HandlerCalls
import OpenHft.Proofs.ServerFraming

/-!
# When an accepted order gets its response

Nothing goes wrong on the network here: no call fails, nobody hangs up, and the clients
send valid orders. The server still closes a connection on its own account in two places.
`sendAll` refuses a response while an earlier one is pending, and by then the order of the
refused one is in the engine. And a block that finds the order pool exhausted gets no
response at all, which closes the connection with whatever was pending on it.

Both happen when a block is complete, so the condition is one on that moment (`Clear`). It
is exact for a step (`Serving.step`), and `accepted_answered_iff` carries it to runs.
-/

namespace OpenHft

open OpenHft.Lib

/-! ## Valid streams -/

/-- An Enter Order whose price the book has. -/
def ValidBlock (block : List UInt8) : Prop :=
  block.length = EnterOrderSize ∧
    ∃ enterOrder, OuchDecoder.decodeEnterOrder (.ofList block) EnterOrderSize =
      some enterOrder ∧ ValidPrice enterOrder.price.toInt64

/-- A client that sends nothing but Enter Order messages. -/
def ValidStream (stream : List UInt8) : Prop :=
  ∃ blocks : List (List UInt8), stream = blocks.flatten ∧ ∀ block ∈ blocks, ValidBlock block

/-- Blocks of one size at the front of a sequence of such blocks are the first of them. -/
theorem prefix_of_flatten {n : Nat} (hn : 0 < n) {blocks front : List (List UInt8)}
    (hblocks : ∀ b ∈ blocks, b.length = n) (hfront : ∀ b ∈ front, b.length = n)
    (h : front.flatten <+: blocks.flatten) : front <+: blocks := by
  induction front generalizing blocks with
  | nil => exact List.nil_prefix
  | cons f front ih =>
      have hf := hfront f List.mem_cons_self
      obtain ⟨rest, h⟩ := h
      cases blocks with
      | nil =>
          rw [List.flatten_cons, List.append_assoc, List.flatten_nil,
            List.append_eq_nil_iff] at h
          rw [h.1, List.length_nil] at hf
          omega
      | cons b blocks =>
          rw [List.flatten_cons, List.flatten_cons, List.append_assoc] at h
          have hb := hf.trans (hblocks b List.mem_cons_self).symm
          rw [List.append_inj_left h hb, List.prefix_cons_inj]
          exact ih (fun b' hb' => hblocks b' (List.mem_cons_of_mem _ hb'))
            (fun f' hf' => hfront f' (List.mem_cons_of_mem _ hf'))
            ⟨rest, List.append_inj_right h hb⟩

/-- The block behind some whole blocks of a stream is one of its blocks. -/
theorem mem_of_flatten_eq {n : Nat} (hn : 0 < n) {blocks front : List (List UInt8)}
    {block rest : List UInt8} (hblocks : ∀ b ∈ blocks, b.length = n)
    (hfront : ∀ b ∈ front, b.length = n) (hblock : block.length = n)
    (h : blocks.flatten = front.flatten ++ block ++ rest) : block ∈ blocks := by
  have hprefix : (front ++ [block]).flatten <+: blocks.flatten := by
    rw [List.flatten_append, List.flatten_singleton, h]
    exact List.prefix_append _ _
  refine (prefix_of_flatten hn hblocks (fun b hb => ?_) hprefix).subset
    (List.mem_append_right _ (List.mem_singleton_self block))
  rcases List.mem_append.mp hb with hb | hb
  · exact hfront b hb
  · rw [List.mem_singleton.mp hb]
    exact hblock

/-- The block that is complete is one of those the client sends. -/
theorem Connection.Ready.valid_block {c : Connection} {bytes : List UInt8} (h : c.Ready)
    (hstream : ValidStream c.stream)
    (hfull : c.state.receivedBytes + bytes.length = EnterOrderSize)
    (hunread : bytes ++ c.unread.drop bytes.length = c.unread) :
    ValidBlock (c.receive bytes).state.receiveBuffer.toList := by
  obtain ⟨blocks, hblocks, hvalid⟩ := hstream
  have hinput := hblocks.symm.trans (h.stream_full hfull hunread)
  refine hvalid _ (mem_of_flatten_eq (Nat.zero_lt_succ 46) (fun b hb => (hvalid b hb).1)
    (fun b hb => ?_) Vector.length_toList hinput)
  obtain ⟨v, -, rfl⟩ := List.mem_map.mp hb
  exact Vector.length_toList

/-- A valid block, in a handler whose engine is in order. -/
theorem ExchangeOuchHandler.handle_cases {handler : ExchangeOuchHandler}
    {block : List UInt8} (accountId : AccountId)
    (he : handler.Inv) (hblock : ValidBlock block) :
    (handler.matchingEngine.orderPool.freeList = [] ∧
      handler.handleEnterOrder accountId (.ofList block) EnterOrderSize =
        .ok (none, handler)) ∨
    (handler.matchingEngine.orderPool.freeList ≠ [] ∧
      ∃ response handler', handler.handleEnterOrder accountId (.ofList block)
          EnterOrderSize = .ok (some response, handler') ∧ handler'.Inv) := by
  obtain ⟨-, enterOrder, hd, hv⟩ := hblock
  obtain ⟨Q, he⟩ := he
  by_cases hfree : handler.matchingEngine.orderPool.freeList = []
  · exact .inl ⟨hfree, handleEnterOrder_exhausted hd hfree⟩
  · obtain ⟨engine, Q', hok, hinv⟩ := handleEnterOrder_valid he hd hfree hv
    exact .inr ⟨hfree, _, _, hok, Q', hinv⟩

/-! ## Nothing goes wrong on the network -/

/-- The client has not hung up. -/
def EpollEvent.Calm : EpollEvent → Prop
  | .listen => True
  | .client _ hangup _ _ => hangup = false

/-- The events of the last `epoll_wait` that are still to be looked at. -/
def ServerPhase.remaining : ServerPhase → List EpollEvent
  | .epollWait => []
  | .accept events | .recv _ events | .send _ _ events | .updateEvents _ _ events => events

/-- No error but `EAGAIN` and `EINTR`, no hang-up, and clients that send valid orders. -/
def Answer.Benign : Answer → Prop
  | .events found => ∀ event ∈ found, event.Calm
  | .connection _ added stream => added = true ∧ ValidStream stream
  | .closed | .failed => False
  | _ => True

namespace ExchangeTcpServer

variable {s s' : ExchangeTcpServer} {fd : Nat} {c : Connection} {caller : FlushCaller}
  {events : List EpollEvent}

/-- No connection on which an order was accepted has been closed, and on those that are
open every response is sent or pending. -/
def Kept (s : ExchangeTcpServer) : Prop :=
  (∀ c ∈ s.closed, c.responses = []) ∧
    ∀ fd c, s.clients fd = some c → c.responseBytes = c.sent ++ c.pending

/-- The answer brings the last bytes of a block of this client. -/
def Completes (s : ExchangeTcpServer) (answer : Answer) (c : Connection) : Prop :=
  ∃ fd events more, s.phase = .recv fd events ∧ s.clients fd = some c ∧
    answer = .bytes more ∧
      c.state.receivedBytes + (c.delivered (more + 1)).length = EnterOrderSize

/-- A block that is completed finds nothing pending, or, when the pool is exhausted, a
client none of whose orders was accepted. -/
def Clear (s : ExchangeTcpServer) (answer : Answer) : Prop :=
  ∀ c, s.Completes answer c →
    (s.handler.matchingEngine.orderPool.freeList ≠ [] → c.state.sendBuffer = []) ∧
      (s.handler.matchingEngine.orderPool.freeList = [] → c.responses = [])

/-- All clients are such. -/
def ValidClients (s : ExchangeTcpServer) : Prop :=
  ∀ fd c, s.clients fd = some c → ValidStream c.stream

/-- The server has not failed and will not: its handler is sound and its clients behave. -/
structure Serving (s : ExchangeTcpServer) : Prop where
  running : s.fault = none
  handler : s.handler.Inv
  streams : s.ValidClients
  calm : ∀ event ∈ s.phase.remaining, event.Calm

/-- Nothing is closed and no order is handled. -/
structure Quiet (s s' : ExchangeTcpServer) : Prop where
  closed : s'.closed = s.closed
  handler : s'.handler = s.handler
  fault : s'.fault = s.fault
  streams : s.ValidClients → s'.ValidClients
  calm : ∀ event ∈ s'.phase.remaining, event.Calm

theorem Serving.of_quiet (h : s.Serving) (hq : Quiet s s') : s'.Serving := by
  refine ⟨hq.fault.trans h.running, ?_, hq.streams h.streams, hq.calm⟩
  rw [hq.handler]
  exact h.handler

theorem Serving.quiet_refl (h : s.Serving) : Quiet s s := ⟨rfl, rfl, rfl, id, h.calm⟩

theorem Quiet.at_phase (s : ExchangeTcpServer) (phase : ServerPhase)
    (h : ∀ event ∈ phase.remaining, event.Calm) : Quiet s { s with phase := phase } :=
  ⟨rfl, rfl, rfl, id, h⟩

theorem ValidClients.setClient (h : s.ValidClients) (hc : ValidStream c.stream) :
    (s.setClient fd c).ValidClients := by
  intro fd' c' hc'
  rcases eq_or_ne fd' fd with rfl | hne
  · cases (setClient_self s _ _).symm.trans hc'
    exact hc
  · exact h fd' c' ((setClient_of_ne hne).symm.trans hc')

theorem Quiet.setClient {c₀ : Connection} (c : Connection) (hc : s.clients fd = some c₀)
    (hstream : c.stream = c₀.stream) (phase : ServerPhase)
    (h : ∀ event ∈ phase.remaining, event.Calm) :
    Quiet s { s.setClient fd c with phase := phase } := by
  refine ⟨rfl, rfl, rfl, fun hvalid => ?_, h⟩
  have hset : (s.setClient fd c).ValidClients := hvalid.setClient (by
    rw [hstream]
    exact hvalid fd c₀ hc)
  exact hset

theorem Quiet.flushPendingWrite {c₀ : Connection} (caller : FlushCaller)
    (hc : s.clients fd = some c₀) (hstream : c.stream = c₀.stream)
    (hcalm : ∀ event ∈ events, event.Calm) : Quiet s (s.flushPendingWrite fd c caller events) := by
  unfold ExchangeTcpServer.flushPendingWrite
  split
  · exact Quiet.setClient c hc hstream (.send fd caller events) hcalm
  · exact Quiet.setClient { c with state := { c.state with sendBuffer := [], sentBytes := 0 } }
      hc hstream (.updateEvents fd caller events) hcalm

theorem Quiet.pollEvents (s : ExchangeTcpServer) (hcalm : ∀ event ∈ events, event.Calm) :
    Quiet s (s.pollEvents events) := by
  induction events with
  | nil => exact .at_phase s .epollWait hcalm
  | cons event events ih =>
      have hrest : ∀ event ∈ events, event.Calm := fun e he =>
        hcalm e (List.mem_cons_of_mem _ he)
      cases event with
      | listen => exact .at_phase s (.accept events) hrest
      | client fd hangup writable readable =>
          have hhangup : hangup = false := hcalm _ List.mem_cons_self
          subst hhangup
          unfold ExchangeTcpServer.pollEvents
          rw [if_neg Bool.noConfusion]
          split
          · exact ih hrest
          · next c hc =>
              split
              · exact .flushPendingWrite _ hc rfl hrest
              · split
                · exact .at_phase s (.recv fd events) hrest
                · exact ih hrest

/-! ## Steps that complete no block -/

theorem Serving.quiet_accept (h : s.Serving) (hcalm : ∀ event ∈ events, event.Calm)
    {answer : Answer} (hb : answer.Benign) : Quiet s (s.acceptClients events answer) := by
  unfold acceptClients
  split
  · next fd added stream =>
      obtain ⟨rfl, hstream⟩ := hb
      rw [if_pos rfl]
      unfold emplace
      split
      · exact ⟨rfl, rfl, rfl, fun hvalid => hvalid.setClient hstream, h.calm⟩
      · exact h.quiet_refl
  · exact .pollEvents s hcalm
  · exact hb.elim
  · exact h.quiet_refl

theorem Quiet.flushed (hc : s.clients fd = some c)
    (hcalm : ∀ event ∈ events, event.Calm) :
    Quiet s (s.flushed fd c true caller events) := by
  unfold ExchangeTcpServer.flushed
  rw [if_pos rfl]
  cases caller with
  | sendAll =>
      exact .setClient { c with state := { c.state with receivedBytes := 0 } } hc rfl
        (.recv fd events) hcalm
  | pollOnce readable =>
      dsimp only
      split
      · exact .at_phase s (.recv fd events) hcalm
      · exact .pollEvents s hcalm

theorem Serving.quiet_afterSend (h : s.Serving) (hc : s.clients fd = some c)
    (hcalm : ∀ event ∈ events, event.Calm) {answer : Answer} (hb : answer.Benign) :
    Quiet s (s.afterSend fd c caller events answer) := by
  unfold afterSend
  split
  · exact .flushPendingWrite _ hc rfl hcalm
  · exact .at_phase s (.updateEvents fd caller events) hcalm
  · exact hb.elim
  · exact h.quiet_refl

/-- An answer to `recv` that leaves the block incomplete. -/
theorem Serving.quiet_recv (h : s.Serving) (hc : s.clients fd = some c)
    (hphase : s.phase = .recv fd events) {answer : Answer} (hb : answer.Benign)
    (hno : ¬ s.Completes answer c) : Quiet s (s.handleClientReadable fd c events answer) := by
  have hcalm : ∀ event ∈ events, event.Calm := by
    have hcalm := h.calm
    rw [hphase] at hcalm
    exact hcalm
  unfold handleClientReadable
  split
  · next more =>
      dsimp only
      split
      · exact h.quiet_refl
      · split
        · next hfull => exact absurd ⟨fd, events, more, hphase, hc, rfl, hfull⟩ hno
        · have hq := Quiet.setClient (c.receive (c.delivered (more + 1))) hc rfl s.phase h.calm
          exact hq
  · exact hb.elim
  · exact hb.elim
  · exact .pollEvents s hcalm
  · exact h.quiet_refl

theorem Serving.quiet_step (h : s.Serving) {answer : Answer} (hb : answer.Benign)
    (hno : ∀ c, ¬ s.Completes answer c) : Quiet s (s.step answer) := by
  have hcalm := h.calm
  unfold ExchangeTcpServer.step
  rw [h.running, if_neg Bool.noConfusion]
  split
  · split
    · exact .pollEvents s hb
    · exact h.quiet_refl
  · next events hphase =>
      rw [hphase] at hcalm
      exact h.quiet_accept hcalm hb
  · next fd events hphase =>
      split
      · exact h.quiet_refl
      · next c hc => exact h.quiet_recv hc hphase hb (hno c)
  · next fd caller events hphase =>
      rw [hphase] at hcalm
      split
      · exact h.quiet_refl
      · next c hc => exact h.quiet_afterSend hc hcalm hb
  · next fd caller events hphase =>
      rw [hphase] at hcalm
      split
      · exact h.quiet_refl
      · next c hc =>
          split
          · exact .flushed hc hcalm
          · exact hb.elim
          · exact h.quiet_refl

/-! ## Steps that complete a block -/

/-- The connection is closed in place of an answer. -/
theorem Serving.refused {handler : ExchangeOuchHandler} (h : s.Serving)
    (he : handler.Inv) (hcalm : ∀ event ∈ events, event.Calm) (fd : Nat) (c : Connection) :
    ((({ s with handler := handler }.setClient fd c).closeClient fd).pollEvents
        events).Serving ∧
      ((({ s with handler := handler }.setClient fd c).closeClient fd).pollEvents
        events).closed = s.closed ++ [c] := by
  have hclose : ({ s with handler := handler }.setClient fd c).closeClient fd =
      { s with
        handler := handler
        clients := Function.update s.clients fd none
        closed := s.closed ++ [c] } := by
    unfold closeClient
    rw [setClient_self]
    simp only [ExchangeTcpServer.setClient, Function.update_idem]
  have hserving : Serving { s with
      handler := handler
      clients := Function.update s.clients fd none
      closed := s.closed ++ [c] } := by
    refine ⟨h.running, he, fun fd' c' hc' => ?_, h.calm⟩
    dsimp only at hc'
    rcases eq_or_ne fd' fd with rfl | hne
    · rw [Function.update_self] at hc'
      cases hc'
    · rw [Function.update_of_ne hne] at hc'
      exact h.streams fd' c' hc'
  rw [hclose]
  have hq := Quiet.pollEvents { s with
    handler := handler
    clients := Function.update s.clients fd none
    closed := s.closed ++ [c] } hcalm
  exact ⟨hserving.of_quiet hq, hq.closed⟩

/-- A valid block is complete. -/
theorem Serving.handleBlock {bytes : List UInt8} (h : s.Serving) (hc : s.clients fd = some c)
    (hcalm : ∀ event ∈ events, event.Calm)
    (hblock : ValidBlock (c.receive bytes).state.receiveBuffer.toList) :
    (s.handleBlock fd (c.receive bytes) events).Serving ∧
      ∃ gone, (s.handleBlock fd (c.receive bytes) events).closed = s.closed ++ gone ∧
        ((∀ c ∈ gone, c.responses = []) ↔
          ((s.handler.matchingEngine.orderPool.freeList ≠ [] → c.state.sendBuffer = []) ∧
            (s.handler.matchingEngine.orderPool.freeList = [] → c.responses = []))) := by
  unfold ExchangeTcpServer.handleBlock
  dsimp only
  rcases ExchangeOuchHandler.handle_cases s.accountId h.handler hblock with
    ⟨hfree, hhandle⟩ | ⟨hfree, response, handler, hhandle, he⟩
  · -- no object for the order: no response, and the connection goes
    rw [hhandle]
    obtain ⟨hserving, hclosed⟩ := h.refused h.handler hcalm fd { c.receive bytes with
      handled := c.handled ++ [(c.receive bytes).state.receiveBuffer] }
    refine ⟨hserving, _, hclosed, ?_⟩
    simp only [List.mem_singleton, forall_eq, hfree, ne_eq, not_true_eq_false, false_implies,
      true_implies, true_and]
    exact Iff.rfl
  · rw [hhandle]
    simp only [hfree, ne_eq, not_false_eq_true, true_implies, false_implies, and_true]
    unfold ExchangeTcpServer.sendAll
    split
    · next hpending =>
        -- the order is in the engine, its response is given up and the connection goes
        obtain ⟨hserving, hclosed⟩ := h.refused he hcalm fd { c.receive bytes with
          handled := c.handled ++ [(c.receive bytes).state.receiveBuffer]
          responses := c.responses ++ [response] }
        refine ⟨hserving, _, hclosed, ?_⟩
        constructor
        · intro hgone
          have hnil := hgone _ (List.mem_singleton_self _)
          exact absurd hnil (List.append_ne_nil_of_right_ne_nil _ (List.cons_ne_nil _ _))
        · intro hempty
          exact absurd hempty hpending
    · next hempty =>
        have hserving : Serving { s with handler := handler } :=
          ⟨h.running, he, h.streams, h.calm⟩
        have hq := Quiet.flushPendingWrite (s := { s with handler := handler }) .sendAll
          (c := { c.receive bytes with
            handled := c.handled ++ [(c.receive bytes).state.receiveBuffer]
            responses := c.responses ++ [response]
            state := { (c.receive bytes).state with
              sendBuffer := response.toList, sentBytes := 0 } })
          hc rfl hcalm
        refine ⟨hserving.of_quiet hq, [], ?_, ?_⟩
        · rw [List.append_nil]
          exact hq.closed
        · exact ⟨fun _ => not_not.mp hempty, fun _ => List.forall_mem_nil _⟩

theorem Completes.unique {answer : Answer} {c' : Connection} (h : s.Completes answer c)
    (h' : s.Completes answer c') : c' = c := by
  obtain ⟨fd, events, -, hphase, hc, -⟩ := h
  obtain ⟨fd', events', -, hphase', hc', -⟩ := h'
  cases hphase.symm.trans hphase'
  exact Option.some.inj (hc'.symm.trans hc)

theorem step_completes {more : Nat} (hrunning : s.fault = none)
    (hphase : s.phase = .recv fd events) (hc : s.clients fd = some c)
    (hroom : c.state.receivedBytes < EnterOrderSize)
    (hfull : c.state.receivedBytes + (c.delivered (more + 1)).length = EnterOrderSize) :
    s.step (.bytes more) = s.handleBlock fd (c.receive (c.delivered (more + 1))) events := by
  have hbytes : c.delivered (more + 1) ≠ [] := by
    intro hnil
    rw [hnil, List.length_nil] at hfull
    omega
  unfold ExchangeTcpServer.step
  rw [hrunning, if_neg Bool.noConfusion, hphase]
  dsimp only
  rw [hc]
  show (if c.delivered (more + 1) = [] then s else
    if c.state.receivedBytes + (c.delivered (more + 1)).length = EnterOrderSize then
      s.handleBlock fd (c.receive (c.delivered (more + 1))) events
    else s.setClient fd (c.receive (c.delivered (more + 1)))) = _
  rw [if_neg hbytes, if_pos hfull]

/-- The connections that a step closes have no response if and only if it is clear. -/
theorem Serving.step (hinv : s.Inv) (h : s.Serving) {answer : Answer} (hb : answer.Benign) :
    (s.step answer).Serving ∧ ∃ gone, (s.step answer).closed = s.closed ++ gone ∧
      ((∀ c ∈ gone, c.responses = []) ↔ s.Clear answer) := by
  by_cases hcompletes : ∃ c, s.Completes answer c
  · obtain ⟨c, hcompletes⟩ := hcompletes
    have hclear : s.Clear answer ↔
        ((s.handler.matchingEngine.orderPool.freeList ≠ [] → c.state.sendBuffer = []) ∧
          (s.handler.matchingEngine.orderPool.freeList = [] → c.responses = [])) := by
      constructor
      · intro hclear
        exact hclear c hcompletes
      · intro hcond c' hc'
        rw [hcompletes.unique hc']
        exact hcond
    rw [hclear]
    obtain ⟨fd, events, more, hphase, hc, rfl, hfull⟩ := hcompletes
    have hcalm := h.calm
    rw [hphase] at hcalm
    have hready : c.Ready := by
      refine hinv.allReady h.running (fun fd' => ?_) fd c hc
      rw [hphase]
      exact id
    rw [step_completes h.running hphase hc hready.room hfull]
    exact h.handleBlock hc hcalm
      (hready.valid_block (h.streams fd c hc) hfull (c.delivered_append _))
  · have hno : ∀ c, ¬ s.Completes answer c := fun c hc => hcompletes ⟨c, hc⟩
    have hq := h.quiet_step hb hno
    refine ⟨h.of_quiet hq, [], ?_, ?_⟩
    · rw [List.append_nil]
      exact hq.closed
    · exact ⟨fun _ c hc => absurd hc (hno c), fun _ => List.forall_mem_nil _⟩

/-! ## Runs -/

/-- A step of the server when nothing goes wrong on the network. -/
def serve (s : ExchangeTcpServer) (answer : { answer : Answer // answer.Benign }) :
    Except Fault ExchangeTcpServer :=
  match (s.step answer.1).fault with
  | some fault => .error fault
  | none => .ok (s.step answer.1)

theorem Serving.serve (h : s.Serving) (hinv : s.Inv)
    (answer : { answer : Answer // answer.Benign }) : s.serve answer = .ok (s.step answer.1) := by
  unfold ExchangeTcpServer.serve
  rw [(Serving.step hinv h answer.2).1.running]

/-- Every response of a run is sent or pending on an open connection if and only if every
block that is completed finds nothing pending (and, when the pool is exhausted, a client
that was never answered). -/
theorem accepted_answered_iff (accountId : AccountId) (stdHash : OrderId → Nat)
    (answers : List { answer : Answer // answer.Benign }) :
    Throughout serve Kept (init accountId (.init stdHash)) answers ↔
      StepsMeet serve (fun s answer => s.Clear answer.1) (init accountId (.init stdHash))
        answers := by
  refine throughout_iff (fun s => s.Inv ∧ s.Serving ∧ ∀ c ∈ s.closed, c.responses = [])
    ?_ ?_ ?_ ?_ answers
  · intro s hs
    exact ⟨hs.2.2, fun fd c hc => (hs.1.ok fd c hc).output⟩
  · intro s answer hs hclear
    obtain ⟨hinv, hserving, hclosed⟩ := hs
    obtain ⟨hserving', gone, hgone, hiff⟩ := Serving.step hinv hserving answer.2
    refine ⟨_, hserving.serve hinv answer, hinv.step answer.1, hserving', fun c hc => ?_⟩
    rw [hgone] at hc
    rcases List.mem_append.mp hc with hc | hc
    · exact hclosed c hc
    · exact hiff.mpr hclear c hc
  · intro s answer s' hs hstep hkept
    obtain ⟨hinv, hserving, -⟩ := hs
    obtain ⟨-, gone, hgone, hiff⟩ := Serving.step hinv hserving answer.2
    cases (hserving.serve hinv answer).symm.trans hstep
    refine hiff.mp fun c hc => hkept.1 c ?_
    rw [hgone]
    exact List.mem_append_right _ hc
  · exact ⟨inv_init _ _, ⟨rfl, ⟨_, engine_init_inv stdHash⟩, nofun, nofun⟩, nofun⟩

/-- An Enter Order: buy ten at 100. -/
def buyTen : List UInt8 :=
  ['O'.toUInt8, 0, 0, 0, 1, 'B'.toUInt8, 0, 0, 0, 10] ++ List.replicate 8 32 ++
    [0, 0, 0, 0, 0, 0, 0, 100] ++ List.replicate 21 0

/-- The other side of it. -/
def sellTen : List UInt8 :=
  ['O'.toUInt8, 0, 0, 0, 1, 'S'.toUInt8, 0, 0, 0, 10] ++ List.replicate 8 32 ++
    [0, 0, 0, 0, 0, 0, 0, 100] ++ List.replicate 21 0

theorem buyTen_valid : ValidBlock buyTen := ⟨rfl, _, rfl, by decide⟩

theorem validStream_two : ValidStream (buyTen ++ buyTen) := by
  refine ⟨[buyTen, buyTen], rfl, ?_⟩
  simp [buyTen_valid]

/-- A client sends two orders at once, and the socket takes the response to the first a
little later. -/
def pipelinedOrders : List Answer :=
  [.events [.listen], .connection 5 true (buyTen ++ buyTen), .again,
    .events [.client 5 false false true], .bytes 46, .again, .done, .bytes 46]

/-- Both orders are in the engine, nothing has been sent, and the connection is closed. -/
theorem pipelined_order_loses_responses :
    (∀ answer ∈ pipelinedOrders, answer.Benign) ∧
      ((init 7 (.init UInt64.toNat)).run pipelinedOrders).clients 5 = none ∧
      ((init 7 (.init UInt64.toNat)).run pipelinedOrders).closed.map
        (fun c => (c.responses.length, c.sent)) = [(2, [])] ∧
      ((init 7 (.init UInt64.toNat)).run pipelinedOrders).handler.matchingEngine.sequence =
        1002 := by
  refine ⟨?_, ?_, by decide +kernel, by decide +kernel⟩
  · simp [pipelinedOrders, Answer.Benign, EpollEvent.Calm, validStream_two]
  · exact Option.isNone_iff_eq_none.mp (by decide +kernel)

end ExchangeTcpServer

end OpenHft
