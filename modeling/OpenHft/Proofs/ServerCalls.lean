import OpenHft.Lib.Runs
import OpenHft.Proofs.ServerAnswers

/-!
# The calls of the handler

`ServerFraming` is about a record that the connections carry. Here the calls are read off the
run itself: an answer to `recv` completes a block when it fills the buffer, and in the state
that it meets the block and the answer of the handler are fixed. `handovers` lists them for a
run, and `handoversTo` those for the client that is at a descriptor. That the server makes
exactly these calls is what ties the two: the records of a client are the blocks and the
responses of its handovers, and the handler is the one that they lead to, one after the other.

`Keeps` is said of everything the code does between two calls of the handler: clients may be
closed and bytes may move, and that is all.
-/

namespace OpenHft

open OpenHft.Lib

namespace ExchangeOuchHandler

variable {h h' h'' : ExchangeOuchHandler} {accountId : AccountId}
  {blocks blocks' : List (Vector UInt8 EnterOrderSize)}
  {responses responses' : List (Option AcceptedEncoder.Buffer)}

/-- Blocks handled one after the other, with what was returned for each. -/
def handleAll (h : ExchangeOuchHandler) (accountId : AccountId) :
    List (Vector UInt8 EnterOrderSize) →
      Except Fault (List (Option AcceptedEncoder.Buffer) × ExchangeOuchHandler)
  | [] => .ok ([], h)
  | block :: blocks => do
      let (response, h) ← h.handleEnterOrder accountId (.ofList block.toList) EnterOrderSize
      let (responses, h) ← h.handleAll accountId blocks
      .ok (response :: responses, h)

/-- What the handler returns for a block; nothing if there is a fault. -/
def responseTo (h : ExchangeOuchHandler) (accountId : AccountId)
    (block : Vector UInt8 EnterOrderSize) : Option AcceptedEncoder.Buffer :=
  match h.handleEnterOrder accountId (.ofList block.toList) EnterOrderSize with
  | .ok (response, _) => response
  | .error _ => none

theorem handleAll_append (hfirst : h.handleAll accountId blocks = .ok (responses, h'))
    (hrest : h'.handleAll accountId blocks' = .ok (responses', h'')) :
    h.handleAll accountId (blocks ++ blocks') = .ok (responses ++ responses', h'') := by
  induction blocks generalizing h responses with
  | nil =>
      cases hfirst
      exact hrest
  | cons block blocks ih =>
      simp only [handleAll, bind_eq_ok] at hfirst
      obtain ⟨⟨response₁, h₁⟩, hcall, ⟨responses₁, h₂⟩, hmore, heq⟩ := hfirst
      cases heq
      simp only [List.cons_append, handleAll, bind_eq_ok]
      exact ⟨_, hcall, _, ih hmore, rfl⟩

theorem handleAll_singleton {block : Vector UInt8 EnterOrderSize}
    {response : Option AcceptedEncoder.Buffer}
    (hcall : h.handleEnterOrder accountId (.ofList block.toList) EnterOrderSize =
      .ok (response, h')) :
    h.handleAll accountId [block] = .ok ([response], h') := by
  simp only [handleAll, hcall]
  rfl

end ExchangeOuchHandler

/-- A block given to `handleEnterOrder` for the client at `fd`, and what was returned. -/
structure Handover where
  fd : Nat
  block : Vector UInt8 EnterOrderSize
  response : Option AcceptedEncoder.Buffer

namespace ExchangeTcpServer

variable {s s' s'' : ExchangeTcpServer} {fd : Nat} {c : Connection} {caller : FlushCaller}
  {events : List EpollEvent} {answer : Answer}

/-- The block that an answer to `recv` completes: the bytes in the buffer and, behind them,
those that are delivered. -/
def completed (s : ExchangeTcpServer) (answer : Answer) :
    Option (Nat × Vector UInt8 EnterOrderSize) :=
  match s.fault, s.phase, answer with
  | none, .recv fd _, .bytes more =>
      (s.clients fd).bind fun c =>
        let bytes := c.delivered (more + 1)
        if bytes ≠ [] ∧ c.state.receivedBytes + bytes.length = EnterOrderSize then
          some (fd, writeBuffer c.state.receiveBuffer c.state.receivedBytes bytes)
        else none
  | _, _, _ => none

/-- The completed block with what the handler returns for it. -/
def handover (s : ExchangeTcpServer) (answer : Answer) : Option Handover :=
  (s.completed answer).map fun (fd, block) =>
    ⟨fd, block, s.handler.responseTo s.accountId block⟩

/-- The handovers of a run. -/
def handovers (s : ExchangeTcpServer) : List Answer → List Handover
  | [] => []
  | answer :: answers => (s.handover answer).toList ++ (s.step answer).handovers answers

/-- The handovers at a descriptor since it was last free, with `earlier` those from before. -/
def handoversTo (fd : Nat) (s : ExchangeTcpServer) (earlier : List Handover) :
    List Answer → List Handover
  | [] => earlier
  | answer :: answers =>
      let here := earlier ++ (s.handover answer).toList.filter fun call => call.fd = fd
      (s.step answer).handoversTo fd
        (if ((s.step answer).clients fd).isSome then here else []) answers

/-! ## Between two calls -/

/-- The handler is as it was, and so are the records of the clients that are still there. -/
structure Keeps (s s' : ExchangeTcpServer) : Prop where
  accountId : s'.accountId = s.accountId
  handler : s'.handler = s.handler
  fault : s'.fault = s.fault
  clients : ∀ fd c', s'.clients fd = some c' →
    ∃ c, s.clients fd = some c ∧ c'.handled = c.handled ∧ c'.responses = c.responses

theorem Keeps.refl (s : ExchangeTcpServer) : Keeps s s :=
  ⟨rfl, rfl, rfl, fun _ c hc => ⟨c, hc, rfl, rfl⟩⟩

theorem Keeps.trans (h : Keeps s s') (h' : Keeps s' s'') : Keeps s s'' where
  accountId := h'.accountId.trans h.accountId
  handler := h'.handler.trans h.handler
  fault := h'.fault.trans h.fault
  clients := by
    intro fd c'' hc''
    obtain ⟨c', hc', hhandled', hresponses'⟩ := h'.clients fd c'' hc''
    obtain ⟨c, hc, hhandled, hresponses⟩ := h.clients fd c' hc'
    exact ⟨c, hc, hhandled'.trans hhandled, hresponses'.trans hresponses⟩

/-- Where the server waits does not matter. -/
theorem Keeps.at_phase (h : Keeps s s') (phase : ServerPhase) :
    Keeps s { s' with phase := phase } :=
  ⟨h.accountId, h.handler, h.fault, h.clients⟩

theorem Keeps.setClient (hc : s.clients fd = some c) {c' : Connection}
    (hhandled : c'.handled = c.handled) (hresponses : c'.responses = c.responses) :
    Keeps s (s.setClient fd c') := by
  refine ⟨rfl, rfl, rfl, fun fd' d hd => ?_⟩
  rcases eq_or_ne fd' fd with rfl | hne
  · cases (setClient_self s _ _).symm.trans hd
    exact ⟨c, hc, hhandled, hresponses⟩
  · exact ⟨d, (setClient_of_ne hne).symm.trans hd, rfl, rfl⟩

theorem Keeps.closeClient (s : ExchangeTcpServer) (fd : Nat) : Keeps s (s.closeClient fd) := by
  unfold ExchangeTcpServer.closeClient
  split
  · exact .refl s
  · refine ⟨rfl, rfl, rfl, fun fd' d hd => ?_⟩
    rcases eq_or_ne fd' fd with rfl | hne
    · have hnone : Function.update s.clients fd' none fd' = none := Function.update_self ..
      cases hnone.symm.trans hd
    · have hsame : Function.update s.clients fd none fd' = s.clients fd' :=
        Function.update_of_ne hne ..
      exact ⟨d, hsame.symm.trans hd, rfl, rfl⟩

theorem Keeps.flushPendingWrite (hc : s.clients fd = some c) {c' : Connection}
    (hhandled : c'.handled = c.handled) (hresponses : c'.responses = c.responses) :
    Keeps s (s.flushPendingWrite fd c' caller events) := by
  unfold ExchangeTcpServer.flushPendingWrite
  split
  · exact (Keeps.setClient hc hhandled hresponses).at_phase _
  · have hcleared : Keeps s (s.setClient fd
        { c' with state := { c'.state with sendBuffer := [], sentBytes := 0 } }) :=
      Keeps.setClient hc hhandled hresponses
    exact hcleared.at_phase _

theorem Keeps.pollEvents (s : ExchangeTcpServer) (events : List EpollEvent) :
    Keeps s (s.pollEvents events) := by
  induction events generalizing s with
  | nil => exact (Keeps.refl s).at_phase _
  | cons event events ih =>
      cases event with
      | listen => exact (Keeps.refl s).at_phase _
      | client fd hangup writable readable =>
          unfold ExchangeTcpServer.pollEvents
          split
          · exact (Keeps.closeClient s fd).trans (ih _)
          · split
            · exact ih s
            · next c hc =>
                split
                · exact Keeps.flushPendingWrite hc rfl rfl
                · split
                  · exact (Keeps.refl s).at_phase _
                  · exact ih s

theorem Keeps.closed (s : ExchangeTcpServer) (fd : Nat) (events : List EpollEvent) :
    Keeps s ((s.closeClient fd).pollEvents events) :=
  (Keeps.closeClient s fd).trans (Keeps.pollEvents _ events)

theorem Keeps.flushed (hc : s.clients fd = some c) (ok : Bool) :
    Keeps s (s.flushed fd c ok caller events) := by
  unfold ExchangeTcpServer.flushed
  split
  · cases caller with
    | sendAll =>
        have hrestarted : Keeps s (s.setClient fd
            { c with state := { c.state with receivedBytes := 0 } }) :=
          Keeps.setClient hc rfl rfl
        exact hrestarted.at_phase _
    | pollOnce readable =>
        dsimp only
        split
        · exact (Keeps.refl s).at_phase _
        · exact Keeps.pollEvents s events
  · exact Keeps.closed s fd events

theorem Keeps.afterSend (hc : s.clients fd = some c) (answer : Answer) :
    Keeps s (s.afterSend fd c caller events answer) := by
  unfold ExchangeTcpServer.afterSend
  split
  · exact Keeps.flushPendingWrite hc rfl rfl
  · exact (Keeps.refl s).at_phase _
  · exact Keeps.flushed hc false
  · exact .refl s

/-! ## One step -/

/-- What a step does that makes these calls. -/
structure Calls (calls : List Handover) (s s' : ExchangeTcpServer) : Prop where
  accountId : s'.accountId = s.accountId
  handler : s'.fault = none → s.fault = none ∧
    s.handler.handleAll s.accountId (calls.map Handover.block) =
      .ok (calls.map Handover.response, s'.handler)
  clients : ∀ fd c', s'.clients fd = some c' →
    (∃ c, s.clients fd = some c ∧
      c'.handled = c.handled ++ (calls.filter fun call => call.fd = fd).map Handover.block ∧
      c'.responses =
        c.responses ++ (calls.filter fun call => call.fd = fd).filterMap Handover.response) ∨
    (s.clients fd = none ∧ c'.handled = [] ∧ c'.responses = [] ∧
      (calls.filter fun call => call.fd = fd) = [])

theorem Keeps.calls (h : Keeps s s') : Calls [] s s' where
  accountId := h.accountId
  handler := fun hfault => ⟨h.fault.symm.trans hfault, by
    rw [h.handler]
    rfl⟩
  clients := by
    intro fd c' hc'
    obtain ⟨c, hc, hhandled, hresponses⟩ := h.clients fd c' hc'
    exact .inl ⟨c, hc, by simp [hhandled], by simp [hresponses]⟩

theorem Calls.keeps {calls : List Handover} (h : Calls calls s s') (h' : Keeps s' s'') :
    Calls calls s s'' where
  accountId := h'.accountId.trans h.accountId
  handler := by
    intro hfault
    obtain ⟨hnone, hall⟩ := h.handler (h'.fault.symm.trans hfault)
    rw [h'.handler]
    exact ⟨hnone, hall⟩
  clients := by
    intro fd c'' hc''
    obtain ⟨c', hc', hhandled, hresponses⟩ := h'.clients fd c'' hc''
    rw [hhandled, hresponses]
    exact h.clients fd c' hc'

/-- A new client has no records yet. -/
theorem Calls.acceptClients (s : ExchangeTcpServer) (events : List EpollEvent)
    (answer : Answer) : Calls [] s (s.acceptClients events answer) := by
  unfold ExchangeTcpServer.acceptClients
  split
  · next fd added stream =>
      split
      · unfold emplace
        split
        · next hnone =>
            refine ⟨rfl, fun hfault => ⟨hfault, rfl⟩, fun fd' d hd => ?_⟩
            rcases eq_or_ne fd' fd with rfl | hne
            · cases (setClient_self s _ _).symm.trans hd
              exact .inr ⟨hnone, rfl, rfl, rfl⟩
            · exact .inl ⟨d, (setClient_of_ne hne).symm.trans hd, by simp, by simp⟩
        · exact (Keeps.refl s).calls
      · exact ((Keeps.refl s).at_phase _).calls
  · exact (Keeps.pollEvents s events).calls
  · exact ((Keeps.refl s).at_phase _).calls
  · exact (Keeps.refl s).calls

/-- The records of the client have the call. -/
theorem Calls.recorded (hc : s.clients fd = some c) (s' : ExchangeTcpServer)
    (hclients : s'.clients = s.clients) (haccount : s'.accountId = s.accountId)
    {block : Vector UInt8 EnterOrderSize} {response : Option AcceptedEncoder.Buffer}
    (hcall : s'.fault = none → s.fault = none ∧
      s.handler.handleEnterOrder s.accountId (.ofList block.toList) EnterOrderSize =
        .ok (response, s'.handler))
    {c' : Connection} (hhandled : c'.handled = c.handled ++ [block])
    (hresponses : c'.responses = c.responses ++ response.toList) :
    Calls [⟨fd, block, response⟩] s (s'.setClient fd c') := by
  refine ⟨haccount, fun hfault => ?_, fun fd' d hd => ?_⟩
  · obtain ⟨hnone, hcall⟩ := hcall hfault
    exact ⟨hnone, ExchangeOuchHandler.handleAll_singleton hcall⟩
  · rcases eq_or_ne fd' fd with rfl | hne
    · cases (setClient_self s' _ _).symm.trans hd
      refine .inl ⟨c, hc, by simp [hhandled], ?_⟩
      rw [hresponses]
      cases response <;> simp
    · rw [setClient_of_ne hne, hclients] at hd
      exact .inl ⟨d, hd, by simp [Ne.symm hne], by simp [Ne.symm hne]⟩

theorem setClient_flushPendingWrite (s : ExchangeTcpServer) (fd : Nat) (c c' : Connection) :
    (s.setClient fd c).flushPendingWrite fd c' caller events =
      s.flushPendingWrite fd c' caller events := by
  simp only [flushPendingWrite, setClient, Function.update_idem]

/-- The block is handed to the handler, and the response to the client. -/
theorem Calls.handleBlock (hc : s.clients fd = some c) (hfault : s.fault = none)
    (bytes : List UInt8) (events : List EpollEvent) :
    Calls [⟨fd, (c.receive bytes).state.receiveBuffer,
        s.handler.responseTo s.accountId (c.receive bytes).state.receiveBuffer⟩] s
      (s.handleBlock fd (c.receive bytes) events) := by
  unfold ExchangeTcpServer.handleBlock ExchangeOuchHandler.responseTo
  dsimp only
  generalize hblock : (c.receive bytes).state.receiveBuffer = block
  cases hcall : s.handler.handleEnterOrder s.accountId (.ofList block.toList)
      EnterOrderSize with
  | error fault =>
      -- the run ends, with the block recorded and no response to it
      exact Calls.recorded hc { s with fault := some fault } rfl rfl nofun rfl
        (List.append_nil _).symm
  | ok out =>
      obtain ⟨response, handler⟩ := out
      have hrecorded : ∀ c' : Connection, c'.handled = c.handled ++ [block] →
          c'.responses = c.responses ++ response.toList →
          Calls [⟨fd, block, response⟩] s ({ s with handler := handler }.setClient fd c') :=
        fun c' hhandled hresponses =>
          Calls.recorded hc { s with handler := handler } rfl rfl
            (fun _ => ⟨hfault, hcall⟩) hhandled hresponses
      cases response with
      | none =>
          exact (hrecorded { c.receive bytes with handled := c.handled ++ [block] } rfl
            (List.append_nil _).symm).keeps (Keeps.closed _ fd events)
      | some response =>
          dsimp only
          unfold ExchangeTcpServer.sendAll
          split
          · exact (hrecorded _ rfl rfl).keeps (Keeps.closed _ fd events)
          · rw [← setClient_flushPendingWrite]
            exact (hrecorded { c.receive bytes with
              handled := c.handled ++ [block], responses := c.responses ++ [response] }
              rfl rfl).keeps (Keeps.flushPendingWrite (setClient_self _ _ _) rfl rfl)

/-- The bytes of a `recv` make the call that the state before announces, or none. -/
theorem Calls.handleClientReadable (hfault : s.fault = none) (hphase : s.phase = .recv fd events)
    (hc : s.clients fd = some c) (answer : Answer) :
    Calls (s.handover answer).toList s (s.handleClientReadable fd c events answer) := by
  cases answer with
  | bytes more =>
      simp only [handover, completed, hfault, hphase, hc, Option.bind_some,
        ExchangeTcpServer.handleClientReadable]
      generalize c.delivered (more + 1) = bytes
      by_cases hnil : bytes = []
      · simp only [hnil, ne_eq, not_true, false_and, if_false, if_true]
        exact (Keeps.refl s).calls
      · by_cases hfull : (c.receive bytes).state.receivedBytes = EnterOrderSize
        · rw [if_neg hnil, if_pos ⟨hnil, hfull⟩, if_pos hfull]
          exact Calls.handleBlock hc hfault bytes events
        · rw [if_neg hnil, if_neg fun h => hfull h.2, if_neg hfull]
          have hreceived : Keeps s (s.setClient fd (c.receive bytes)) :=
            Keeps.setClient hc rfl rfl
          exact hreceived.calls
  | closed | failed =>
      simp only [handover, completed, hfault, hphase]
      exact (Keeps.closed s fd events).calls
  | again =>
      simp only [handover, completed, hfault, hphase]
      exact (Keeps.pollEvents s events).calls
  | events | connection | done | interrupted =>
      simp only [handover, completed, hfault, hphase]
      exact (Keeps.refl s).calls

/-- Outside of a `recv` there is no call. -/
theorem handover_of_phase (hphase : ∀ fd events, s.phase ≠ .recv fd events) (answer : Answer) :
    s.handover answer = none := by
  have hnone : s.completed answer = none := by
    unfold completed
    split
    · next hrecv => exact absurd hrecv (hphase _ _)
    · rfl
  rw [handover, hnone]
  rfl

theorem calls_step (s : ExchangeTcpServer) (answer : Answer) :
    Calls (s.handover answer).toList s (s.step answer) := by
  cases hfault : s.fault with
  | some fault =>
      have hnone : s.handover answer = none := by simp [handover, completed, hfault]
      have hstep : s.step answer = s := by simp [step, hfault]
      rw [hnone, hstep]
      exact (Keeps.refl s).calls
  | none =>
      have hkeeps : (∀ fd events, s.phase ≠ .recv fd events) → Keeps s (s.step answer) →
          Calls (s.handover answer).toList s (s.step answer) := by
        intro hphase h
        rw [handover_of_phase hphase]
        exact h.calls
      unfold ExchangeTcpServer.step at hkeeps ⊢
      simp only [hfault, Option.isSome_none, Bool.false_eq_true, if_false] at hkeeps ⊢
      cases hphase : s.phase with
      | epollWait =>
          rw [hphase] at hkeeps
          refine hkeeps nofun ?_
          dsimp only
          split
          · exact Keeps.pollEvents s _
          · exact .refl s
      | accept events =>
          rw [handover_of_phase (by rw [hphase]; exact nofun)]
          exact Calls.acceptClients s events answer
      | recv fd events =>
          dsimp only
          cases hc : s.clients fd with
          | none =>
              have hnone : s.handover answer = none := by
                unfold handover completed
                cases answer <;> simp [hfault, hphase, hc]
              rw [hnone]
              exact (Keeps.refl s).calls
          | some c => exact Calls.handleClientReadable hfault hphase hc answer
      | send fd caller events =>
          rw [hphase] at hkeeps
          refine hkeeps nofun ?_
          dsimp only
          split
          · exact .refl s
          · next c hc => exact Keeps.afterSend hc answer
      | updateEvents fd caller events =>
          rw [hphase] at hkeeps
          refine hkeeps nofun ?_
          dsimp only
          split
          · exact .refl s
          · next c hc =>
              split
              · exact Keeps.flushed hc true
              · exact Keeps.flushed hc false
              · exact .refl s

/-! ## Runs -/

/-- The handovers, one after the other, lead to the handler that is there. -/
theorem handleAll_handovers (answers : List Answer) (hfault : (s.run answers).fault = none) :
    s.fault = none ∧
      s.handler.handleAll s.accountId ((s.handovers answers).map Handover.block) =
        .ok ((s.handovers answers).map Handover.response, (s.run answers).handler) := by
  induction answers generalizing s with
  | nil => exact ⟨hfault, rfl⟩
  | cons answer answers ih =>
      have hstep := calls_step s answer
      obtain ⟨hnone, hrest⟩ := ih (s := s.step answer) hfault
      obtain ⟨hstart, hfirst⟩ := hstep.handler hnone
      rw [hstep.accountId] at hrest
      refine ⟨hstart, ?_⟩
      rw [handovers, List.map_append, List.map_append]
      exact ExchangeOuchHandler.handleAll_append hfirst hrest

/-- The records of a client are these handovers; at a free descriptor there are none. -/
def Recorded (s : ExchangeTcpServer) (fd : Nat) (calls : List Handover) : Prop :=
  (s.clients fd = none → calls = []) ∧ ∀ c, s.clients fd = some c →
    c.handled = calls.map Handover.block ∧ c.responses = calls.filterMap Handover.response

theorem Recorded.step {earlier : List Handover} (h : s.Recorded fd earlier) (answer : Answer) :
    (s.step answer).Recorded fd
      (if ((s.step answer).clients fd).isSome then
        earlier ++ (s.handover answer).toList.filter fun call => call.fd = fd
      else []) := by
  refine ⟨fun hnone => by rw [hnone]; rfl, fun c' hc' => ?_⟩
  rw [hc', Option.isSome_some, if_pos rfl, List.map_append, List.filterMap_append]
  rcases (calls_step s answer).clients fd c' hc' with
    ⟨c, hc, hhandled, hresponses⟩ | ⟨hfree, hhandled, hresponses, hnone⟩
  · obtain ⟨hearlier, hanswered⟩ := h.2 c hc
    rw [hhandled, hresponses, hearlier, hanswered]
    exact ⟨rfl, rfl⟩
  · rw [hhandled, hresponses, hnone, h.1 hfree]
    exact ⟨rfl, rfl⟩

theorem Recorded.run {earlier : List Handover} (h : s.Recorded fd earlier)
    (answers : List Answer) :
    (s.run answers).Recorded fd (s.handoversTo fd earlier answers) := by
  induction answers generalizing s earlier with
  | nil => exact h
  | cons answer answers ih => exact ih (h.step answer)

/-- They are the last of the handovers at the descriptor. -/
theorem handoversTo_suffix (fd : Nat) (s : ExchangeTcpServer) (earlier : List Handover)
    (answers : List Answer) :
    s.handoversTo fd earlier answers <:+
      earlier ++ (s.handovers answers).filter fun call => call.fd = fd := by
  induction answers generalizing s earlier with
  | nil =>
      rw [handovers, List.filter_nil, List.append_nil]
      exact List.suffix_refl _
  | cons answer answers ih =>
      rw [handoversTo, handovers, List.filter_append, ← List.append_assoc]
      refine (ih _ _).trans ?_
      split
      · exact List.suffix_refl _
      · rw [List.nil_append]
        exact List.suffix_append _ _

theorem recorded_init (accountId : AccountId) (handler : ExchangeOuchHandler) (fd : Nat) :
    (init accountId handler).Recorded fd [] :=
  ⟨fun _ => rfl, nofun⟩

/-- As many responses as calls: every call was answered. -/
theorem isSome_of_length_eq {calls : List Handover}
    (h : (calls.filterMap Handover.response).length = calls.length) :
    ∀ call ∈ calls, call.response.isSome = true := by
  induction calls with
  | nil => exact fun _ hmem => absurd hmem List.not_mem_nil
  | cons call calls ih =>
      have hle := List.length_filterMap_le Handover.response calls
      cases hresponse : call.response with
      | none =>
          rw [List.filterMap_cons_none hresponse, List.length_cons] at h
          omega
      | some response =>
          rw [List.filterMap_cons_some hresponse, List.length_cons, List.length_cons] at h
          simp only [List.forall_mem_cons, hresponse, Option.isSome_some, true_and]
          exact ih (Nat.succ.inj h)

/-- Whatever the system calls answer, and in whatever order over the clients: the stream of an
open connection is the blocks that the handler was called with for it, one behind the other,
then less than a block, then what is still to come; the bytes sent are a first part of what it
returned for them, in the same order; and as long as there is no fault every one of them was
answered, and the calls for all clients, one after the other, lead to the handler there is. -/
theorem framing_and_order (accountId : AccountId) (handler : ExchangeOuchHandler)
    (answers : List Answer) (fd : Nat) (c : Connection)
    (hc : ((init accountId handler).run answers).clients fd = some c) :
    let s := (init accountId handler).run answers
    let all := (init accountId handler).handovers answers
    let calls := (init accountId handler).handoversTo fd [] answers
    calls <:+ (all.filter fun call => call.fd = fd) ∧
      c.handled = calls.map Handover.block ∧
      c.responses = calls.filterMap Handover.response ∧
      c.stream = (calls.map fun call => call.block.toList).flatten ++ c.partialBlock ++
        c.unread ∧
      c.partialBlock.length < EnterOrderSize ∧
      c.sent <+: ((calls.filterMap Handover.response).map Vector.toList).flatten ∧
      (s.fault = none → (∀ call ∈ calls, call.response.isSome = true) ∧
        handler.handleAll accountId (all.map Handover.block) =
          .ok (all.map Handover.response, s.handler)) := by
  intro s all calls
  have h := (inv_init accountId handler).run answers
  have hok := h.ok fd c hc
  obtain ⟨hhandled, hresponses⟩ := ((recorded_init accountId handler fd).run answers).2 c hc
  have hbytes : c.handledBytes = (calls.map fun call => call.block.toList).flatten := by
    rw [Connection.handledBytes, hhandled, List.map_map]
    rfl
  refine ⟨handoversTo_suffix fd _ [] answers, hhandled, hresponses, ?_, ?_, ?_, fun hnone => ?_⟩
  · rw [← hbytes]
    exact hok.input
  · have hmod : c.state.receivedBytes % EnterOrderSize < EnterOrderSize :=
      Nat.mod_lt _ (Nat.zero_lt_succ 46)
    rw [Connection.partialBlock, List.length_take]
    omega
  · rw [← hresponses]
    show c.sent <+: c.responseBytes
    rw [hok.output]
    exact List.prefix_append _ _
  · refine ⟨isSome_of_length_eq ?_, (handleAll_handovers answers hnone).2⟩
    have hanswered := h.answered hnone fd c hc
    rw [hhandled, hresponses, List.length_map] at hanswered
    exact hanswered

/-- Two clients. The block of the first comes in two pieces, with one of the second's between
them; the first response is sent in part, and the second client goes on sending. -/
def interleavedOrders : List Answer :=
  [.events [.listen], .connection 5 true buyTen, .connection 6 true (sellTen ++ buyTen.take 10),
    .again, .events [.client 5 false false true, .client 6 false false true],
    .bytes 19, .interrupted, .again, .bytes 46, .bytes 19, .again, .done, .bytes 9, .again,
    .events [.client 5 false false true], .bytes 26, .bytes 63, .done, .again]

/-- Both orders are handled and answered, the one in the order of its pieces; of the response
to the second client 20 bytes have been sent. -/
theorem framing_and_order_two_clients :
    ∃ c d, ((init 7 (.init UInt64.toNat)).run interleavedOrders).clients 5 = some c ∧
      ((init 7 (.init UInt64.toNat)).run interleavedOrders).clients 6 = some d ∧
      ((init 7 (.init UInt64.toNat)).handovers interleavedOrders).map Handover.fd = [6, 5] ∧
      c.handled.map Vector.toList = [buyTen] ∧ c.sent.length = 64 ∧
      d.handled.map Vector.toList = [sellTen] ∧ d.sent.length = 20 ∧
      d.partialBlock = buyTen.take 10 ∧
      c.sent <+: (c.responses.map Vector.toList).flatten ∧
      d.sent <+: (d.responses.map Vector.toList).flatten ∧
      (ExchangeOuchHandler.init UInt64.toNat).handleAll 7
          (((init 7 (.init UInt64.toNat)).handovers interleavedOrders).map Handover.block) =
        .ok (((init 7 (.init UInt64.toNat)).handovers interleavedOrders).map Handover.response,
          ((init 7 (.init UInt64.toNat)).run interleavedOrders).handler) := by
  have hopen : (((init 7 (.init UInt64.toNat)).run interleavedOrders).clients 5).map
        (fun c => (c.handled.map Vector.toList, c.sent.length)) = some ([buyTen], 64) ∧
      (((init 7 (.init UInt64.toNat)).run interleavedOrders).clients 6).map
        (fun d => (d.handled.map Vector.toList, d.sent.length, d.partialBlock)) =
          some ([sellTen], 20, buyTen.take 10) := by
    constructor <;> decide +kernel
  have hfault : ((init 7 (.init UInt64.toNat)).run interleavedOrders).fault = none :=
    Option.isNone_iff_eq_none.mp (by decide +kernel)
  obtain ⟨⟨c, hc, hcfacts⟩, d, hd, hdfacts⟩ :=
    hopen.imp Option.map_eq_some_iff.mp Option.map_eq_some_iff.mp
  obtain ⟨hchandled, hcsent⟩ := Prod.mk.inj hcfacts
  obtain ⟨hdhandled, hdrest⟩ := Prod.mk.inj hdfacts
  obtain ⟨hdsent, hdpartial⟩ := Prod.mk.inj hdrest
  obtain ⟨-, -, hcresponses, -, -, hcprefix, hall⟩ :=
    framing_and_order 7 (.init UInt64.toNat) interleavedOrders 5 c hc
  obtain ⟨-, -, hdresponses, -, -, hdprefix, -⟩ :=
    framing_and_order 7 (.init UInt64.toNat) interleavedOrders 6 d hd
  rw [← hcresponses] at hcprefix
  rw [← hdresponses] at hdprefix
  exact ⟨c, d, hc, hd, by decide +kernel, hchandled, hcsent, hdhandled, hdsent, hdpartial,
    hcprefix, hdprefix, (hall hfault).2⟩

end ExchangeTcpServer

end OpenHft
