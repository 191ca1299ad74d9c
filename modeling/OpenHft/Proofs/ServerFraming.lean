import OpenHft.Model.ExchangeServer

/-!
# Blocks in, responses out

Two counters per client carry a message across system calls: `receivedBytes` on the way
in, `sentBytes` on the way out. `Connection.Ok` says what they stand for: what the client
has sent is the blocks handled, then the part of a block in the buffer, then what is still
to come; and the responses are the bytes sent, then the bytes pending. Every call keeps it
for the client it is about and touches no other client.

A full buffer is the one state that must not be received into. It is only full while the
server is inside `sendAll` for that client (`Answering`), and it comes back from there to
a `recv` of the next block.
-/

namespace OpenHft

namespace Connection

variable {c : Connection} {bytes : List UInt8}

/-- The part of a block that has been received. -/
def partialBlock (c : Connection) : List UInt8 :=
  c.state.receiveBuffer.toList.take (c.state.receivedBytes % EnterOrderSize)

/-- The bytes that are left to send. -/
def pending (c : Connection) : List UInt8 := c.state.sendBuffer.drop c.state.sentBytes

/-- The bytes of the blocks `handleEnterOrder` was called with. -/
def handledBytes (c : Connection) : List UInt8 := (c.handled.map Vector.toList).flatten

/-- The responses as one stream. -/
def responseBytes (c : Connection) : List UInt8 := (c.responses.map Vector.toList).flatten

/-- Nothing of either stream is lost, doubled or out of order. -/
structure Ok (c : Connection) : Prop where
  input : c.stream = c.handledBytes ++ c.partialBlock ++ c.unread
  output : c.responseBytes = c.sent ++ c.pending

/-- A connection whose blocks have all been answered and that can receive. -/
structure Ready (c : Connection) : Prop where
  ok : c.Ok
  answered : c.responses.length = c.handled.length
  room : c.state.receivedBytes < EnterOrderSize

theorem init_ready (stream : List UInt8) : Ready (init stream) := by
  refine ⟨⟨?_, rfl⟩, rfl, Nat.zero_lt_succ 46⟩
  show stream = [] ++ List.take 0 _ ++ stream
  rw [List.take_zero]
  rfl

/-! ## Receiving -/

theorem writeBuffer_take {buffer : Vector UInt8 EnterOrderSize} {offset : Nat}
    (h : offset + bytes.length ≤ EnterOrderSize) :
    (writeBuffer buffer offset bytes).toList.take (offset + bytes.length) =
      buffer.toList.take offset ++ bytes := by
  apply List.ext_getElem
  · simp
    omega
  · intro i h₁ h₂
    simp only [List.length_take, Vector.length_toList] at h₁
    rw [List.getElem_take, Vector.getElem_toList]
    rcases Nat.lt_or_ge i offset with hi | hi
    · rw [List.getElem_append_left (by simp; omega), List.getElem_take, Vector.getElem_toList]
      simp [writeBuffer, hi]
    · rw [List.getElem_append_right (by simp; omega)]
      have hbytes : i - offset < bytes.length := by omega
      have hmin : min offset EnterOrderSize = offset := by omega
      simp [writeBuffer, Nat.not_lt.mpr hi, hbytes, hmin]

theorem delivered_length_le (c : Connection) (count : Nat) :
    (c.delivered count).length ≤ EnterOrderSize - c.state.receivedBytes := by
  rw [delivered, List.length_take]
  omega

theorem take_append_drop_take (l : List UInt8) (n : Nat) :
    l.take n ++ l.drop (l.take n).length = l := by
  rcases Nat.le_total n l.length with h | h
  · rw [List.length_take, Nat.min_eq_left h, List.take_append_drop]
  · rw [List.take_of_length_le h, List.drop_length, List.append_nil]

theorem delivered_append (c : Connection) (count : Nat) :
    c.delivered count ++ c.unread.drop (c.delivered count).length = c.unread :=
  take_append_drop_take _ _

theorem partialBlock_eq (h : c.state.receivedBytes < EnterOrderSize) :
    c.partialBlock = c.state.receiveBuffer.toList.take c.state.receivedBytes := by
  rw [partialBlock, Nat.mod_eq_of_lt h]

/-- Bytes that do not fill the block. -/
theorem Ready.receive (h : c.Ready)
    (hroom : c.state.receivedBytes + bytes.length < EnterOrderSize)
    (hunread : bytes ++ c.unread.drop bytes.length = c.unread) : (c.receive bytes).Ready := by
  refine ⟨⟨?_, h.ok.output⟩, h.answered, hroom⟩
  show c.stream = c.handledBytes ++ (c.receive bytes).partialBlock ++
    c.unread.drop bytes.length
  rw [partialBlock_eq hroom]
  show c.stream = c.handledBytes ++ (writeBuffer c.state.receiveBuffer c.state.receivedBytes
    bytes).toList.take (c.state.receivedBytes + bytes.length) ++ c.unread.drop bytes.length
  rw [writeBuffer_take (Nat.le_of_lt hroom), ← partialBlock_eq h.room, List.append_assoc,
    List.append_assoc, hunread, ← List.append_assoc]
  exact h.ok.input

/-- Bytes that fill it: the buffer is the next block. -/
theorem Ready.stream_full (h : c.Ready)
    (hfull : c.state.receivedBytes + bytes.length = EnterOrderSize)
    (hunread : bytes ++ c.unread.drop bytes.length = c.unread) :
    c.stream = c.handledBytes ++ (c.receive bytes).state.receiveBuffer.toList ++
      c.unread.drop bytes.length := by
  have hbuffer : (c.receive bytes).state.receiveBuffer.toList = c.partialBlock ++ bytes := by
    rw [partialBlock_eq h.room, ← writeBuffer_take (Nat.le_of_eq hfull), hfull,
      List.take_of_length_le (Nat.le_of_eq Vector.length_toList)]
    rfl
  rw [hbuffer, ← List.append_assoc, List.append_assoc, hunread]
  exact h.ok.input

theorem Ready.receive_full (h : c.Ready)
    (hfull : c.state.receivedBytes + bytes.length = EnterOrderSize)
    (hunread : bytes ++ c.unread.drop bytes.length = c.unread) :
    Ok { c.receive bytes with
      handled := c.handled ++ [(c.receive bytes).state.receiveBuffer] } := by
  refine ⟨?_, h.ok.output⟩
  have hempty : (c.receive bytes).partialBlock = [] := by
    show (c.receive bytes).state.receiveBuffer.toList.take
      ((c.state.receivedBytes + bytes.length) % EnterOrderSize) = []
    rw [hfull, Nat.mod_self, List.take_zero]
  show c.stream = ((c.handled ++ [(c.receive bytes).state.receiveBuffer]).map
    Vector.toList).flatten ++ (c.receive bytes).partialBlock ++ c.unread.drop bytes.length
  rw [hempty, List.append_nil, List.map_append, List.flatten_append, List.map_singleton,
    List.flatten_singleton]
  exact h.stream_full hfull hunread

/-- The buffer of an answered block is empty again. -/
theorem Ok.restart (h : c.Ok) (hfull : c.state.receivedBytes = EnterOrderSize) :
    Ok { c with state := { c.state with receivedBytes := 0 } } := by
  refine ⟨?_, h.output⟩
  have hinput := h.input
  rw [partialBlock, hfull, Nat.mod_self] at hinput
  exact hinput

/-! ## Sending -/

theorem Ok.send (h : c.Ok) (count : Nat) : (c.send (c.accepted count)).Ok := by
  refine ⟨h.input, ?_⟩
  show c.responseBytes = c.sent ++ c.accepted count ++
    c.state.sendBuffer.drop (c.state.sentBytes + (c.accepted count).length)
  rw [← List.drop_drop, List.append_assoc, accepted, take_append_drop_take]
  exact h.output

/-- The buffer is cleared when all of it has been sent. -/
theorem Ok.clear (h : c.Ok) (hsent : ¬ c.state.sentBytes < c.state.sendBuffer.length) :
    Ok { c with state := { c.state with sendBuffer := [], sentBytes := 0 } } := by
  refine ⟨h.input, ?_⟩
  have hpending : c.pending = [] := List.drop_of_length_le (Nat.not_lt.mp hsent)
  have houtput := h.output
  rw [hpending] at houtput
  exact houtput

/-- A response goes into the empty buffer. -/
theorem Ok.assign (h : c.Ok) (hempty : c.state.sendBuffer = [])
    (response : AcceptedEncoder.Buffer) :
    Ok { c with
      responses := c.responses ++ [response]
      state := { c.state with sendBuffer := response.toList, sentBytes := 0 } } := by
  refine ⟨h.input, ?_⟩
  have houtput := h.output
  rw [pending, hempty, List.drop_nil, List.append_nil] at houtput
  show ((c.responses ++ [response]).map Vector.toList).flatten =
    c.sent ++ response.toList.drop 0
  rw [List.map_append, List.flatten_append, List.map_singleton, List.flatten_singleton,
    List.drop_zero, ← houtput]
  rfl

end Connection

/-! ## The server -/

/-- The server is inside `sendAll` for this client. -/
def ServerPhase.Answering (fd : Nat) : ServerPhase → Prop
  | .send fd' .sendAll _ | .updateEvents fd' .sendAll _ => fd' = fd
  | _ => False

namespace ExchangeTcpServer

variable {s : ExchangeTcpServer} {fd : Nat} {c : Connection} {caller : FlushCaller}
  {events : List EpollEvent}

/-- Without a fault every block handled has its response, and a buffer is full just while its
block is being answered. -/
structure Inv (s : ExchangeTcpServer) : Prop where
  ok : ∀ fd c, s.clients fd = some c → c.Ok
  answered : s.fault = none → ∀ fd c, s.clients fd = some c →
    c.responses.length = c.handled.length
  room : s.fault = none → ∀ fd c, s.clients fd = some c →
    (s.phase.Answering fd ∧ c.state.receivedBytes = EnterOrderSize) ∨
      (¬ s.phase.Answering fd ∧ c.state.receivedBytes < EnterOrderSize)

/-- Every client but this one is ready. -/
def OthersReady (s : ExchangeTcpServer) (fd : Nat) : Prop :=
  ∀ fd' c, fd' ≠ fd → s.clients fd' = some c → c.Ready

/-- No client is in the middle of an answer. -/
def AllReady (s : ExchangeTcpServer) : Prop := ∀ fd c, s.clients fd = some c → c.Ready

theorem inv_init (accountId : AccountId) (handler : ExchangeOuchHandler) :
    Inv (init accountId handler) where
  ok := fun _ _ h => by cases h
  answered := fun _ _ _ h => by cases h
  room := fun _ _ _ h => by cases h

theorem AllReady.inv (h : s.AllReady) (hphase : ∀ fd, ¬ s.phase.Answering fd) : s.Inv where
  ok := fun fd c hc => (h fd c hc).ok
  answered := fun _ fd c hc => (h fd c hc).answered
  room := fun _ fd c hc => .inr ⟨hphase fd, (h fd c hc).room⟩

theorem AllReady.at_phase (h : s.AllReady) {phase : ServerPhase}
    (hphase : ∀ fd, ¬ phase.Answering fd) : Inv { s with phase := phase } := by
  have hready : AllReady { s with phase := phase } := h
  exact hready.inv hphase

theorem AllReady.others (h : s.AllReady) (fd : Nat) : s.OthersReady fd :=
  fun fd' c _ hc => h fd' c hc

theorem setClient_self (s : ExchangeTcpServer) (fd : Nat) (c : Connection) :
    (s.setClient fd c).clients fd = some c := Function.update_self ..

theorem setClient_of_ne {fd' : Nat} (h : fd' ≠ fd) :
    (s.setClient fd c).clients fd' = s.clients fd' := Function.update_of_ne h ..

theorem OthersReady.setClient (h : s.OthersReady fd) (c : Connection) :
    (s.setClient fd c).OthersReady fd := by
  intro fd' c' hne hc
  rw [setClient_of_ne hne] at hc
  exact h fd' c' hne hc

theorem OthersReady.all (h : s.OthersReady fd) (hc : ∀ c, s.clients fd = some c → c.Ready) :
    s.AllReady := by
  intro fd' c hclient
  rcases eq_or_ne fd' fd with rfl | hne
  · exact hc c hclient
  · exact h fd' c hne hclient

theorem OthersReady.closeClient (h : s.OthersReady fd) : (s.closeClient fd).AllReady := by
  unfold ExchangeTcpServer.closeClient
  split
  · next hnone =>
      exact h.all fun c hc => by
        rw [hnone] at hc
        cases hc
  · intro fd' c hc
    rcases eq_or_ne fd' fd with rfl | hne
    · have hnone : Function.update s.clients fd' none fd' = none := Function.update_self ..
      cases hnone.symm.trans hc
    · have hsame : Function.update s.clients fd none fd' = s.clients fd' :=
        Function.update_of_ne hne ..
      exact h fd' c hne (hsame.symm.trans hc)

/-- A client in the middle of a flush: one that is ready, or one being answered. -/
def FlushOk (caller : FlushCaller) (c : Connection) : Prop :=
  c.Ok ∧ c.responses.length = c.handled.length ∧
    match caller with
    | .sendAll => c.state.receivedBytes = EnterOrderSize
    | .pollOnce _ => c.state.receivedBytes < EnterOrderSize

theorem OthersReady.inv_flush (h : s.OthersReady fd) (hc : s.clients fd = some c)
    (hflush : FlushOk caller c) (hphase : s.phase = .send fd caller events ∨
      s.phase = .updateEvents fd caller events) : s.Inv := by
  obtain ⟨hok, hanswered, hroom⟩ := hflush
  have hcases : ∀ fd' c', s.clients fd' = some c' →
      (fd' = fd ∧ c' = c) ∨ (fd' ≠ fd ∧ c'.Ready) := by
    intro fd' c' hc'
    rcases eq_or_ne fd' fd with rfl | hne
    · exact .inl ⟨rfl, Option.some.inj (hc'.symm.trans hc)⟩
    · exact .inr ⟨hne, h fd' c' hne hc'⟩
  refine ⟨fun fd' c' hc' => ?_, fun _ fd' c' hc' => ?_, fun _ fd' c' hc' => ?_⟩
  · rcases hcases fd' c' hc' with ⟨-, rfl⟩ | ⟨-, hready⟩
    · exact hok
    · exact hready.ok
  · rcases hcases fd' c' hc' with ⟨-, rfl⟩ | ⟨-, hready⟩
    · exact hanswered
    · exact hready.answered
  · rcases hcases fd' c' hc' with ⟨rfl, rfl⟩ | ⟨hne, hready⟩
    · cases caller with
      | sendAll =>
          refine .inl ⟨?_, hroom⟩
          rcases hphase with hp | hp <;> rw [hp] <;> rfl
      | pollOnce readable =>
          refine .inr ⟨?_, hroom⟩
          rcases hphase with hp | hp <;> rw [hp] <;> exact id
    · refine .inr ⟨?_, hready.room⟩
      cases caller with
      | sendAll => rcases hphase with hp | hp <;> rw [hp] <;> exact hne.symm
      | pollOnce readable => rcases hphase with hp | hp <;> rw [hp] <;> exact id

theorem OthersReady.flushPendingWrite (h : s.OthersReady fd) (hflush : FlushOk caller c) :
    (s.flushPendingWrite fd c caller events).Inv := by
  obtain ⟨hok, hanswered, hroom⟩ := hflush
  unfold ExchangeTcpServer.flushPendingWrite
  split
  · have hothers : OthersReady
        { s.setClient fd c with phase := .send fd caller events } fd := h.setClient c
    exact hothers.inv_flush (setClient_self s fd c) ⟨hok, hanswered, hroom⟩ (.inl rfl)
  · next hsent =>
      have hothers := h.setClient
        { c with state := { c.state with sendBuffer := [], sentBytes := 0 } }
      have hothers' : OthersReady { s.setClient fd
          { c with state := { c.state with sendBuffer := [], sentBytes := 0 } } with
            phase := .updateEvents fd caller events } fd := hothers
      exact hothers'.inv_flush (setClient_self s fd _) ⟨hok.clear hsent, hanswered, hroom⟩
        (.inr rfl)

theorem AllReady.pollEvents (h : s.AllReady) (events : List EpollEvent) :
    (s.pollEvents events).Inv := by
  induction events generalizing s with
  | nil => exact h.at_phase fun _ => id
  | cons event events ih =>
      cases event with
      | listen => exact h.at_phase fun _ => id
      | client fd hangup writable readable =>
          unfold ExchangeTcpServer.pollEvents
          split
          · exact ih (h.others fd).closeClient
          · split
            · exact ih h
            · next c hc =>
                have hready := h fd c hc
                split
                · exact (h.others fd).flushPendingWrite
                    ⟨hready.ok, hready.answered, hready.room⟩
                · split
                  · exact h.at_phase fun _ => id
                  · exact ih h

/-! ## The steps -/

theorem Inv.othersReady (h : s.Inv) (hfault : s.fault = none)
    (hphase : ∀ fd', s.phase.Answering fd' → fd' = fd) : s.OthersReady fd := by
  intro fd' c hne hc
  refine ⟨h.ok fd' c hc, h.answered hfault fd' c hc, ?_⟩
  rcases h.room hfault fd' c hc with ⟨hanswering, -⟩ | ⟨-, hroom⟩
  · exact absurd (hphase fd' hanswering) hne
  · exact hroom

theorem Inv.allReady (h : s.Inv) (hfault : s.fault = none)
    (hphase : ∀ fd, ¬ s.phase.Answering fd) : s.AllReady := by
  intro fd c hc
  refine ⟨h.ok fd c hc, h.answered hfault fd c hc, ?_⟩
  rcases h.room hfault fd c hc with ⟨hanswering, -⟩ | ⟨-, hroom⟩
  · exact absurd hanswering (hphase fd)
  · exact hroom

theorem Inv.flushOk (h : s.Inv) (hfault : s.fault = none) (hc : s.clients fd = some c)
    (hphase : s.phase = .send fd caller events ∨ s.phase = .updateEvents fd caller events) :
    s.OthersReady fd ∧ FlushOk caller c := by
  have hroom := h.room hfault fd c hc
  constructor
  · refine h.othersReady hfault fun fd' hanswering => ?_
    cases caller with
    | sendAll =>
        rcases hphase with hp | hp <;> rw [hp] at hanswering <;> exact hanswering.symm
    | pollOnce readable =>
        rcases hphase with hp | hp <;> rw [hp] at hanswering <;> exact hanswering.elim
  · refine ⟨h.ok fd c hc, h.answered hfault fd c hc, ?_⟩
    cases caller with
    | sendAll =>
        rcases hroom with ⟨-, hfull⟩ | ⟨hnot, -⟩
        · exact hfull
        · exact absurd (by rcases hphase with hp | hp <;> rw [hp] <;> rfl) hnot
    | pollOnce readable =>
        rcases hroom with ⟨hanswering, -⟩ | ⟨-, hroom⟩
        · rcases hphase with hp | hp <;> rw [hp] at hanswering <;> exact hanswering.elim
        · exact hroom

theorem AllReady.acceptClients (h : s.AllReady) (hphase : ∀ fd, ¬ s.phase.Answering fd)
    (events : List EpollEvent) (answer : Answer) : (s.acceptClients events answer).Inv := by
  unfold ExchangeTcpServer.acceptClients
  split
  · next fd added stream =>
      split
      · unfold emplace
        split
        · have hset : (s.setClient fd (.init stream)).AllReady := by
            refine ((h.others fd).setClient _).all fun c hc => ?_
            rw [setClient_self] at hc
            cases hc
            exact Connection.init_ready stream
          exact hset.inv hphase
        · exact h.inv hphase
      · exact h.at_phase fun _ => id
  · exact h.pollEvents events
  · exact h.at_phase fun _ => id
  · exact h.inv hphase

theorem OthersReady.sendAll (h : s.OthersReady fd) (hok : c.Ok)
    (response : AcceptedEncoder.Buffer)
    (hanswered : c.responses.length + 1 = c.handled.length)
    (hfull : c.state.receivedBytes = EnterOrderSize) :
    (s.sendAll fd { c with responses := c.responses ++ [response] } response.toList
      events).Inv := by
  unfold ExchangeTcpServer.sendAll
  split
  · exact (h.setClient _).closeClient.pollEvents events
  · next hempty =>
      refine h.flushPendingWrite ⟨hok.assign (not_not.mp hempty) response, ?_, hfull⟩
      show (c.responses ++ [response]).length = c.handled.length
      rw [List.length_append, List.length_singleton]
      exact hanswered

theorem AllReady.handleBlock {bytes : List UInt8} (h : s.AllReady)
    (hc : s.clients fd = some c)
    (hfull : c.state.receivedBytes + bytes.length = EnterOrderSize)
    (hunread : bytes ++ c.unread.drop bytes.length = c.unread) (events : List EpollEvent) :
    (s.handleBlock fd (c.receive bytes) events).Inv := by
  have hready := h fd c hc
  have hok := hready.receive_full hfull hunread
  unfold ExchangeTcpServer.handleBlock
  dsimp only
  split
  · -- the run is over: the block has been handed over and not answered
    refine ⟨fun fd' c' hc' => ?_, nofun, nofun⟩
    rcases eq_or_ne fd' fd with rfl | hne
    · cases (setClient_self s _ _).symm.trans hc'
      exact hok
    · exact (h fd' c' ((setClient_of_ne hne).symm.trans hc')).ok
  · next handler _ =>
      have hothers : OthersReady { s with handler := handler } fd := h.others fd
      exact (hothers.setClient _).closeClient.pollEvents events
  · next response handler _ =>
      have hothers : OthersReady { s with handler := handler } fd := h.others fd
      refine hothers.sendAll hok response ?_ hfull
      show c.responses.length + 1 = (c.handled ++ [_]).length
      rw [List.length_append, List.length_singleton, hready.answered]

theorem AllReady.handleClientReadable (h : s.AllReady) (hphase : ∀ fd, ¬ s.phase.Answering fd)
    (hc : s.clients fd = some c) (events : List EpollEvent) (answer : Answer) :
    (s.handleClientReadable fd c events answer).Inv := by
  have hready := h fd c hc
  have hothers := h.others fd
  unfold ExchangeTcpServer.handleClientReadable
  split
  · next more =>
      have hunread := c.delivered_append (more + 1)
      have hlength := c.delivered_length_le (more + 1)
      have hroom := hready.room
      dsimp only
      generalize c.delivered (more + 1) = bytes at hunread hlength ⊢
      split
      · exact h.inv hphase
      · split
        · next hfull => exact h.handleBlock hc hfull hunread events
        · next hpart =>
            have hle : c.state.receivedBytes + bytes.length ≤ EnterOrderSize := by omega
            have hlt : c.state.receivedBytes + bytes.length < EnterOrderSize :=
              Nat.lt_of_le_of_ne hle hpart
            refine AllReady.inv ((hothers.setClient _).all fun c' hc' => ?_) hphase
            cases (setClient_self s _ _).symm.trans hc'
            exact hready.receive hlt hunread
  · exact hothers.closeClient.pollEvents events
  · exact hothers.closeClient.pollEvents events
  · exact h.pollEvents events
  · exact h.inv hphase

theorem OthersReady.flushed (h : s.OthersReady fd) (hc : s.clients fd = some c)
    (hflush : FlushOk caller c) (ok : Bool) : (s.flushed fd c ok caller events).Inv := by
  obtain ⟨hok, hanswered, hroom⟩ := hflush
  unfold ExchangeTcpServer.flushed
  split
  · cases caller with
    | sendAll =>
        have hset : (s.setClient fd
            { c with state := { c.state with receivedBytes := 0 } }).AllReady := by
          refine (h.setClient _).all fun c' hc' => ?_
          cases (setClient_self s _ _).symm.trans hc'
          exact ⟨hok.restart hroom, hanswered, Nat.zero_lt_succ 46⟩
        exact hset.at_phase fun _ => id
    | pollOnce readable =>
        have hall : s.AllReady := h.all fun c' hc' => by
          cases hc.symm.trans hc'
          exact ⟨hok, hanswered, hroom⟩
        dsimp only
        split
        · exact hall.at_phase fun _ => id
        · exact hall.pollEvents events
  · exact h.closeClient.pollEvents events

theorem OthersReady.afterSend (h : s.OthersReady fd) (hinv : s.Inv)
    (hc : s.clients fd = some c) (hflush : FlushOk caller c) (answer : Answer) :
    (s.afterSend fd c caller events answer).Inv := by
  unfold ExchangeTcpServer.afterSend
  split
  · exact h.flushPendingWrite ⟨hflush.1.send _, hflush.2⟩
  · have hothers : OthersReady { s with phase := .updateEvents fd caller events } fd := h
    exact hothers.inv_flush hc hflush (.inr rfl)
  · exact h.flushed hc hflush false
  · exact hinv

theorem Inv.step (h : s.Inv) (answer : Answer) : (s.step answer).Inv := by
  unfold ExchangeTcpServer.step
  split
  · exact h
  · next hfault =>
      have hnone : s.fault = none := Option.not_isSome_iff_eq_none.mp hfault
      split
      · next hphase =>
          split
          · refine (h.allReady hnone fun fd => ?_).pollEvents _
            rw [hphase]
            exact id
          · exact h
      · next events hphase =>
          have hnot : ∀ fd, ¬ s.phase.Answering fd := by
            rw [hphase]
            exact fun _ => id
          exact (h.allReady hnone hnot).acceptClients hnot events answer
      · next fd events hphase =>
          have hnot : ∀ fd, ¬ s.phase.Answering fd := by
            rw [hphase]
            exact fun _ => id
          split
          · exact h
          · next c hc => exact (h.allReady hnone hnot).handleClientReadable hnot hc events answer
      · next fd caller events hphase =>
          split
          · exact h
          · next c hc =>
              obtain ⟨hothers, hflush⟩ := h.flushOk hnone hc (.inl hphase)
              exact hothers.afterSend h hc hflush answer
      · next fd caller events hphase =>
          split
          · exact h
          · next c hc =>
              obtain ⟨hothers, hflush⟩ := h.flushOk hnone hc (.inr hphase)
              split
              · exact hothers.flushed hc hflush true
              · exact hothers.flushed hc hflush false
              · exact h

theorem Inv.run (h : s.Inv) (answers : List Answer) : (s.run answers).Inv := by
  induction answers generalizing s with
  | nil => exact h
  | cons answer answers ih => exact ih (h.step answer)

end ExchangeTcpServer

end OpenHft
