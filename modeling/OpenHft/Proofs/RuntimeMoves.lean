import OpenHft.Proofs.RuntimeClients

/-!
# What a step of the exchange process can do

The steps by what they do to the parts that a whole run is judged by: the map of clients,
the calls of the handler, and the ledger. Which bytes of a connection move is left out here,
that is `RuntimeClients`. `step_move` says that these are all steps; whatever holds of every
one of them holds of runs.
-/

namespace OpenHft

open OpenHft.Lib

/-- The same client with the same exchange of messages. -/
structure Client.Same (c c' : Client) : Prop where
  ssl : c'.ssl = c.ssl
  serial : c'.serial = c.serial
  handled : c'.connection.handled = c.connection.handled
  responses : c'.connection.responses = c.connection.responses

/-- The client after a call of `handleEnterOrder` for it. -/
structure Client.Called (c : Client) (block : Vector UInt8 EnterOrderSize)
    (response : Option AcceptedEncoder.Buffer) (c' : Client) : Prop where
  ssl : c'.ssl = c.ssl
  serial : c'.serial = c.serial
  handled : c'.connection.handled = c.connection.handled ++ [block]
  responses : c'.connection.responses = c.connection.responses ++ response.toList

/-- The client that an event is about. -/
def EpollEvent.fd? : EpollEvent → Option Nat
  | .listen => none
  | .client fd _ _ _ => some fd

namespace ExchangeRuntime

/-- The descriptors that this round of the event loop is still to look at. -/
def Phase.pending : Phase → List Nat
  | .poll events | .accept events => events.filterMap EpollEvent.fd?
  | .handshake fd events | .receive fd events | .send fd _ events
  | .updateEvents fd _ _ events => fd :: events.filterMap EpollEvent.fd?
  | .start _ | .epollWait | .exited => []

/-- How far `start` has come: the context, the listening socket and the epoll instance are
there from the first, the second and the third stage on, and gone at the fourth. -/
def Phase.stage : Phase → Nat
  | .start .sslContextNew => 0
  | .start .useCertificateFile | .start .usePrivateKeyFile | .start .checkPrivateKey
  | .start .socket => 1
  | .start .setNonBlocking | .start .bind | .start .getsockname | .start .listen
  | .start .epollCreate => 2
  | .exited => 4
  | _ => 3

/-- A point of the same stage, and nothing has been added to what is pending. -/
structure Phase.Leads (phase phase' : Phase) : Prop where
  pending : phase'.pending.Sublist phase.pending
  stage : phase'.stage = phase.stage

/-- All that an answer can do to the server, by what the invariants have to look at. -/
inductive Move (s : ExchangeRuntime) (reply : Reply) : ExchangeRuntime → Prop
  | stay : Move s reply s
  | goto {phase : Phase} (h : s.phase.Leads phase) : Move s reply { s with phase := phase }
  | woken {events : List EpollEvent} (hphase : s.phase = .epollWait)
      (hreply : reply = .events events) : Move s reply { s with phase := .poll events }
  | change {fd : Nat} {c c' : Client} {phase : Phase} (hc : s.client fd = some c)
      (hsame : c.Same c') (h : s.phase.Leads phase) :
      Move s reply { s.setClient fd c' with phase := phase }
  | abandon {fd : Nat} {events : List EpollEvent}
      (h : s.phase.pending = fd :: events.filterMap EpollEvent.fd?) :
      Move s reply (s.abandon fd events)
  | answered {fd : Nat} {c c' : Client} {phase : Phase} {block : Vector UInt8 EnterOrderSize}
      {response : AcceptedEncoder.Buffer} {handler : ExchangeOuchHandler}
      (hc : s.client fd = some c)
      (hcall : s.handler.handleEnterOrder s.accountId (.ofList block.toList) EnterOrderSize =
        .ok (some response, handler))
      (hcalled : c.Called block (some response) c') (h : s.phase.Leads phase) :
      Move s reply { { s.called c.serial block (some response) with handler := handler }.setClient
        fd c' with phase := phase }
  | refused {fd : Nat} {c c' : Client} {events : List EpollEvent}
      {block : Vector UInt8 EnterOrderSize} {response : Option AcceptedEncoder.Buffer}
      {handler : ExchangeOuchHandler} (hc : s.client fd = some c)
      (hcall : s.handler.handleEnterOrder s.accountId (.ofList block.toList) EnterOrderSize =
        .ok (response, handler))
      (hcalled : c.Called block response c')
      (hinput : c.Idle → c'.connection.handledBytes <+: c'.connection.stream)
      (hsent : c'.connection.sent = c.connection.sent)
      (hcomplete : c'.tlsHandshakeComplete = c.tlsHandshakeComplete)
      (hphase : s.phase = .receive fd events) :
      Move s reply (({ s.called c.serial block response with handler := handler }.setClient
        fd c').abandon fd events)
  | faulted {fd : Nat} {c c' : Client} {events : List EpollEvent}
      {block : Vector UInt8 EnterOrderSize} {fault : Fault} (hc : s.client fd = some c)
      (hcall : s.handler.handleEnterOrder s.accountId (.ofList block.toList) EnterOrderSize =
        .error fault)
      (hcalled : c.Called block none c')
      (hinput : c.Idle → c'.connection.handledBytes <+: c'.connection.stream)
      (hphase : s.phase = .receive fd events) :
      Move s reply { (s.called c.serial block none).setClient fd c' with fault := some fault }
  | enterPlain {fd : Nat} {setup : Setup} {stream : List UInt8} {events : List EpollEvent}
      (hphase : s.phase = .accept events) (hreply : reply = .connection fd setup stream)
      (hcontext : s.sslContext = none) :
      Move s reply ((s.acquire (.descriptor fd)).emplace fd (s.newClient none stream))
  | enterTls {fd ssl context : Nat} {stream : List UInt8} {events : List EpollEvent}
      (hphase : s.phase = .accept events) (hreply : reply = .connection fd (.ready ssl) stream)
      (hcontext : s.sslContext = some context) :
      Move s reply (((s.acquire (.descriptor fd)).acquire (.session ssl)).emplace fd
        (s.newClient (some ssl) stream))
  | turnedAway {fd : Nat} {setup : Setup} {stream : List UInt8} {events : List EpollEvent}
      (hphase : s.phase = .accept events) (hreply : reply = .connection fd setup stream) :
      Move s reply ((s.acquire (.descriptor fd)).release [.descriptor fd]).exit
  | notAttached {fd ssl : Nat} {stream : List UInt8} {events : List EpollEvent}
      (hphase : s.phase = .accept events)
      (hreply : reply = .connection fd (.notAttached ssl) stream) :
      Move s reply (((s.acquire (.descriptor fd)).acquire (.session ssl)).release
        [.session ssl, .descriptor fd]).exit
  | context {n : Nat} (hphase : s.phase = .start .sslContextNew) (hreply : reply = .handle n) :
      Move s reply { s.acquire (.context n) with
        sslContext := some n, phase := .start .useCertificateFile }
  | socket {n : Nat} (hphase : s.phase = .start .socket) (hreply : reply = .handle n) :
      Move s reply { s.acquire (.descriptor n) with
        listenFd := some n, phase := .start .setNonBlocking }
  | epoll {n : Nat} (hphase : s.phase = .start .epollCreate) (hreply : reply = .handle n) :
      Move s reply { s.acquire (.descriptor n) with
        epollFd := some n, phase := .start .epollAdd }
  | bound {port : UInt16} (hphase : s.phase = .start .getsockname) :
      Move s reply { s with port := port, phase := .start .listen }
  | destroyed : Move s reply { s.stop with phase := .exited }
  | exit : Move s reply s.exit

variable {s : ExchangeRuntime} {fd : Nat} {c c' : Client} {events : List EpollEvent}
  {phase : Phase} {reply : Reply}

/-- Another point for the same descriptor. -/
theorem Phase.Leads.on {phase phase' : Phase} (hphase : s.phase = phase)
    (hpending : phase'.pending = phase.pending) (hstage : phase'.stage = phase.stage) :
    s.phase.Leads phase' :=
  hphase ▸ ⟨hpending ▸ List.Sublist.refl _, hstage⟩

/-- On to the next event. -/
theorem Phase.Leads.next {phase : Phase} (hphase : s.phase = phase)
    (hpending : phase.pending = fd :: events.filterMap EpollEvent.fd?)
    (hstage : phase.stage = 3) : s.phase.Leads (.poll events) := by
  rw [hphase]
  refine ⟨?_, hstage.symm⟩
  rw [hpending]
  exact List.sublist_cons_self _ _

/-- The loop of `flushPendingWrite` stays with its client. -/
theorem flushPendingWrite_change (s : ExchangeRuntime) (fd : Nat) (c : Client)
    (caller : FlushCaller) (events : List EpollEvent) :
    ∃ c' phase, s.flushPendingWrite fd c caller events =
        { s.setClient fd c' with phase := phase } ∧ c.Same c' ∧
      phase.pending = fd :: events.filterMap EpollEvent.fd? ∧ phase.stage = 3 := by
  unfold flushPendingWrite
  split
  · exact ⟨c, _, rfl, ⟨rfl, rfl, rfl, rfl⟩, rfl, rfl⟩
  · exact ⟨_, _, rfl, ⟨rfl, rfl, rfl, rfl⟩, rfl, rfl⟩

theorem pollOnce_move (hphase : s.phase = .poll events) :
    Move s reply (s.pollOnce events) := by
  unfold pollOnce
  split
  · exact .goto (.on hphase rfl rfl)
  · exact .goto (.on hphase rfl rfl)
  · next fd hangup writable readable events =>
      have habandon : Move s reply (s.abandon fd events) :=
        .abandon (by rw [hphase]; rfl)
      have hskip : Move s reply { s with phase := .poll events } :=
        .goto (.next hphase rfl rfl)
      split
      · exact habandon
      · split
        · split
          · exact habandon
          · exact hskip
        · next c hc =>
            split
            · split
              · exact habandon
              · exact .goto (.on hphase rfl rfl)
            · split
              · obtain ⟨c', phase, heq, hsame, hpending, hstage⟩ :=
                  s.flushPendingWrite_change fd c (.pollOnce readable) events
                rw [heq]
                exact .change hc hsame (.on hphase hpending hstage)
              · split
                · exact .goto (.on hphase rfl rfl)
                · exact hskip

theorem acceptClients_move (hphase : s.phase = .accept events) :
    Move s reply (s.acceptClients events reply) := by
  unfold acceptClients
  split
  · dsimp only
    split
    · exact .turnedAway hphase rfl
    · next hcontext => exact .enterPlain hphase rfl hcontext
    · exact .turnedAway hphase rfl
    · exact .notAttached hphase rfl
    · next hcontext => exact .enterTls hphase rfl hcontext
  · exact .goto (.on hphase rfl rfl)
  · exact .exit
  · exact .stay

theorem progressTlsHandshake_move (hphase : s.phase = .handshake fd events)
    (hc : s.client fd = some c) :
    Move s reply (s.progressTlsHandshake fd c events reply) := by
  have hleads : ∀ writable, s.phase.Leads
      (.updateEvents fd writable .progressTlsHandshake events) := fun writable =>
    .on hphase rfl rfl
  unfold progressTlsHandshake
  split
  · exact .change hc ⟨rfl, rfl, rfl, rfl⟩ (hleads false)
  · exact .goto (hleads false)
  · exact .goto (hleads true)
  · exact .abandon (by rw [hphase]; rfl)
  · exact .stay

theorem handleBlock_move (hphase : s.phase = .receive fd events) (hc : s.client fd = some c)
    {bytes : List UInt8} (hfull : c.connection.state.receivedBytes + bytes.length = EnterOrderSize)
    (hunread : bytes ++ c.connection.unread.drop bytes.length = c.connection.unread) :
    Move s reply (s.handleBlock fd { c with connection := c.connection.receive bytes }
      events) := by
  have hpending : s.phase.pending = fd :: events.filterMap EpollEvent.fd? := by
    rw [hphase]
    rfl
  have hinput : c.Idle → ((c.connection.handled ++
      [(c.connection.receive bytes).state.receiveBuffer]).map Vector.toList).flatten <+:
        c.connection.stream := by
    intro hidle
    have hok := (hidle.ready.receive_full hfull hunread).input
    rw [List.append_assoc] at hok
    exact ⟨_, hok.symm⟩
  unfold handleBlock
  dsimp only
  split
  · next fault hcall =>
      exact .faulted hc hcall ⟨rfl, rfl, rfl, (List.append_nil _).symm⟩ hinput hphase
  · next handler hcall =>
      exact .refused hc hcall ⟨rfl, rfl, rfl, (List.append_nil _).symm⟩ hinput rfl rfl hphase
  · next response handler hcall =>
      unfold sendAll
      split
      · exact .refused hc hcall ⟨rfl, rfl, rfl, rfl⟩ hinput rfl rfl hphase
      · obtain ⟨c', phase, heq, hsame, hpending', hstage'⟩ :=
          flushPendingWrite_change { s.called c.serial
            (c.connection.receive bytes).state.receiveBuffer (some response) with
              handler := handler } fd _ .sendAll events
        refine heq ▸ .answered hc hcall ?_ (.on hphase hpending' hstage')
        exact ⟨hsame.ssl, hsame.serial, hsame.handled, hsame.responses⟩

theorem handleClientReadable_move (hphase : s.phase = .receive fd events)
    (hc : s.client fd = some c) :
    Move s reply (s.handleClientReadable fd c events reply) := by
  have habandon : Move s reply (s.abandon fd events) :=
    .abandon (by rw [hphase]; rfl)
  have hleads : ∀ writable, s.phase.Leads
      (.updateEvents fd writable .handleClientReadable events) := fun writable =>
    .on hphase rfl rfl
  unfold handleClientReadable
  split
  · next more =>
      dsimp only
      split
      · exact .stay
      · split
        · next hfull =>
            exact handleBlock_move hphase hc hfull (c.connection.delivered_append (more + 1))
        · exact .change hc ⟨rfl, rfl, rfl, rfl⟩
            (.on rfl rfl rfl)
  · exact habandon
  · exact habandon
  · split
    · exact .goto (.next hphase rfl rfl)
    · exact .stay
  · split
    · exact .stay
    · exact .goto (hleads _)
  · split
    · exact .stay
    · exact .goto (hleads true)
  · exact .stay

theorem afterSend_move {caller : FlushCaller} (hphase : s.phase = .send fd caller events)
    (hc : s.client fd = some c) : Move s reply (s.afterSend fd c caller events reply) := by
  have hleads : s.phase.Leads (.updateEvents fd true (.flushPendingWrite caller) events) :=
    .on hphase rfl rfl
  unfold afterSend
  split
  · obtain ⟨c', phase, heq, hsame, hpending, hstage⟩ := s.flushPendingWrite_change fd
      _ caller events
    rw [heq]
    exact .change hc ⟨hsame.ssl, hsame.serial, hsame.handled, hsame.responses⟩
      (.on hphase hpending hstage)
  · split
    · exact .goto hleads
    · exact .stay
  · split
    · exact .stay
    · exact .change hc ⟨rfl, rfl, rfl, rfl⟩ hleads
  · split
    · exact .stay
    · exact .change hc ⟨rfl, rfl, rfl, rfl⟩ hleads
  · exact .abandon (by rw [hphase]; rfl)
  · exact .stay

theorem updateClientEvents_move {caller : UpdateCaller} {writable : Bool}
    (hphase : s.phase = .updateEvents fd writable caller events) (hc : s.client fd = some c) :
    Move s reply (s.updateClientEvents fd c writable caller events reply) := by
  have hreceive : s.phase.Leads (.receive fd events) :=
    .on hphase rfl rfl
  have hpoll : s.phase.Leads (.poll events) := .next hphase rfl rfl
  unfold updateClientEvents
  split
  · dsimp only
    split
    · exact .change hc ⟨rfl, rfl, rfl, rfl⟩ hreceive
    · exact .change hc ⟨rfl, rfl, rfl, rfl⟩ hreceive
    · exact .change hc ⟨rfl, rfl, rfl, rfl⟩ hpoll
    · exact .change hc ⟨rfl, rfl, rfl, rfl⟩ hpoll
    · exact .change hc ⟨rfl, rfl, rfl, rfl⟩ hpoll
  · exact .abandon (by rw [hphase]; rfl)
  · exact .stay

theorem StartCall.next_leads (port : UInt16) (call : StartCall) :
    (Phase.start call).Leads (call.next port) := by
  cases call with
  | bind =>
      show (Phase.start .bind).Leads (if port = 0 then .start .getsockname else .start .listen)
      split <;> exact ⟨List.nil_sublist _, rfl⟩
  | _ => exact ⟨List.nil_sublist _, rfl⟩

theorem start_move {call : StartCall} (hphase : s.phase = .start call) :
    Move s reply (s.start call reply) := by
  unfold start
  split
  · refine .goto ?_
    rw [hphase]
    exact call.next_leads s.port
  · split
    · exact .context hphase rfl
    · exact .socket hphase rfl
    · exact .epoll hphase rfl
    · exact .stay
  · split
    · next hcall => exact .bound (hcall ▸ hphase)
    · exact .stay
  · split
    · exact .destroyed
    · exact .exit
  · exact .stay

theorem step_move (s : ExchangeRuntime) (reply : Reply) : Move s reply (s.step reply) := by
  unfold step
  split
  · exact .stay
  · split
    · next call hphase => exact start_move hphase
    · next hphase =>
        split
        · exact .woken hphase rfl
        · exact .exit
        · exact .stay
    · next events hphase => exact pollOnce_move hphase
    · next events hphase => exact acceptClients_move hphase
    · next fd events hphase =>
        split
        · exact .stay
        · next c hc => exact progressTlsHandshake_move hphase hc
    · next fd events hphase =>
        split
        · exact .stay
        · next c hc => exact handleClientReadable_move hphase hc
    · next fd caller events hphase =>
        split
        · exact .stay
        · next c hc => exact afterSend_move hphase hc
    · next fd writable caller events hphase =>
        split
        · exact .stay
        · next c hc => exact updateClientEvents_move hphase hc
    · exact .stay

end ExchangeRuntime

end OpenHft
