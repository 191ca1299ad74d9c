import OpenHft.Proofs.RuntimeTls

/-!
# The plaintext server inside the process

`ExchangeServer` models the server for plaintext clients alone, from its start on, under a
caller that goes on calling `pollOnce` whatever it returns. The process without a certificate
does what it does: with every step it stays where it is in that model, or takes the step that
the same answer makes there. What holds of all runs of the smaller model holds of the process
until it exits.
-/

namespace OpenHft

open OpenHft.Lib

namespace ExchangeRuntime

/-- The server of the smaller model in the same state, at a given point. -/
def plain (s : ExchangeRuntime) (phase : ServerPhase) : ExchangeTcpServer where
  accountId := s.accountId
  handler := s.handler
  clients := fun fd => (s.client fd).map Client.connection
  phase := phase
  fault := s.fault
  closed := s.closed.map Client.connection

/-- Between two calls the smaller model is at the next call already. -/
def view (s : ExchangeRuntime) : ExchangeTcpServer :=
  match s.phase with
  | .poll events => (s.plain .epollWait).pollEvents events
  | .accept events => s.plain (.accept events)
  | .receive fd events => s.plain (.recv fd events)
  | .send fd caller events => s.plain (.send fd caller events)
  | .updateEvents fd _ (.flushPendingWrite caller) events =>
      s.plain (.updateEvents fd caller events)
  | _ => s.plain .epollWait

/-- `epoll_ctl` has added the client. -/
def Setup.added : Setup → Bool
  | .notAdded => false
  | _ => true

/-- The answer in the smaller model. -/
def Reply.plain : Reply → Answer
  | .done => .done
  | .events es => .events es
  | .connection fd setup stream => .connection fd setup.added stream
  | .bytes more => .bytes more
  | .closed => .closed
  | .again => .again
  | .failed => .failed
  | .handle _ | .bound _ | .wantRead | .wantWrite | .interrupted => .interrupted

/-- A point that the server can be at without TLS, once it has been started. -/
def Phase.Plain : Phase → Prop
  | .start _ | .handshake _ _ | .updateEvents _ _ .handleClientReadable _
  | .updateEvents _ _ .progressTlsHandshake _ => False
  | _ => True

variable {s s' : ExchangeRuntime} {fd : Nat} {c c' : Client} {events : List EpollEvent}
  {reply : Reply} {phase : ServerPhase}

theorem plain_setClient (hc : s.client fd = some c) (c' : Client) (phase : ServerPhase) :
    (s.setClient fd c').plain phase = (s.plain phase).setClient fd c'.connection := by
  have hclients : (fun fd' => ((s.setClient fd c').client fd').map Client.connection) =
      Function.update (fun fd' => (s.client fd').map Client.connection) fd
        (some c'.connection) := by
    funext fd'
    by_cases heq : fd' = fd
    · subst heq
      rw [client_setClient_self hc, Function.update_self]
      rfl
    · rw [client_setClient_of_ne heq, Function.update_of_ne heq]
  show ({ accountId := _, handler := _, clients := _, phase := _, fault := _, closed := _ } :
    ExchangeTcpServer) = _
  rw [hclients]
  rfl

theorem plain_closeClient (s : ExchangeRuntime) (fd : Nat) (phase : ServerPhase) :
    (s.closeClient fd).plain phase = (s.plain phase).closeClient fd := by
  have hclients : (fun fd' => ((s.closeClient fd).client fd').map Client.connection) =
      Function.update (fun fd' => (s.client fd').map Client.connection) fd none := by
    funext fd'
    by_cases heq : fd' = fd
    · subst heq
      rw [client_closeClient_self, Function.update_self]
      rfl
    · rw [client_closeClient_of_ne heq, Function.update_of_ne heq]
  cases hc : s.client fd with
  | none =>
      have hold : (s.plain phase).clients fd = none := by
        show (s.client fd).map _ = none
        rw [hc]
        rfl
      unfold closeClient ExchangeTcpServer.closeClient
      rw [hc, hold]
      rfl
  | some c =>
      have hold : (s.plain phase).clients fd = some c.connection := by
        show (s.client fd).map _ = _
        rw [hc]
        rfl
      have hnew : (s.closeClient fd).closed = s.closed ++ [c] := by
        unfold closeClient
        rw [hc]
      have hframe : (s.closeClient fd).accountId = s.accountId ∧
          (s.closeClient fd).handler = s.handler ∧ (s.closeClient fd).fault = s.fault := by
        unfold closeClient
        rw [hc]
        exact ⟨rfl, rfl, rfl⟩
      unfold ExchangeTcpServer.closeClient
      rw [hold]
      show ({ accountId := _, handler := _, clients := _, phase := _, fault := _, closed := _ } :
        ExchangeTcpServer) = _
      rw [hclients, hnew, hframe.1, hframe.2.1, hframe.2.2, List.map_append]
      rfl

end ExchangeRuntime

namespace ExchangeTcpServer

variable {t : ExchangeTcpServer} {events : List EpollEvent}

theorem closeClient_phase (t : ExchangeTcpServer) (phase : ServerPhase) (fd : Nat) :
    ({ t with phase := phase } : ExchangeTcpServer).closeClient fd =
      { t.closeClient fd with phase := phase } := by
  unfold closeClient
  dsimp only
  cases t.clients fd <;> rfl

section StepAt

variable {fd : Nat} {c : Connection} {caller : FlushCaller}

theorem step_wait (hfault : t.fault = none) (hphase : t.phase = .epollWait)
    (events : List EpollEvent) : t.step (.events events) = t.pollEvents events := by
  unfold step
  rw [hfault, hphase]
  rfl

theorem step_accept (hfault : t.fault = none) (hphase : t.phase = .accept events)
    (answer : Answer) : t.step answer = t.acceptClients events answer := by
  unfold step
  rw [hfault, hphase]
  rfl

theorem step_recv (hfault : t.fault = none) (hphase : t.phase = .recv fd events)
    (hc : t.clients fd = some c) (answer : Answer) :
    t.step answer = t.handleClientReadable fd c events answer := by
  unfold step
  rw [hfault, hphase]
  dsimp only
  rw [hc]
  rfl

theorem step_send (hfault : t.fault = none) (hphase : t.phase = .send fd caller events)
    (hc : t.clients fd = some c) (answer : Answer) :
    t.step answer = t.afterSend fd c caller events answer := by
  unfold step
  rw [hfault, hphase]
  dsimp only
  rw [hc]
  rfl

theorem step_update (hfault : t.fault = none) (hphase : t.phase = .updateEvents fd caller events)
    (hc : t.clients fd = some c) (ok : Bool) :
    t.step (if ok then .done else .failed) = t.flushed fd c ok caller events := by
  unfold step
  rw [hfault, hphase]
  dsimp only
  rw [hc]
  cases ok <;> rfl

end StepAt

/-- A client set to what it is. -/
theorem setClient_eq_self {fd : Nat} {c : Connection} (hc : t.clients fd = some c) :
    t.setClient fd c = t := by
  have hclients : Function.update t.clients fd (some c) = t.clients := by
    rw [← hc, Function.update_eq_self]
  show { t with clients := _ } = t
  rw [hclients]

/-- Where the loop was called from does not matter. -/
theorem pollEvents_phase (t : ExchangeTcpServer) (phase : ServerPhase)
    (events : List EpollEvent) :
    ({ t with phase := phase } : ExchangeTcpServer).pollEvents events = t.pollEvents events := by
  induction events generalizing t with
  | nil => rfl
  | cons event events ih =>
      cases event with
      | listen => rfl
      | client fd hangup writable readable =>
          unfold pollEvents
          split
          · rw [closeClient_phase, ih]
          · dsimp only
            cases t.clients fd with
            | none => exact ih t
            | some c =>
                dsimp only
                split
                · rfl
                · split
                  · rfl
                  · exact ih t

end ExchangeTcpServer

namespace ExchangeRuntime

variable {s s' : ExchangeRuntime} {fd : Nat} {c c' : Client} {events : List EpollEvent}
  {reply : Reply} {phase : ServerPhase}

theorem view_accept (h : s.phase = .accept events) : s.view = s.plain (.accept events) := by
  rw [view, h]

theorem view_receive (h : s.phase = .receive fd events) :
    s.view = s.plain (.recv fd events) := by
  rw [view, h]

theorem view_send {caller : FlushCaller} (h : s.phase = .send fd caller events) :
    s.view = s.plain (.send fd caller events) := by
  rw [view, h]

theorem view_updateEvents {writable : Bool} {caller : FlushCaller}
    (h : s.phase = .updateEvents fd writable (.flushPendingWrite caller) events) :
    s.view = s.plain (.updateEvents fd caller events) := by
  rw [view, h]

/-- The loop on the view, from any point. -/
theorem view_poll (s : ExchangeRuntime) (events : List EpollEvent) (phase : ServerPhase) :
    view { s with phase := .poll events } = (s.plain phase).pollEvents events :=
  (ExchangeTcpServer.pollEvents_phase (s.plain phase) .epollWait events)

theorem view_abandon (s : ExchangeRuntime) (fd : Nat) (events : List EpollEvent)
    (phase : ServerPhase) :
    (s.abandon fd events).view = ((s.plain phase).closeClient fd).pollEvents events := by
  rw [← plain_closeClient]
  exact view_poll (s.closeClient fd) events phase

theorem view_flushPendingWrite (hc : s.client fd = some c) (c' : Client) (caller : FlushCaller)
    (events : List EpollEvent) (phase : ServerPhase) :
    (s.flushPendingWrite fd c' caller events).view =
      (s.plain phase).flushPendingWrite fd c'.connection caller events := by
  unfold flushPendingWrite ExchangeTcpServer.flushPendingWrite
  split
  · show (s.setClient fd c').plain _ = _
    rw [plain_setClient hc]
    rfl
  · show (s.setClient fd _).plain _ = _
    rw [plain_setClient hc]
    rfl

theorem flushPendingWrite_plain (s : ExchangeRuntime) (fd : Nat) (c : Client)
    (caller : FlushCaller) (events : List EpollEvent) :
    (s.flushPendingWrite fd c caller events).phase.Plain := by
  unfold flushPendingWrite
  split <;> trivial

/-- All clients are plaintext clients. -/
structure Unencrypted (s : ExchangeRuntime) : Prop where
  context : s.phase.stage = 3 → s.sslContext = none
  clients : ∀ fd c, s.client fd = some c → c.ssl = none ∧ c.tlsHandshakeComplete = true

/-- The process stays where it is in the smaller model, or takes the same step. -/
def Simulates (s : ExchangeRuntime) (reply : Reply) (s' : ExchangeRuntime) : Prop :=
  (s'.view = s.view ∨ s'.view = s.view.step reply.plain) ∧ s'.phase.Plain

theorem pollOnce_simulates (hu : s.Unencrypted) (hphase : s.phase = .poll events) :
    Simulates s reply (s.pollOnce events) := by
  have hview : s.view = (s.plain .epollWait).pollEvents events := by
    rw [view, hphase]
  unfold Simulates
  rw [hview]
  unfold pollOnce
  split
  · exact ⟨.inl rfl, trivial⟩
  · exact ⟨.inl rfl, trivial⟩
  · next fd hangup writable readable events =>
      unfold ExchangeTcpServer.pollEvents
      split
      · exact ⟨.inl (view_abandon s fd events .epollWait), trivial⟩
      · cases hc : s.client fd with
        | none =>
            have hold : (s.plain .epollWait).clients fd = none := congrArg (Option.map _) hc
            have hclose : (s.plain .epollWait).closeClient fd = s.plain .epollWait := by
              unfold ExchangeTcpServer.closeClient
              rw [hold]
            rw [hold]
            dsimp only
            split
            · refine ⟨.inl ?_, trivial⟩
              rw [view_abandon s fd events .epollWait, hclose]
            · exact ⟨.inl rfl, trivial⟩
        | some c =>
            have hold : (s.plain .epollWait).clients fd = some c.connection :=
              congrArg (Option.map _) hc
            rw [hold]
            dsimp only
            have hcomplete := (hu.clients fd c hc).2
            rw [if_neg (by rw [hcomplete]; decide)]
            split
            · exact ⟨.inl (view_flushPendingWrite hc c _ events _),
                flushPendingWrite_plain _ _ _ _ _⟩
            · split
              · exact ⟨.inl rfl, trivial⟩
              · exact ⟨.inl rfl, trivial⟩

theorem plain_emplace (s : ExchangeRuntime) (fd : Nat) (c : Client) (stream : List UInt8)
    (hc : c.connection = .init stream) (phase : ServerPhase) :
    (s.emplace fd c).plain phase = (s.plain phase).emplace fd stream := by
  cases hnone : s.client fd with
  | some old =>
      have hold : (s.plain phase).clients fd = some old.connection := congrArg (Option.map _) hnone
      unfold emplace ExchangeTcpServer.emplace
      rw [hnone, hold]
  | none =>
      have hold : (s.plain phase).clients fd = none := congrArg (Option.map _) hnone
      have hclients : (fun fd' => ((s.emplace fd c).client fd').map Client.connection) =
          Function.update (fun fd' => (s.client fd').map Client.connection) fd
            (some c.connection) := by
        funext fd'
        by_cases heq : fd' = fd
        · subst heq
          rw [client_emplace_self hnone, Function.update_self]
          rfl
        · rw [client_emplace_of_ne heq, Function.update_of_ne heq]
      have hframe : s.emplace fd c =
          { s with clients := s.clients ++ [(fd, c)], accepted := s.accepted + 1 } := by
        unfold emplace
        rw [hnone]
      unfold ExchangeTcpServer.emplace
      rw [hold]
      show ({ accountId := _, handler := _, clients := _, phase := _, fault := _, closed := _ } :
        ExchangeTcpServer) = _
      rw [hclients, hframe, hc]
      rfl

theorem acceptClients_simulates (hu : s.Unencrypted) (hphase : s.phase = .accept events)
    (hfault : s.fault = none) (hrunning : (s.acceptClients events reply).phase ≠ .exited) :
    Simulates s reply (s.acceptClients events reply) := by
  have hstep : s.view.step reply.plain =
      (s.plain (.accept events)).acceptClients events reply.plain := by
    rw [view_accept hphase]
    exact ExchangeTcpServer.step_accept hfault rfl _
  have hcontext := hu.context (by rw [hphase]; rfl)
  have hplain : s.phase.Plain := by
    rw [hphase]
    trivial
  unfold Simulates
  rw [hstep]
  unfold acceptClients at hrunning ⊢
  split at hrunning
  · next fd setup stream =>
      -- without a context only the `epoll_ctl` can fail
      have hacquired : (s.acquire (.descriptor fd)).sslContext = none := hcontext
      have henter : setup.added = true →
          ((s.acquire (.descriptor fd)).emplace fd (s.newClient none stream)).view =
            (s.plain (.accept events)).acceptClients events
              (.connection fd setup.added stream) := by
        intro hadded
        have hphase' : ((s.acquire (.descriptor fd)).emplace fd (s.newClient none stream)).phase =
          .accept events := (emplace_phase _ _ _).trans hphase
        rw [view_accept hphase', plain_emplace _ _ _ stream rfl, hadded]
        rfl
      have hentered : ((s.acquire (.descriptor fd)).emplace fd
          (s.newClient none stream)).phase.Plain := by
        rw [emplace_phase]
        exact hplain
      dsimp only at hrunning ⊢
      rw [hacquired] at hrunning ⊢
      cases setup with
      | notAdded => exact absurd rfl hrunning
      | noSession => exact ⟨.inr (henter rfl), hentered⟩
      | notAttached ssl => exact ⟨.inr (henter rfl), hentered⟩
      | ready ssl => exact ⟨.inr (henter rfl), hentered⟩
  · exact ⟨.inr (view_poll s events _), trivial⟩
  · exact absurd rfl hrunning
  · exact ⟨.inl rfl, hplain⟩

theorem handleBlock_view (hc : s.client fd = some c) (hphase : s.phase = .receive fd events)
    (c' : Client) :
    (s.handleBlock fd c' events).view =
        (s.plain (.recv fd events)).handleBlock fd c'.connection events ∧
      (s.handleBlock fd c' events).phase.Plain := by
  unfold handleBlock ExchangeTcpServer.handleBlock
  dsimp only
  have hcall : (s.plain (.recv fd events)).handler.handleEnterOrder
      (s.plain (.recv fd events)).accountId
      (.ofList c'.connection.state.receiveBuffer.toList) EnterOrderSize =
    s.handler.handleEnterOrder s.accountId
      (.ofList c'.connection.state.receiveBuffer.toList) EnterOrderSize := rfl
  rw [hcall]
  cases s.handler.handleEnterOrder s.accountId
      (.ofList c'.connection.state.receiveBuffer.toList) EnterOrderSize with
  | error fault =>
      refine ⟨(@view_receive _ fd events ?_).trans ?_, ?_⟩
      · exact hphase
      · have hset := plain_setClient
          (s := s.called c'.serial c'.connection.state.receiveBuffer none) hc
          { c' with connection := { c'.connection with
            handled := c'.connection.handled ++ [c'.connection.state.receiveBuffer] } }
          (.recv fd events)
        exact congrArg (fun t : ExchangeTcpServer => { t with fault := some fault }) hset
      · show s.phase.Plain
        rw [hphase]
        trivial
  | ok result =>
      obtain ⟨response, handler⟩ := result
      cases response with
      | none =>
          refine ⟨?_, trivial⟩
          dsimp only
          rw [view_abandon _ fd events (.recv fd events),
            plain_setClient (s := { s.called _ _ none with handler := handler }) hc]
          rfl
      | some response =>
          unfold sendAll ExchangeTcpServer.sendAll
          dsimp only
          split
          · refine ⟨?_, trivial⟩
            rw [view_abandon _ fd events (.recv fd events),
              plain_setClient (s := { s.called _ _ (some response) with handler := handler }) hc]
            rfl
          · exact ⟨view_flushPendingWrite (s := { s.called _ _ (some response) with
              handler := handler }) hc _ .sendAll events (.recv fd events),
              flushPendingWrite_plain _ _ _ _ _⟩

theorem handleClientReadable_simulates (hc : s.client fd = some c) (hssl : c.ssl = none)
    (hfault : s.fault = none) (hphase : s.phase = .receive fd events) (reply : Reply) :
    Simulates s reply (s.handleClientReadable fd c events reply) := by
  have hplain : s.phase.Plain := by
    rw [hphase]
    trivial
  have habandon := view_abandon s fd events (.recv fd events)
  unfold Simulates
  rw [view_receive hphase, ExchangeTcpServer.step_recv hfault rfl (congrArg (Option.map _) hc)]
  unfold handleClientReadable
  split
  · next more =>
      unfold ExchangeTcpServer.handleClientReadable
      dsimp only [Reply.plain]
      split
      · exact ⟨.inl (view_receive hphase), hplain⟩
      · split
        · exact (handleBlock_view hc hphase _).imp_left .inr
        · refine ⟨.inr ?_, hplain⟩
          refine (@view_receive _ fd events ?_).trans ?_
          · exact hphase
          · exact plain_setClient hc _ _
  · exact ⟨.inr habandon, trivial⟩
  · exact ⟨.inr habandon, trivial⟩
  · rw [if_pos hssl]
    exact ⟨.inr (view_poll s events _), trivial⟩
  · rw [if_pos hssl]
    exact ⟨.inl (view_receive hphase), hplain⟩
  · rw [if_pos hssl]
    exact ⟨.inl (view_receive hphase), hplain⟩
  · exact ⟨.inl (view_receive hphase), hplain⟩

theorem afterSend_simulates {caller : FlushCaller} (hc : s.client fd = some c)
    (hssl : c.ssl = none) (hfault : s.fault = none)
    (hphase : s.phase = .send fd caller events) (reply : Reply) :
    Simulates s reply (s.afterSend fd c caller events reply) := by
  have hplain : s.phase.Plain := by
    rw [hphase]
    trivial
  have hstay := view_send hphase
  unfold Simulates
  rw [hstay, ExchangeTcpServer.step_send hfault rfl (congrArg (Option.map _) hc)]
  unfold afterSend
  split
  · exact ⟨.inr (view_flushPendingWrite hc _ caller events _), flushPendingWrite_plain _ _ _ _ _⟩
  · rw [if_pos hssl]
    exact ⟨.inr rfl, trivial⟩
  · rw [if_pos hssl]
    exact ⟨.inl hstay, hplain⟩
  · rw [if_pos hssl]
    exact ⟨.inl hstay, hplain⟩
  · exact ⟨.inr (view_abandon s fd events _), trivial⟩
  · exact ⟨.inl hstay, hplain⟩

theorem updateClientEvents_simulates {caller : FlushCaller} {writable : Bool}
    (hc : s.client fd = some c) (hfault : s.fault = none)
    (hphase : s.phase = .updateEvents fd writable (.flushPendingWrite caller) events)
    (reply : Reply) :
    Simulates s reply (s.updateClientEvents fd c writable (.flushPendingWrite caller) events
      reply) := by
  have hplain : s.phase.Plain := by
    rw [hphase]
    trivial
  have hstay := view_updateEvents hphase
  have hstep : ∀ ok : Bool, (s.plain (.updateEvents fd caller events)).step
      (if ok then .done else .failed) =
        (s.plain (.updateEvents fd caller events)).flushed fd c.connection ok caller events :=
    ExchangeTcpServer.step_update hfault rfl (congrArg (Option.map _) hc)
  unfold Simulates
  rw [hstay]
  unfold updateClientEvents
  split
  · rw [show Reply.done.plain = if true then Answer.done else .failed from rfl, hstep]
    unfold ExchangeTcpServer.flushed
    rw [if_pos rfl]
    -- that `epoll` has been told is not recorded in the smaller model
    have hsame : ∀ phase, (s.setClient fd { c with watchesWrite := writable }).plain phase =
        s.plain phase := by
      intro phase
      rw [plain_setClient hc]
      exact ExchangeTcpServer.setClient_eq_self (congrArg (Option.map _) hc)
    cases caller with
    | sendAll =>
        refine ⟨.inr ?_, trivial⟩
        refine (@view_receive _ fd events rfl).trans ?_
        exact plain_setClient hc _ (.recv fd events)
    | pollOnce readable =>
        cases readable with
        | true => exact ⟨.inr (hsame (.recv fd events)), trivial⟩
        | false =>
            refine ⟨.inr ?_, trivial⟩
            refine (view_poll _ events (.updateEvents fd (.pollOnce false) events)).trans ?_
            rw [hsame]
            rfl
  · refine ⟨.inr ?_, trivial⟩
    rw [show Reply.failed.plain = if false then Answer.done else .failed from rfl, hstep]
    exact view_abandon s fd events _
  · exact ⟨.inl hstay, hplain⟩

theorem step_simulates (hu : s.Unencrypted) (hplain : s.phase.Plain) (reply : Reply)
    (hrunning : (s.step reply).phase ≠ .exited) : Simulates s reply (s.step reply) := by
  have hstay : Simulates s reply s := ⟨.inl rfl, hplain⟩
  unfold step at hrunning ⊢
  split at hrunning
  · next hsome =>
      rw [if_pos hsome]
      exact hstay
  · next hnot =>
      rw [if_neg hnot]
      have hfault : s.fault = none := by simpa using hnot
      cases hphase : s.phase with
      | start call =>
          rw [hphase] at hplain
          exact hplain.elim
      | epollWait =>
          rw [hphase] at hrunning
          have hview : s.view = s.plain .epollWait := by
            rw [view, hphase]
          cases reply with
          | events events =>
              refine ⟨.inr ?_, trivial⟩
              rw [hview]
              exact (ExchangeTcpServer.step_wait hfault rfl events).symm
          | failed => exact absurd rfl hrunning
          | _ => exact hstay
      | poll events => exact pollOnce_simulates hu hphase
      | accept events =>
          rw [hphase] at hrunning
          exact acceptClients_simulates hu hphase hfault hrunning
      | handshake fd events =>
          rw [hphase] at hplain
          exact hplain.elim
      | receive fd events =>
          dsimp only
          cases hc : s.client fd with
          | none => exact hstay
          | some c =>
              exact handleClientReadable_simulates hc (hu.clients fd c hc).1 hfault hphase reply
      | send fd caller events =>
          dsimp only
          cases hc : s.client fd with
          | none => exact hstay
          | some c => exact afterSend_simulates hc (hu.clients fd c hc).1 hfault hphase reply
      | updateEvents fd writable caller events =>
          dsimp only
          cases hc : s.client fd with
          | none => exact hstay
          | some c =>
              cases caller with
              | flushPendingWrite caller =>
                  exact updateClientEvents_simulates hc hfault hphase reply
              | handleClientReadable =>
                  rw [hphase] at hplain
                  exact hplain.elim
              | progressTlsHandshake =>
                  rw [hphase] at hplain
                  exact hplain.elim
      | exited => exact hstay

/-! ## Runs -/

/-- Where the process is in the smaller model: at its beginning while the server is being
started, and then in some run of it. -/
def Located (accountId : AccountId) (handler : ExchangeOuchHandler) (s : ExchangeRuntime) :
    Prop :=
  match s.phase with
  | .start _ => s.plain .epollWait = .init accountId handler
  | .exited => True
  | _ => s.phase.Plain ∧ ∃ answers, s.view = (ExchangeTcpServer.init accountId handler).run answers

variable {accountId : AccountId} {handler : ExchangeOuchHandler}

theorem Located.of_plain (hplain : s.phase.Plain)
    (hrun : ∃ answers, s.view = (ExchangeTcpServer.init accountId handler).run answers) :
    Located accountId handler s := by
  unfold Located
  split
  · next hphase =>
      rw [hphase] at hplain
      exact hplain.elim
  · trivial
  · exact ⟨hplain, hrun⟩

theorem Located.start {call : StartCall} (hphase : s.phase = .start call)
    (h : s.plain .epollWait = .init accountId handler) (reply : Reply) :
    Located accountId handler (s.start call reply) := by
  have hstay : Located accountId handler s := by
    rw [Located, hphase]
    exact h
  have hnext : ∀ next : StartCall, Located accountId handler { s with phase := .start next } :=
    fun _ => h
  unfold ExchangeRuntime.start
  split
  · cases call with
    | bind =>
        show Located accountId handler { s with phase :=
          if s.port = 0 then (.start .getsockname) else (.start .listen) }
        split
        · exact hnext .getsockname
        · exact hnext .listen
    | epollAdd => exact .of_plain trivial ⟨[], h⟩
    | _ => exact hnext _
  · split
    · exact h
    · exact h
    · exact h
    · exact hstay
  · split
    · exact h
    · exact hstay
  · split <;> trivial
  · exact hstay

theorem Located.step (h : Located accountId handler s) (hu : s.fault = none → s.Unencrypted)
    (reply : Reply) :
    Located accountId handler (s.step reply) := by
  by_cases hexits : (s.step reply).phase = .exited
  · rw [Located, hexits]
    trivial
  by_cases hfault : s.fault.isSome = true
  · unfold ExchangeRuntime.step
    rw [if_pos hfault]
    exact h
  have hnone : s.fault = none := by simpa using hfault
  cases hphase : s.phase with
  | start call =>
      have hstep : s.step reply = s.start call reply := by
        unfold ExchangeRuntime.step
        rw [if_neg hfault, hphase]
      rw [Located, hphase] at h
      rw [hstep]
      exact Located.start hphase h reply
  | exited =>
      have hstep : s.step reply = s := by
        unfold ExchangeRuntime.step
        rw [if_neg hfault, hphase]
      rw [hstep]
      exact h
  | _ =>
      obtain ⟨hplain, answers, hview⟩ : s.phase.Plain ∧ ∃ answers,
          s.view = (ExchangeTcpServer.init accountId handler).run answers := by
        rw [Located, hphase] at h
        rw [hphase]
        exact h
      obtain ⟨hsame | hstep, hplain'⟩ := step_simulates (hu hnone) hplain reply hexits
      · exact .of_plain hplain' ⟨answers, hsame.trans hview⟩
      · refine .of_plain hplain' ⟨answers ++ [reply.plain], ?_⟩
        rw [hstep, hview, ExchangeTcpServer.run, ExchangeTcpServer.run, List.foldl_append]
        rfl

theorem Served.unencrypted (h : Served accountId handler s) (hkind : OneKind false s)
    (hfault : s.fault = none) : s.Unencrypted where
  context := fun hstage => by simpa using hkind.running hstage
  clients := fun fd c hc => by
    have hmem : c ∈ s.everyClient :=
      List.mem_append_left _ (List.mem_map.mpr ⟨(fd, c), h.balanced.mem_clients hc, rfl⟩)
    have hssl : c.ssl = none := by simpa using hkind.clients c hmem
    exact ⟨hssl, ((h.fits hfault fd c hc).sound.plain hssl).1⟩

/-- Every state of the process without TLS, from the start of its server to its end, is one
that the plaintext server of the smaller model comes to. -/
theorem plaintext_process_simulated (port : UInt16) (accountId : AccountId)
    (handler : ExchangeOuchHandler) (replies : List Reply)
    (hsane : Meets step Sane (init port accountId handler false) replies)
    (hstarted : ∀ call, ((init port accountId handler false).run replies).phase ≠ .start call)
    (hrunning : ((init port accountId handler false).run replies).phase ≠ .exited) :
    ∃ answers, ((init port accountId handler false).run replies).view =
      (ExchangeTcpServer.init accountId handler).run answers := by
  have hkeep : ∀ s reply, (Served accountId handler s ∧ OneKind false s ∧
      Located accountId handler s) → s.Sane reply → (Served accountId handler (s.step reply) ∧
        OneKind false (s.step reply) ∧ Located accountId handler (s.step reply)) := by
    rintro s reply ⟨hserved, hkind, hlocated⟩ hok
    exact ⟨hserved.step hok, hkind.move hserved.balanced hok (s.step_move reply),
      hlocated.step (hserved.unencrypted hkind) reply⟩
  have hinit : Located accountId handler (init port accountId handler false) := by
    show (init port accountId handler false).plain .epollWait = _
    rfl
  have hnone : Meets step Sane (init port accountId handler false) [] := trivial
  have h : Located accountId handler ((init port accountId handler false).run replies) :=
    (hsane.invariant _ hkeep ⟨served_run port accountId handler false hnone,
      oneKind_init port accountId handler false, hinit⟩).2.2
  unfold Located at h
  split at h
  · next call hphase => exact absurd hphase (hstarted call)
  · next hphase => exact absurd hphase hrunning
  · exact h.2

/-- Two clients come in, and the second sends a part of a block. -/
def partReceived : List Reply :=
  [.handle 3, .done, .done, .done, .handle 4, .done, .events [.listen], .done,
    .connection 5 (.ready 0) [], .connection 6 (.ready 0) ExchangeTcpServer.buyTen, .again, .done,
    .events [.client 6 false false true], .done, .bytes 19]

theorem plaintext_process_simulated_part_received :
    ((init 8080 1001 (.init UInt64.toNat) false).run partReceived).phase = .receive 6 [] ∧
      ∃ answers, ((init 8080 1001 (.init UInt64.toNat) false).run partReceived).view =
        (ExchangeTcpServer.init 1001 (.init UInt64.toNat)).run answers := by
  have hphase : ((init 8080 1001 (.init UInt64.toNat) false).run partReceived).phase =
    .receive 6 [] := by decide +kernel
  refine ⟨hphase, plaintext_process_simulated 8080 1001 (.init UInt64.toNat) partReceived
    (by decide +kernel) (fun call => ?_) ?_⟩
  · rw [hphase]
    exact nofun
  · rw [hphase]
    exact nofun

end ExchangeRuntime

end OpenHft
