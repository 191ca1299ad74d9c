import OpenHft.Model.ExchangeRuntime
import OpenHft.Proofs.ServerAnswers

/-!
# What holds of every client of the exchange process

A client rests while the server is busy with others or waits for events, and then it is
`Idle`: its blocks have all been answered, it can receive, it has exchanged nothing if its
handshake is not complete, and `epoll` watches it for `EPOLLOUT` when bytes are pending. The
last point is what keeps a connection alive: a response that `send` did not take whole goes
out only if that event comes.

While the server works on a client, something of this is suspended, and each point of the
code says what (`Phase.Fits`). All other clients are idle, and no call touches them.
-/

namespace OpenHft

open OpenHft.Lib

/-! ## One client -/

namespace Client

variable {c : Client} {connection : Connection}

/-- What holds of a client at every point. -/
structure Sound (c : Client) : Prop where
  ok : c.connection.Ok
  answered : c.connection.responses.length = c.connection.handled.length
  secured : c.tlsHandshakeComplete = false → c.connection = .init c.connection.stream
  plain : c.ssl = none → c.tlsHandshakeComplete = true ∧ c.offered = none
  repeated : ∀ bytes, c.offered = some bytes → c.connection.pending = bytes ∧ bytes ≠ []
  unsent : c.connection.state.sendBuffer ≠ [] →
    c.connection.state.sentBytes < c.connection.state.sendBuffer.length

/-- A client whose call has returned: there is room to receive, and a pending response is
watched for. -/
structure Idle (c : Client) : Prop extends Sound c where
  room : c.connection.state.receivedBytes < EnterOrderSize
  watched : c.connection.state.sendBuffer ≠ [] → c.watchesWrite = true
  quiet : c.ssl = none → c.watchesWrite = true → c.connection.state.sendBuffer ≠ []

/-- The block that `sendAll` answers is still in the buffer. -/
def Room (c : Client) : FlushCaller → Prop
  | .sendAll => c.connection.state.receivedBytes = EnterOrderSize
  | .pollOnce _ => c.connection.state.receivedBytes < EnterOrderSize

/-- In the loop of `flushPendingWrite`. -/
structure Flushing (c : Client) (caller : FlushCaller) : Prop extends Sound c where
  complete : c.tlsHandshakeComplete = true
  room : c.Room caller
  busy : c.connection.state.sendBuffer ≠ []

/-- The state is as it will be; `epoll` has to be told. -/
structure Updating (c : Client) (writable : Bool) (caller : FlushCaller) : Prop
    extends Sound c where
  room : c.Room caller
  watched : c.connection.state.sendBuffer ≠ [] → writable = true
  quiet : c.ssl = none → writable = true → c.connection.state.sendBuffer ≠ []

theorem Idle.ready (h : c.Idle) : c.connection.Ready := ⟨h.ok, h.answered, h.room⟩

theorem Sound.pending_eq_nil (h : c.Sound) (hempty : c.connection.state.sendBuffer = []) :
    c.offered = none := by
  cases hoffered : c.offered with
  | none => rfl
  | some bytes =>
      obtain ⟨hpending, hne⟩ := h.repeated bytes hoffered
      rw [Connection.pending, hempty, List.drop_nil] at hpending
      exact absurd hpending.symm hne

/-- Before the handshake nothing is buffered. -/
theorem Sound.sendBuffer_of_incomplete (h : c.Sound) (hc : c.tlsHandshakeComplete = false) :
    c.connection.state.sendBuffer = [] := by
  rw [h.secured hc]
  rfl

/-- Another connection state of a client that is past its handshake. -/
theorem Sound.withConnection (h : c.Sound) (hc : c.tlsHandshakeComplete = true)
    (hok : connection.Ok) (hanswered : connection.responses.length = connection.handled.length)
    (hrepeated : ∀ bytes, c.offered = some bytes → connection.pending = bytes ∧ bytes ≠ [])
    (hunsent : connection.state.sendBuffer ≠ [] →
      connection.state.sentBytes < connection.state.sendBuffer.length) :
    Sound { c with connection := connection } where
  ok := hok
  answered := hanswered
  secured := fun hfalse => nomatch hc.symm.trans hfalse
  plain := h.plain
  repeated := hrepeated
  unsent := hunsent

/-- A client that has just been taken into the map. -/
theorem idle_newClient (s : ExchangeRuntime) (ssl : Option Nat) (stream : List UInt8) :
    Idle (s.newClient ssl stream) where
  ok := (Connection.init_ready stream).ok
  answered := rfl
  secured := fun _ => rfl
  plain := fun hplain => by
    have hssl : ssl = none := hplain
    subst hssl
    exact ⟨rfl, rfl⟩
  repeated := nofun
  unsent := fun hne => absurd rfl hne
  room := (Connection.init_ready stream).room
  watched := fun hne => absurd rfl hne
  quiet := fun _ hfalse => nomatch hfalse

/-- Bytes that do not fill the block. -/
theorem Idle.receive (h : c.Idle) (hc : c.tlsHandshakeComplete = true) {bytes : List UInt8}
    (hroom : c.connection.state.receivedBytes + bytes.length < EnterOrderSize)
    (hunread : bytes ++ c.connection.unread.drop bytes.length = c.connection.unread) :
    Idle { c with connection := c.connection.receive bytes } := by
  have hready := h.ready.receive hroom hunread
  exact
    { h.withConnection hc hready.ok hready.answered h.repeated h.unsent with
      room := hroom
      watched := h.watched
      quiet := h.quiet }

theorem Idle.flushing (h : c.Idle) (hc : c.tlsHandshakeComplete = true)
    (hne : c.connection.state.sendBuffer ≠ []) (readable : Bool) :
    c.Flushing (.pollOnce readable) :=
  { h with complete := hc, room := h.room, busy := hne }

/-- Some of the pending bytes are sent, and not all of them. -/
theorem Flushing.send {caller : FlushCaller} (h : c.Flushing caller) {count : Nat}
    (hmore : (c.connection.send (c.connection.accepted count)).state.sentBytes <
      (c.connection.send (c.connection.accepted count)).state.sendBuffer.length) :
    Flushing { c with
      connection := c.connection.send (c.connection.accepted count)
      offered := none } caller :=
  { ok := h.ok.send count
    answered := h.answered
    secured := fun hfalse => nomatch h.complete.symm.trans hfalse
    plain := fun hplain => ⟨(h.plain hplain).1, rfl⟩
    repeated := nofun
    unsent := fun _ => hmore
    complete := h.complete
    room := h.room
    busy := h.busy }

/-- The last of them are sent, and the buffer is cleared. -/
theorem Flushing.clear {caller : FlushCaller} (h : c.Flushing caller) {count : Nat}
    (hdone : ¬ (c.connection.send (c.connection.accepted count)).state.sentBytes <
      (c.connection.send (c.connection.accepted count)).state.sendBuffer.length) :
    Updating { c with
      connection := { c.connection.send (c.connection.accepted count) with
        state := { (c.connection.send (c.connection.accepted count)).state with
          sendBuffer := [], sentBytes := 0 } }
      offered := none } false caller where
  ok := (h.ok.send count).clear hdone
  answered := h.answered
  secured := fun hfalse => nomatch h.complete.symm.trans hfalse
  plain := fun hplain => ⟨(h.plain hplain).1, rfl⟩
  repeated := nofun
  unsent := fun hne => absurd rfl hne
  room := h.room
  watched := fun hne => absurd rfl hne
  quiet := fun _ hfalse => nomatch hfalse

/-- Nothing more can be sent for now. -/
theorem Flushing.wait {caller : FlushCaller} (h : c.Flushing caller) :
    c.Updating true caller :=
  { h with watched := fun _ => rfl, quiet := fun _ _ => h.busy }

/-- `SSL_write` has to be called again with the same bytes. -/
theorem Flushing.offer {caller : FlushCaller} (h : c.Flushing caller) (hssl : c.ssl ≠ none) :
    Updating { c with
      offered := some (c.connection.state.sendBuffer.drop c.connection.state.sentBytes) }
      true caller where
  ok := h.ok
  answered := h.answered
  secured := h.secured
  plain := fun hplain => absurd hplain hssl
  repeated := fun bytes hbytes => by
    cases hbytes
    exact ⟨rfl, List.ne_nil_of_length_pos (by
      rw [List.length_drop]
      have hlt := h.unsent h.busy
      omega)⟩
  unsent := h.unsent
  room := h.room
  watched := fun _ => rfl
  quiet := fun _ _ => h.busy

/-- `epoll` has been told, and the client can rest. -/
theorem Updating.idle {writable readable : Bool} (h : c.Updating writable (.pollOnce readable)) :
    Idle { c with watchesWrite := writable } :=
  { h with room := h.room, watched := h.watched, quiet := h.quiet }

/-- The same at the end of `sendAll`: the buffer is free for the next block. -/
theorem Updating.restart {writable : Bool} (h : c.Updating writable .sendAll)
    (hc : c.tlsHandshakeComplete = true) :
    Idle { c with
      watchesWrite := writable
      connection := { c.connection with
        state := { c.connection.state with receivedBytes := 0 } } } where
  ok := h.ok.restart h.room
  answered := h.answered
  secured := fun hfalse => nomatch hc.symm.trans hfalse
  plain := h.plain
  repeated := h.repeated
  unsent := h.unsent
  room := Nat.zero_lt_succ 46
  watched := h.watched
  quiet := h.quiet

/-- A block has been handed over and its response goes into the empty buffer. -/
theorem Idle.answer (h : c.Idle) (hc : c.tlsHandshakeComplete = true) {bytes : List UInt8}
    (hfull : c.connection.state.receivedBytes + bytes.length = EnterOrderSize)
    (hunread : bytes ++ c.connection.unread.drop bytes.length = c.connection.unread)
    (hempty : c.connection.state.sendBuffer = []) (response : AcceptedEncoder.Buffer) :
    Flushing { c with connection := { c.connection.receive bytes with
      handled := c.connection.handled ++ [(c.connection.receive bytes).state.receiveBuffer]
      responses := c.connection.responses ++ [response]
      state := { (c.connection.receive bytes).state with
        sendBuffer := response.toList, sentBytes := 0 } } } .sendAll := by
  have hok := (h.ready.receive_full hfull hunread).assign hempty response
  have hlength : 0 < response.toList.length := by
    rw [Vector.length_toList]
    exact Nat.zero_lt_succ 63
  have hoffered := h.pending_eq_nil hempty
  refine
    { h.withConnection hc hok ?_ ?_ ?_ with
      complete := hc
      room := hfull
      busy := List.ne_nil_of_length_pos hlength }
  · show (c.connection.responses ++ [response]).length =
      (c.connection.handled ++ [_]).length
    rw [List.length_append, List.length_append, h.answered]
    rfl
  · intro bytes hbytes
    rw [hoffered] at hbytes
    cases hbytes
  · exact fun _ => hlength

/-- A socket that takes as much as is pending. -/
theorem Flushing.accepted_all {caller : FlushCaller} (h : c.Flushing caller) {count : Nat}
    (hcount : c.connection.pending.length ≤ count) :
    c.connection.accepted count = c.connection.pending ∧
      ¬ (c.connection.send (c.connection.accepted count)).state.sentBytes <
        (c.connection.send (c.connection.accepted count)).state.sendBuffer.length := by
  have hall : c.connection.accepted count = c.connection.pending :=
    List.take_of_length_le hcount
  refine ⟨hall, ?_⟩
  rw [hall]
  show ¬ c.connection.state.sentBytes + c.connection.pending.length <
    c.connection.state.sendBuffer.length
  have hlt := h.unsent h.busy
  rw [Connection.pending, List.length_drop]
  omega

end Client

/-! ## The points of the code -/

namespace ExchangeRuntime

/-- What holds of a client at each point. -/
def Phase.Fits (fd : Nat) (c : Client) : Phase → Prop
  | .handshake fd' _ => c.Idle ∧ (fd' = fd → c.tlsHandshakeComplete = false)
  | .receive fd' _ => c.Idle ∧ (fd' = fd → c.tlsHandshakeComplete = true)
  | .send fd' caller _ => (fd' = fd → c.Flushing caller) ∧ (fd' ≠ fd → c.Idle)
  | .updateEvents fd' writable (.flushPendingWrite caller) _ =>
      (fd' = fd → c.tlsHandshakeComplete = true ∧ c.Updating writable caller) ∧
        (fd' ≠ fd → c.Idle)
  | .updateEvents fd' writable _ _ =>
      (fd' = fd → c.Updating writable (.pollOnce false)) ∧ (fd' ≠ fd → c.Idle)
  | _ => c.Idle

/-- The client that the server is working on. -/
def Phase.focus : Phase → Option Nat
  | .handshake fd _ | .receive fd _ | .send fd _ _ | .updateEvents fd _ _ _ => some fd
  | _ => none

theorem Phase.fits_of_idle {phase : Phase} {fd : Nat} {c : Client}
    (hfocus : phase.focus ≠ some fd) (h : c.Idle) : phase.Fits fd c := by
  have hne : ∀ fd', phase.focus = some fd' → fd' ≠ fd := by
    rintro fd' hfd' rfl
    exact hfocus hfd'
  cases phase with
  | handshake fd' events => exact ⟨h, fun heq => absurd heq (hne fd' rfl)⟩
  | receive fd' events => exact ⟨h, fun heq => absurd heq (hne fd' rfl)⟩
  | send fd' caller events => exact ⟨fun heq => absurd heq (hne fd' rfl), fun _ => h⟩
  | updateEvents fd' writable caller events =>
      cases caller <;> exact ⟨fun heq => absurd heq (hne fd' rfl), fun _ => h⟩
  | _ => exact h

theorem Phase.Fits.idle {phase : Phase} {fd : Nat} {c : Client} (h : phase.Fits fd c)
    (hfocus : phase.focus ≠ some fd) : c.Idle := by
  have hne : ∀ fd', phase.focus = some fd' → fd' ≠ fd := by
    rintro fd' hfd' rfl
    exact hfocus hfd'
  cases phase with
  | handshake fd' events => exact h.1
  | receive fd' events => exact h.1
  | send fd' caller events => exact h.2 (hne fd' rfl)
  | updateEvents fd' writable caller events => cases caller <;> exact h.2 (hne fd' rfl)
  | _ => exact h

theorem Phase.Fits.sound {phase : Phase} {fd : Nat} {c : Client} (h : phase.Fits fd c) :
    c.Sound := by
  by_cases hfocus : phase.focus = some fd
  · cases phase with
    | handshake fd' events => exact h.1.toSound
    | receive fd' events => exact h.1.toSound
    | send fd' caller events => exact (h.1 (Option.some.inj hfocus)).toSound
    | updateEvents fd' writable caller events =>
        cases caller with
        | flushPendingWrite caller => exact (h.1 (Option.some.inj hfocus)).2.toSound
        | handleClientReadable => exact (h.1 (Option.some.inj hfocus)).toSound
        | progressTlsHandshake => exact (h.1 (Option.some.inj hfocus)).toSound
    | _ => cases hfocus
  · exact (h.idle hfocus).toSound

variable {s : ExchangeRuntime} {fd : Nat} {c c' : Client} {events : List EpollEvent}
  {phase : Phase}

theorem client_setClient_self (hc : s.client fd = some c) (c' : Client) :
    (s.setClient fd c').client fd = some c' := by
  obtain ⟨entry, hentry, -⟩ := Option.map_eq_some_iff.mp hc
  have hlookup := @lookup_alterKey _ _ _ Prod.fst fd (fun _ => (fd, c')) (fun _ _ => rfl) fd
    s.clients
  rw [if_pos rfl, hentry] at hlookup
  exact congrArg (Option.map Prod.snd) hlookup

theorem client_setClient_of_ne {fd' : Nat} (hne : fd' ≠ fd) (c' : Client) :
    (s.setClient fd c').client fd' = s.client fd' := by
  have hlookup := @lookup_alterKey _ _ _ Prod.fst fd (fun _ => (fd, c')) (fun _ _ => rfl) fd'
    s.clients
  rw [if_neg hne] at hlookup
  exact congrArg (Option.map Prod.snd) hlookup

theorem client_closeClient_self : (s.closeClient fd).client fd = none := by
  unfold closeClient
  split
  · next hnone => exact hnone
  · exact congrArg (Option.map Prod.snd) lookup_dropKey_self

theorem client_closeClient_of_ne {fd' : Nat} (hne : fd' ≠ fd) :
    (s.closeClient fd).client fd' = s.client fd' := by
  unfold closeClient
  split
  · rfl
  · exact congrArg (Option.map Prod.snd) (lookup_dropKey_of_ne hne)

/-- The invariant. -/
def ClientsFit (s : ExchangeRuntime) : Prop :=
  s.fault = none → ∀ fd c, s.client fd = some c → s.phase.Fits fd c

/-- All clients but one are idle. -/
def OthersIdle (s : ExchangeRuntime) (fd : Nat) : Prop :=
  ∀ fd' c, fd' ≠ fd → s.client fd' = some c → c.Idle

/-- No call is in the middle of a client. -/
def AllIdle (s : ExchangeRuntime) : Prop := ∀ fd c, s.client fd = some c → c.Idle

theorem AllIdle.others (h : s.AllIdle) (fd : Nat) : s.OthersIdle fd :=
  fun fd' c _ hc => h fd' c hc

theorem AllIdle.goto (h : s.AllIdle)
    (hfits : ∀ fd c, phase.focus = some fd → s.client fd = some c → phase.Fits fd c) :
    ClientsFit { s with phase := phase } := by
  intro _ fd c hc
  by_cases hfocus : phase.focus = some fd
  · exact hfits fd c hfocus hc
  · exact Phase.fits_of_idle hfocus (h fd c hc)

/-- A point of the loop where no client is worked on. -/
theorem AllIdle.unfocused (h : s.AllIdle) (hphase : phase.focus = none) :
    ClientsFit { s with phase := phase } :=
  h.goto fun _ _ hfocus => nomatch hphase.symm.trans hfocus

/-- The client that is worked on takes a new state, and the server stays with it. -/
theorem OthersIdle.change (h : s.OthersIdle fd) (hc : s.client fd = some c)
    (hfocus : phase.focus = some fd) (hfits : phase.Fits fd c') :
    ClientsFit { s.setClient fd c' with phase := phase } := by
  intro _ fd' c'' hc''
  by_cases heq : fd' = fd
  · subst heq
    cases (client_setClient_self hc c').symm.trans hc''
    exact hfits
  · have hother := (client_setClient_of_ne heq c').symm.trans hc''
    refine Phase.fits_of_idle (fun hsome => ?_) (h fd' c'' heq hother)
    exact heq (Option.some.inj (hsome.symm.trans hfocus))

/-- It comes to rest. -/
theorem OthersIdle.allIdle (h : s.OthersIdle fd) (hc : s.client fd = some c)
    (hidle : c'.Idle) : (s.setClient fd c').AllIdle := by
  intro fd' c'' hc''
  by_cases heq : fd' = fd
  · subst heq
    cases (client_setClient_self hc c').symm.trans hc''
    exact hidle
  · exact h fd' c'' heq ((client_setClient_of_ne heq c').symm.trans hc'')

theorem OthersIdle.setClient (h : s.OthersIdle fd) (c : Client) :
    (s.setClient fd c).OthersIdle fd :=
  fun fd' c' hne hc => h fd' c' hne ((client_setClient_of_ne hne c).symm.trans hc)

theorem OthersIdle.abandon (h : s.OthersIdle fd) (events : List EpollEvent) :
    (s.abandon fd events).ClientsFit := by
  have hall : (s.closeClient fd).AllIdle := by
    intro fd' c hc
    by_cases heq : fd' = fd
    · subst heq
      cases client_closeClient_self.symm.trans hc
    · exact h fd' c heq ((client_closeClient_of_ne heq).symm.trans hc)
  exact hall.unfocused rfl

theorem ClientsFit.allIdle (h : s.ClientsFit) (hfault : s.fault = none)
    (hphase : s.phase.focus = none) : s.AllIdle :=
  fun fd c hc => (h hfault fd c hc).idle (fun hsome => nomatch hphase.symm.trans hsome)

theorem ClientsFit.othersIdle (h : s.ClientsFit) (hfault : s.fault = none)
    (hphase : s.phase.focus = some fd) : s.OthersIdle fd :=
  fun fd' c hne hc => (h hfault fd' c hc).idle
    (fun hsome => hne (Option.some.inj (hsome.symm.trans hphase)))

/-! ## The steps -/

theorem AllIdle.pollOnce (h : s.AllIdle) (events : List EpollEvent) :
    (s.pollOnce events).ClientsFit := by
  unfold ExchangeRuntime.pollOnce
  split
  · exact h.unfocused rfl
  · exact h.unfocused rfl
  · next fd hangup writable readable events =>
      split
      · exact (h.others fd).abandon events
      · split
        · split
          · exact (h.others fd).abandon events
          · exact h.unfocused rfl
        · next c hc =>
            have hidle := h fd c hc
            split
            · next hincomplete =>
                split
                · exact (h.others fd).abandon events
                · refine h.goto fun fd' c' hfocus hc' => ?_
                  cases hfocus
                  cases hc.symm.trans hc'
                  exact ⟨hidle, fun _ => hincomplete⟩
            · next hcomplete =>
                have hcomplete : c.tlsHandshakeComplete = true := by simpa using hcomplete
                split
                · next hflush =>
                    have hne := hflush.2
                    rw [flushPendingWrite, if_pos (hidle.unsent hne)]
                    exact (h.others fd).change hc rfl
                      ⟨fun _ => hidle.flushing hcomplete hne readable, fun hff => absurd rfl hff⟩
                · split
                  · refine h.goto fun fd' c' hfocus hc' => ?_
                    cases hfocus
                    cases hc.symm.trans hc'
                    exact ⟨hidle, fun _ => hcomplete⟩
                  · exact h.unfocused rfl

theorem client_emplace_of_ne {fd' : Nat} (hne : fd' ≠ fd) (c : Client) :
    (s.emplace fd c).client fd' = s.client fd' := by
  unfold emplace
  split
  · show (lookup Prod.fst fd' (s.clients ++ [(fd, c)])).map Prod.snd = _
    rw [lookup_append_singleton, if_neg (fun heq => hne heq.symm), Option.or_none]
    rfl
  · rfl

theorem client_emplace_self (hc : s.client fd = none) (c : Client) :
    (s.emplace fd c).client fd = some c := by
  unfold emplace
  rw [hc]
  show (lookup Prod.fst fd (s.clients ++ [(fd, c)])).map Prod.snd = _
  rw [lookup_append_singleton, Option.map_eq_none_iff.mp hc, if_pos rfl]
  rfl

theorem AllIdle.emplace (h : s.AllIdle) (hidle : c.Idle) : (s.emplace fd c).AllIdle := by
  intro fd' c' hc'
  by_cases heq : fd' = fd
  · subst heq
    cases hfree : s.client fd' with
    | none =>
        cases (client_emplace_self hfree c).symm.trans hc'
        exact hidle
    | some old =>
        unfold ExchangeRuntime.emplace at hc'
        rw [hfree] at hc'
        exact h fd' c' hc'
  · exact h fd' c' ((client_emplace_of_ne heq c).symm.trans hc')

theorem emplace_phase (s : ExchangeRuntime) (fd : Nat) (c : Client) :
    (s.emplace fd c).phase = s.phase := by
  unfold emplace
  split <;> rfl

theorem clientsFit_exit (s : ExchangeRuntime) : s.exit.ClientsFit :=
  fun _ _ _ hc => nomatch hc

theorem AllIdle.acceptClients (h : s.AllIdle) (hphase : s.phase.focus = none)
    (events : List EpollEvent) (reply : Reply) : (s.acceptClients events reply).ClientsFit := by
  have hfit : ∀ {t : ExchangeRuntime}, t.AllIdle → t.phase = s.phase → t.ClientsFit := by
    intro t ht hsame _ fd c hc
    exact Phase.fits_of_idle (by rw [hsame, hphase]; exact nofun) (ht fd c hc)
  unfold ExchangeRuntime.acceptClients
  split
  · next fd setup stream =>
      have hacquired : (s.acquire (.descriptor fd)).AllIdle := h
      dsimp only
      split
      · exact clientsFit_exit _
      · exact hfit (hacquired.emplace (Client.idle_newClient _ none stream))
          (emplace_phase _ _ _)
      · exact clientsFit_exit _
      · exact clientsFit_exit _
      · next ssl _ _ =>
          have hsession : ((s.acquire (.descriptor fd)).acquire (.session ssl)).AllIdle := h
          exact hfit (hsession.emplace (Client.idle_newClient _ (some ssl) stream))
            (emplace_phase _ _ _)
  · exact h.unfocused rfl
  · exact clientsFit_exit _
  · exact hfit h rfl

theorem OthersIdle.progressTlsHandshake (h : s.OthersIdle fd) (hc : s.client fd = some c)
    (hfit : s.ClientsFit) (hidle : c.Idle) (hincomplete : c.tlsHandshakeComplete = false)
    (events : List EpollEvent) (reply : Reply) :
    (s.progressTlsHandshake fd c events reply).ClientsFit := by
  have hempty := hidle.sendBuffer_of_incomplete hincomplete
  have hssl : c.ssl ≠ none := fun hnone => nomatch hincomplete.symm.trans (hidle.plain hnone).1
  have hall : s.AllIdle := by
    intro fd' c' hc'
    by_cases heq : fd' = fd
    · subst heq
      cases hc.symm.trans hc'
      exact hidle
    · exact h fd' c' heq hc'
  have hupdating : ∀ writable, c.Updating writable (.pollOnce false) := fun writable =>
    { hidle with
      room := hidle.room
      watched := fun hne => absurd hempty hne
      quiet := fun hplain => absurd hplain hssl }
  have hgoto : ∀ writable, ClientsFit
      { s with phase := .updateEvents fd writable .progressTlsHandshake events } := by
    refine fun writable => hall.goto fun fd' c' hfocus hc' => ?_
    cases hfocus
    cases hc.symm.trans hc'
    exact ⟨fun _ => hupdating writable, fun hff => absurd rfl hff⟩
  unfold ExchangeRuntime.progressTlsHandshake
  split
  · refine h.change hc rfl ⟨fun _ => ?_, fun hff => absurd rfl hff⟩
    exact
      { hupdating false with
        secured := nofun
        plain := fun hplain => absurd hplain hssl }
  · exact hgoto false
  · exact hgoto true
  · exact h.abandon events
  · exact hfit

theorem OthersIdle.called (h : s.OthersIdle fd) (serial : Nat)
    (block : Vector UInt8 EnterOrderSize) (response : Option AcceptedEncoder.Buffer)
    (handler : ExchangeOuchHandler) :
    OthersIdle { s.called serial block response with handler := handler } fd := h

theorem OthersIdle.handleBlock (h : s.OthersIdle fd) (hc : s.client fd = some c)
    (hidle : c.Idle) (hcomplete : c.tlsHandshakeComplete = true) {bytes : List UInt8}
    (hfull : c.connection.state.receivedBytes + bytes.length = EnterOrderSize)
    (hunread : bytes ++ c.connection.unread.drop bytes.length = c.connection.unread)
    (events : List EpollEvent) :
    (s.handleBlock fd { c with connection := c.connection.receive bytes }
      events).ClientsFit := by
  unfold ExchangeRuntime.handleBlock
  dsimp only
  split
  · -- the run is over
    exact fun hfault => nomatch hfault
  · next handler _ => exact ((h.called _ _ none handler).setClient _).abandon events
  · next response handler _ =>
      have hothers := h.called c.serial (c.connection.receive bytes).state.receiveBuffer
        (some response) handler
      unfold sendAll
      split
      · exact (hothers.setClient _).abandon events
      · next hempty =>
          have hempty : c.connection.state.sendBuffer = [] := not_not.mp hempty
          have hflushing := hidle.answer hcomplete hfull hunread hempty response
          rw [flushPendingWrite, if_pos (hflushing.unsent hflushing.busy)]
          exact OthersIdle.change hothers hc rfl
            ⟨fun _ => hflushing, fun hff => absurd rfl hff⟩

theorem OthersIdle.handleClientReadable (h : s.OthersIdle fd) (hc : s.client fd = some c)
    (hfit : s.ClientsFit) (hidle : c.Idle) (hcomplete : c.tlsHandshakeComplete = true)
    (hphase : s.phase = .receive fd events) (reply : Reply) :
    (s.handleClientReadable fd c events reply).ClientsFit := by
  have hall : s.AllIdle := by
    intro fd' c' hc'
    by_cases heq : fd' = fd
    · subst heq
      cases hc.symm.trans hc'
      exact hidle
    · exact h fd' c' heq hc'
  have hgoto : ∀ writable, c.Updating writable (.pollOnce false) → ClientsFit
      { s with phase := .updateEvents fd writable .handleClientReadable events } := by
    intro writable hupdating
    refine hall.goto fun fd' c' hfocus hc' => ?_
    cases hfocus
    cases hc.symm.trans hc'
    exact ⟨fun _ => hupdating, fun hff => absurd rfl hff⟩
  unfold ExchangeRuntime.handleClientReadable
  split
  · next more =>
      dsimp only
      split
      · exact hfit
      · have hunread := c.connection.delivered_append (more + 1)
        have hle := c.connection.delivered_length_le (more + 1)
        have hroom := hidle.room
        split
        · next hfull => exact h.handleBlock hc hidle hcomplete hfull hunread events
        · next hpart =>
            have hlt : c.connection.state.receivedBytes +
                (c.connection.delivered (more + 1)).length < EnterOrderSize := by
              refine Nat.lt_of_le_of_ne ?_ hpart
              omega
            have hnext := hidle.receive hcomplete hlt hunread
            have hfits : (Phase.receive fd events).Fits fd _ := ⟨hnext, fun _ => hcomplete⟩
            have hchange := h.change hc rfl hfits
            rw [← hphase] at hchange
            exact hchange
  · exact h.abandon events
  · exact h.abandon events
  · split
    · exact hall.unfocused rfl
    · exact hfit
  · split
    · exact hfit
    · next hssl =>
        exact hgoto _
          { hidle with
            room := hidle.room
            watched := fun hne => decide_eq_true hne
            quiet := fun hplain => absurd hplain hssl }
  · split
    · exact hfit
    · next hssl =>
        exact hgoto true
          { hidle with
            room := hidle.room
            watched := fun _ => rfl
            quiet := fun hplain => absurd hplain hssl }
  · exact hfit

theorem OthersIdle.afterSend {caller : FlushCaller} (h : s.OthersIdle fd)
    (hc : s.client fd = some c) (hfit : s.ClientsFit) (hflushing : c.Flushing caller)
    (events : List EpollEvent) (reply : Reply) :
    (s.afterSend fd c caller events reply).ClientsFit := by
  unfold ExchangeRuntime.afterSend
  split
  · next more =>
      unfold flushPendingWrite
      split
      · next hmore =>
          exact h.change hc rfl ⟨fun _ => hflushing.send hmore, fun hff => absurd rfl hff⟩
      · next hdone =>
          exact h.change hc rfl
            ⟨fun _ => ⟨hflushing.complete, hflushing.clear hdone⟩, fun hff => absurd rfl hff⟩
  · split
    · intro hfault fd' c' hc'
      refine ⟨fun heq => ?_, fun hne => h fd' c' (fun heq => hne heq.symm) hc'⟩
      subst heq
      cases hc.symm.trans hc'
      exact ⟨hflushing.complete, hflushing.wait⟩
    · exact hfit
  · split
    · exact hfit
    · next hssl =>
        exact h.change hc rfl
          ⟨fun _ => ⟨hflushing.complete, hflushing.offer hssl⟩, fun hff => absurd rfl hff⟩
  · split
    · exact hfit
    · next hssl =>
        exact h.change hc rfl
          ⟨fun _ => ⟨hflushing.complete, hflushing.offer hssl⟩, fun hff => absurd rfl hff⟩
  · exact h.abandon events
  · exact hfit

theorem OthersIdle.updateClientEvents {caller : UpdateCaller} {writable : Bool}
    (h : s.OthersIdle fd) (hc : s.client fd = some c) (hfit : s.ClientsFit)
    (hclient : (Phase.updateEvents fd writable caller events).Fits fd c) (reply : Reply) :
    (s.updateClientEvents fd c writable caller events reply).ClientsFit := by
  unfold ExchangeRuntime.updateClientEvents
  split
  · dsimp only
    split
    · obtain ⟨hcomplete, hupdating⟩ := hclient.1 rfl
      exact h.change hc rfl ⟨hupdating.restart hcomplete, fun _ => hcomplete⟩
    · obtain ⟨hcomplete, hupdating⟩ := hclient.1 rfl
      exact h.change hc rfl ⟨hupdating.idle, fun _ => hcomplete⟩
    · exact (h.allIdle hc (hclient.1 rfl).2.idle).unfocused rfl
    · exact (h.allIdle hc (hclient.1 rfl).idle).unfocused rfl
    · exact (h.allIdle hc (hclient.1 rfl).idle).unfocused rfl
  · exact h.abandon events
  · exact hfit

theorem AllIdle.start (h : s.AllIdle) {call : StartCall} (hphase : s.phase = .start call)
    (reply : Reply) : (s.start call reply).ClientsFit := by
  have hfit : s.ClientsFit := fun _ fd c hc =>
    Phase.fits_of_idle (by rw [hphase]; exact nofun) (h fd c hc)
  unfold ExchangeRuntime.start
  split
  · refine h.unfocused ?_
    cases call with
    | bind =>
        show (if s.port = 0 then Phase.start .getsockname else .start .listen).focus = none
        split <;> rfl
    | _ => rfl
  · next n =>
      have hcontext : (s.acquire (.context n)).AllIdle := h
      have hdescriptor : (s.acquire (.descriptor n)).AllIdle := h
      split
      · exact hcontext.unfocused rfl
      · exact hdescriptor.unfocused rfl
      · exact hdescriptor.unfocused rfl
      · exact hfit
  · split
    · exact h.unfocused rfl
    · exact hfit
  · split
    · exact fun _ _ _ hc => nomatch hc
    · exact clientsFit_exit s
  · exact hfit

theorem ClientsFit.step (h : s.ClientsFit) (reply : Reply) : (s.step reply).ClientsFit := by
  unfold ExchangeRuntime.step
  split
  · exact h
  · next hfault =>
      have hfault : s.fault = none := by simpa using hfault
      split
      · next call hphase =>
          exact (h.allIdle hfault (by rw [hphase]; rfl)).start hphase reply
      · next hphase =>
          split
          · exact (h.allIdle hfault (by rw [hphase]; rfl)).unfocused rfl
          · exact clientsFit_exit s
          · exact h
      · next events hphase =>
          exact (h.allIdle hfault (by rw [hphase]; rfl)).pollOnce events
      · next events hphase =>
          exact (h.allIdle hfault (by rw [hphase]; rfl)).acceptClients (by rw [hphase]; rfl)
            events reply
      · next fd events hphase =>
          split
          · exact h
          · next c hc =>
              have hclient := h hfault fd c hc
              rw [hphase] at hclient
              exact (h.othersIdle hfault (by rw [hphase]; rfl)).progressTlsHandshake hc h
                hclient.1 (hclient.2 rfl) events reply
      · next fd events hphase =>
          split
          · exact h
          · next c hc =>
              have hclient := h hfault fd c hc
              rw [hphase] at hclient
              exact (h.othersIdle hfault (by rw [hphase]; rfl)).handleClientReadable hc h
                hclient.1 (hclient.2 rfl) hphase reply
      · next fd caller events hphase =>
          split
          · exact h
          · next c hc =>
              have hclient := h hfault fd c hc
              rw [hphase] at hclient
              exact (h.othersIdle hfault (by rw [hphase]; rfl)).afterSend hc h (hclient.1 rfl)
                events reply
      · next fd writable caller events hphase =>
          split
          · exact h
          · next c hc =>
              have hclient := h hfault fd c hc
              rw [hphase] at hclient
              exact (h.othersIdle hfault (by rw [hphase]; rfl)).updateClientEvents hc h hclient
                reply
      · exact h

theorem ClientsFit.run (h : s.ClientsFit) (replies : List Reply) :
    (s.run replies).ClientsFit := by
  induction replies generalizing s with
  | nil => exact h
  | cons reply replies ih => exact ih (h.step reply)

theorem clientsFit_init (port : UInt16) (accountId : AccountId) (handler : ExchangeOuchHandler)
    (tls : Bool) : (init port accountId handler tls).ClientsFit := fun _ _ _ hc => nomatch hc

/-! ## Pending output -/

/-- One writable event, and a socket that takes all that is pending. -/
def resumption (fd more : Nat) : List Reply :=
  [.events [.client fd false true false], .done, .bytes more, .done]

/-- The server is at a point of the code, and a client in a state. -/
structure Stands (s : ExchangeRuntime) (phase : Phase) (fd : Nat) (c : Client) : Prop where
  fault : s.fault = none
  phase : s.phase = phase
  client : s.client fd = some c

namespace Stands

theorem change (h : Stands s phase fd c) (c' : Client) (phase' : Phase) :
    Stands { s.setClient fd c' with phase := phase' } phase' fd c' :=
  ⟨h.fault, rfl, client_setClient_self h.client c'⟩

theorem not_fault (h : Stands s phase fd c) : ¬ s.fault.isSome = true := by
  rw [h.fault]
  exact Bool.false_ne_true

theorem woken (h : Stands s .epollWait fd c) (events : List EpollEvent) :
    Stands (s.step (.events events)) (.poll events) fd c := by
  unfold step
  rw [if_neg h.not_fault, h.phase]
  exact ⟨h.fault, rfl, h.client⟩

theorem flush {readable : Bool} (h : Stands s (.poll (.client fd false true readable :: events))
    fd c) (hcomplete : c.tlsHandshakeComplete = true)
    (hne : c.connection.state.sendBuffer ≠ [])
    (hunsent : c.connection.state.sentBytes < c.connection.state.sendBuffer.length) :
    Stands (s.step .done) (.send fd (.pollOnce readable) events) fd c := by
  have hpoll : s.pollOnce (.client fd false true readable :: events) =
      s.flushPendingWrite fd c (.pollOnce readable) events := by
    simp [ExchangeRuntime.pollOnce, h.client, hcomplete, hne]
  unfold step
  rw [if_neg h.not_fault, h.phase]
  dsimp only
  rw [hpoll, flushPendingWrite, if_pos hunsent]
  exact h.change c _

theorem sent {caller : FlushCaller} {more : Nat} (h : Stands s (.send fd caller events) fd c)
    (hdone : ¬ (c.connection.send (c.connection.accepted (more + 1))).state.sentBytes <
      (c.connection.send (c.connection.accepted (more + 1))).state.sendBuffer.length) :
    Stands (s.step (.bytes more)) (.updateEvents fd false (.flushPendingWrite caller) events) fd
      { c with
        connection := { c.connection.send (c.connection.accepted (more + 1)) with
          state := { (c.connection.send (c.connection.accepted (more + 1))).state with
            sendBuffer := [], sentBytes := 0 } }
        offered := none } := by
  unfold step
  rw [if_neg h.not_fault, h.phase]
  dsimp only
  rw [h.client]
  dsimp only [afterSend]
  rw [flushPendingWrite, if_neg hdone]
  exact h.change _ _

theorem told {writable : Bool}
    (h : Stands s (.updateEvents fd writable (.flushPendingWrite (.pollOnce false)) events) fd c) :
    Stands (s.step .done) (.poll events) fd { c with watchesWrite := writable } := by
  unfold step
  rw [if_neg h.not_fault, h.phase]
  dsimp only
  rw [h.client]
  exact h.change _ _

end Stands

theorem AllIdle.resume (h : s.AllIdle) (hs : Stands s .epollWait fd c)
    (hne : c.connection.state.sendBuffer ≠ []) {more : Nat}
    (hmore : c.connection.pending.length ≤ more + 1) :
    ∃ c', (s.run (resumption fd more)).client fd = some c' ∧
      c'.connection.sent = c.connection.responseBytes ∧
      c'.connection.state.sendBuffer = [] ∧ c'.watchesWrite = false := by
  have hidle := h fd c hs.client
  have hcomplete : c.tlsHandshakeComplete = true := by
    cases hfalse : c.tlsHandshakeComplete with
    | true => rfl
    | false => exact absurd (hidle.sendBuffer_of_incomplete hfalse) hne
  obtain ⟨hall, hdone⟩ := (hidle.flushing hcomplete hne false).accepted_all hmore
  have hsend := (hs.woken [.client fd false true false]).flush hcomplete hne (hidle.unsent hne)
  refine ⟨_, (hsend.sent hdone).told.client, ?_, rfl, rfl⟩
  show c.connection.sent ++ c.connection.accepted (more + 1) = c.connection.responseBytes
  rw [hall, hidle.ok.output]

/-- While the server waits, `epoll` watches a client for `EPOLLOUT` whenever bytes are
pending for it, and a plaintext client only then; and when the event comes and the socket
takes what is pending, everything the client is to get has gone out. -/
theorem pending_output_resumes (port : UInt16) (accountId : AccountId)
    (handler : ExchangeOuchHandler) (tls : Bool) (replies : List Reply) (fd : Nat) (c : Client)
    (hfault : ((init port accountId handler tls).run replies).fault = none)
    (hwait : ((init port accountId handler tls).run replies).phase = .epollWait)
    (hc : ((init port accountId handler tls).run replies).client fd = some c) :
    (c.connection.pending ≠ [] → c.watchesWrite = true) ∧
      (c.ssl = none → (c.watchesWrite = true ↔ c.connection.pending ≠ [])) ∧
      ∀ more, c.connection.pending ≠ [] → c.connection.pending.length ≤ more + 1 →
        ∃ c', (((init port accountId handler tls).run replies).run
            (resumption fd more)).client fd = some c' ∧
          c'.connection.sent = c.connection.responseBytes ∧ c'.connection.pending = [] ∧
          c'.watchesWrite = false := by
  have hfit := (clientsFit_init port accountId handler tls).run replies
  have hall := hfit.allIdle hfault (by rw [hwait]; rfl)
  have hidle := hall fd c hc
  have hpending : c.connection.pending ≠ [] ↔ c.connection.state.sendBuffer ≠ [] := by
    refine not_congr ⟨fun hnil => ?_, fun hnil => by rw [Connection.pending, hnil, List.drop_nil]⟩
    by_contra hne
    have hlt := hidle.unsent hne
    rw [Connection.pending, List.drop_eq_nil_iff] at hnil
    omega
  rw [hpending]
  refine ⟨hidle.watched, fun hplain => ⟨hidle.quiet hplain, hidle.watched⟩, ?_⟩
  intro more hne hmore
  obtain ⟨c', hc', hsent, hempty, hwatches⟩ := hall.resume ⟨hfault, hwait, hc⟩ hne hmore
  refine ⟨c', hc', hsent, ?_, hwatches⟩
  rw [Connection.pending, hempty, List.drop_nil]

/-- The calls of `start` succeed, those of `initializeTls` included. -/
def tlsStart : List Reply :=
  [.handle 900, .done, .done, .done, .handle 3, .done, .done, .done, .handle 4, .done]

/-- A client sends an order, and the socket takes a part of the response. -/
def halfAnswered : List Reply :=
  tlsStart ++ [.events [.listen], .done, .connection 5 (.ready 901) ExchangeTcpServer.buyTen,
    .again, .done, .events [.client 5 false false true], .done, .done, .done, .done,
    .events [.client 5 false false true], .done, .bytes 46, .bytes 19, .wantWrite, .done,
    .wantRead, .done, .done]

theorem pending_output_resumes_half_answered :
    ∃ c c', ((init 8080 1001 (.init UInt64.toNat) true).run halfAnswered).client 5 = some c ∧
      c.connection.pending.length = 44 ∧ c.watchesWrite = true ∧
      (((init 8080 1001 (.init UInt64.toNat) true).run halfAnswered).run
        (resumption 5 43)).client 5 = some c' ∧
      c'.connection.sent = c.connection.responseBytes := by
  have hsome : (((init 8080 1001 (.init UInt64.toNat) true).run halfAnswered).client 5).any
      (fun c => c.connection.pending.length = 44) = true := by decide +kernel
  cases hc : ((init 8080 1001 (.init UInt64.toNat) true).run halfAnswered).client 5 with
  | none =>
      rw [hc] at hsome
      cases hsome
  | some c =>
      rw [hc] at hsome
      have hlength : c.connection.pending.length = 44 := of_decide_eq_true hsome
      have hne : c.connection.pending ≠ [] := List.ne_nil_of_length_pos (by omega)
      obtain ⟨hwatched, -, hresumes⟩ := pending_output_resumes 8080 1001 (.init UInt64.toNat)
        true halfAnswered 5 c (Option.isNone_iff_eq_none.mp (by decide +kernel))
        (by decide +kernel) hc
      obtain ⟨c', hc', hsent, -⟩ := hresumes 43 hne (by omega)
      exact ⟨c, c', rfl, hlength, hwatched hne, hc', hsent⟩

end ExchangeRuntime

end OpenHft
