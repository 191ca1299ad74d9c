import OpenHft.Proofs.RuntimeLinear

/-!
# TLS at the exchange

A server with a certificate and a key has no plaintext clients: every client there has been
had a session, and nothing was exchanged on it before its handshake was complete. OpenSSL
asks of its callers that an `SSL_write` that could not be done is repeated with the same
bytes; the server does so, because it takes no new response while one is pending.
-/

namespace OpenHft

open OpenHft.Lib

namespace ExchangeRuntime

variable {s s' : ExchangeRuntime} {fd : Nat} {c c' : Client} {reply : Reply} {tls : Bool}

/-- The context is there as long as the server is, and all clients are of one kind. -/
structure OneKind (tls : Bool) (s : ExchangeRuntime) : Prop where
  context : s.phase.stage ≠ 0 → s.phase.stage ≠ 4 → s.sslContext.isSome = tls
  asked : s.phase.stage = 0 → tls = true
  clients : ∀ c ∈ s.everyClient, c.ssl.isSome = tls

theorem oneKind_init (port : UInt16) (accountId : AccountId) (handler : ExchangeOuchHandler)
    (tls : Bool) : OneKind tls (init port accountId handler tls) := by
  refine ⟨?_, ?_, nofun⟩
  · intro hstage _
    cases tls with
    | false => rfl
    | true => exact absurd rfl hstage
  · intro hstage
    cases tls with
    | false => cases hstage
    | true => rfl

theorem OneKind.goto (h : OneKind tls s) {phase : Phase} (hstage : phase.stage = s.phase.stage) :
    OneKind tls { s with phase := phase } where
  context := fun hne hne' => h.context (hstage ▸ hne) (hstage ▸ hne')
  asked := fun h0 => h.asked (hstage.symm.trans h0)
  clients := h.clients

theorem OneKind.running (h : OneKind tls s) (hstage : s.phase.stage = 3) :
    s.sslContext.isSome = tls :=
  h.context (hstage ▸ by decide) (hstage ▸ by decide)

theorem OneKind.called (h : OneKind tls s) (serial : Nat) (block : Vector UInt8 EnterOrderSize)
    (response : Option AcceptedEncoder.Buffer) (handler : ExchangeOuchHandler) :
    OneKind tls { s.called serial block response with handler := handler } :=
  ⟨h.context, h.asked, h.clients⟩

theorem OneKind.setClient (h : OneKind tls s) (hb : s.Balanced) (hc : s.client fd = some c)
    (hssl : c'.ssl = c.ssl) : OneKind tls (s.setClient fd c') := by
  obtain ⟨rest, hold, hnew⟩ := hb.everyClient_split hc c'
  refine ⟨h.context, h.asked, fun x hx => ?_⟩
  rcases List.mem_cons.mp (hnew.mem_iff.mp hx) with rfl | hx
  · rw [hssl]
    exact h.clients c (hold.mem_iff.mpr List.mem_cons_self)
  · exact h.clients x (hold.mem_iff.mpr (List.mem_cons_of_mem c hx))

theorem OneKind.abandon {events : List EpollEvent} (h : OneKind tls s) (hb : s.Balanced)
    (hpending : s.phase.pending = fd :: events.filterMap EpollEvent.fd?) :
    OneKind tls (s.abandon fd events) := by
  obtain ⟨c, hc⟩ := Option.ne_none_iff_exists'.mp
    (hb.known fd (hpending ▸ List.mem_cons_self))
  have hrunning : s.phase.stage = 3 := by
    cases hphase : s.phase with
    | start | epollWait | exited =>
        rw [hphase] at hpending
        cases hpending
    | _ => rfl
  refine ⟨fun _ _ => ?_, nofun, fun x hx => ?_⟩
  · show (s.closeClient fd).sslContext.isSome = tls
    rw [(closeClient_frame s fd).2.1]
    exact h.running hrunning
  · exact h.clients x ((everyClient_closeClient hb hc).mem_iff.mpr hx)

theorem OneKind.exit (h : OneKind tls s) : OneKind tls s.exit := by
  refine ⟨fun _ hne => absurd rfl hne, nofun, fun x hx => h.clients x ?_⟩
  exact ((everyClient_stop s).trans (everyClient_stop s.stop)).mem_iff.mpr hx

/-- A client of the right kind comes in. -/
theorem OneKind.enter (h : OneKind tls s) {log : List (Use Handle)} (hnone : s.client fd = none)
    (hssl : c.ssl.isSome = tls) :
    OneKind tls (({ s with log := log } : ExchangeRuntime).emplace fd c) := by
  have hnone' : ({ s with log := log } : ExchangeRuntime).client fd = none := hnone
  have hperm := everyClient_emplace hnone' c
  unfold emplace at hperm ⊢
  rw [hnone'] at hperm ⊢
  refine ⟨h.context, h.asked, fun x hx => ?_⟩
  rcases List.mem_cons.mp (hperm.mem_iff.mp hx) with rfl | hx
  · exact hssl
  · exact h.clients x hx

theorem OneKind.move (h : OneKind tls s) (hb : s.Balanced) (hsane : s.Sane reply)
    (hm : Move s reply s') : OneKind tls s' := by
  cases hm with
  | stay => exact h
  | goto hleads => exact h.goto hleads.stage
  | woken hphase => exact h.goto (by rw [hphase]; rfl)
  | change hc hsame hleads => exact (h.setClient hb hc hsame.ssl).goto hleads.stage
  | abandon hpending => exact h.abandon hb hpending
  | answered hc hcall hcalled hleads =>
      exact ((h.called _ _ _ _).setClient (hb.called _ _ _ _) hc hcalled.ssl).goto hleads.stage
  | @refused fd c c' events block response handler hc hcall hcalled hinput hsent hcomplete
      hphase =>
      refine ((h.called _ _ _ _).setClient (hb.called _ _ _ _) hc hcalled.ssl).abandon
        ((hb.called _ _ _ _).setClient hc hcalled.ssl) ?_
      show s.phase.pending = fd :: events.filterMap EpollEvent.fd?
      rw [hphase]
      rfl
  | @faulted fd c c' events block fault hc hcall hcalled hinput hphase =>
      have hset := (h.called c.serial block none s.handler).setClient (hb.called _ _ _ _) hc
        hcalled.ssl
      exact ⟨hset.context, hset.asked, hset.clients⟩
  | @enterPlain fd setup stream events hphase hreply hcontext =>
      subst hreply
      have hfresh : s.Fresh (.descriptor fd) := by
        simp only [Sane, hphase] at hsane
        exact hsane.1
      have htls := h.running (by rw [hphase]; rfl)
      rw [hcontext] at htls
      exact h.enter (client_none_of_not_owned (hb.fresh_iff.mp hfresh)) htls
  | @enterTls fd ssl context stream events hphase hreply hcontext =>
      subst hreply
      have hfresh : s.Fresh (.descriptor fd) := by
        simp only [Sane, hphase] at hsane
        exact hsane.1
      have htls := h.running (by rw [hphase]; rfl)
      rw [hcontext] at htls
      exact h.enter (client_none_of_not_owned (hb.fresh_iff.mp hfresh)) htls
  | turnedAway => exact OneKind.exit ⟨h.context, h.asked, h.clients⟩
  | notAttached => exact OneKind.exit ⟨h.context, h.asked, h.clients⟩
  | context hphase =>
      have htls := h.asked (by rw [hphase]; rfl)
      have hstage : (Phase.start .useCertificateFile).stage ≠ 0 := by decide
      exact ⟨fun _ _ => htls.symm, fun h0 => absurd h0 hstage, h.clients⟩
  | socket hphase =>
      have hstage : (Phase.start .setNonBlocking).stage ≠ 0 := by decide
      refine ⟨fun _ _ => ?_, fun h0 => absurd h0 hstage, h.clients⟩
      exact h.context (by rw [hphase]; decide) (by rw [hphase]; decide)
  | epoll hphase =>
      have hstage : (Phase.start .epollAdd).stage ≠ 0 := by decide
      refine ⟨fun _ _ => ?_, fun h0 => absurd h0 hstage, h.clients⟩
      exact h.context (by rw [hphase]; decide) (by rw [hphase]; decide)
  | bound hphase =>
      have hstage : (Phase.start .listen).stage = s.phase.stage := by
        rw [hphase]
        rfl
      have hgoto := h.goto hstage
      exact ⟨hgoto.context, hgoto.asked, hgoto.clients⟩
  | destroyed =>
      have hstage : Phase.exited.stage ≠ 0 := by decide
      refine ⟨fun _ hne => absurd rfl hne, fun h0 => absurd h0 hstage, fun x hx => h.clients x ?_⟩
      exact (everyClient_stop s).mem_iff.mpr hx
  | exit => exact h.exit

theorem oneKind_run (port : UInt16) (accountId : AccountId) (handler : ExchangeOuchHandler)
    (tls : Bool) {replies : List Reply}
    (hsane : Meets step Sane (init port accountId handler tls) replies) :
    OneKind tls ((init port accountId handler tls).run replies) :=
  (hsane.invariant (fun s => Balanced s ∧ OneKind tls s)
    (fun s reply hs hok => ⟨hs.1.move hok (s.step_move reply),
      hs.2.move hs.1 hok (s.step_move reply)⟩)
    ⟨balanced_init port accountId handler tls, oneKind_init port accountId handler tls⟩).2

/-- In every run: all clients there have been are TLS clients, or none is, as the server was
configured; before its handshake nothing was taken from a client, handled for it or sent to
it; and where the server writes to one, an `SSL_write` that is to be repeated gets the bytes
it had the last time. -/
theorem tls_discipline (port : UInt16) (accountId : AccountId) (handler : ExchangeOuchHandler)
    (tls : Bool) (replies : List Reply)
    (hsane : Meets step Sane (init port accountId handler tls) replies)
    (hfault : ((init port accountId handler tls).run replies).fault = none) :
    let s := (init port accountId handler tls).run replies
    (∀ c ∈ s.everyClient, c.ssl.isSome = tls ∧
      (c.tlsHandshakeComplete = false → c.connection.unread = c.connection.stream ∧
        c.connection.handled = [] ∧ c.connection.sent = [])) ∧
      ∀ fd caller events c, s.phase = .send fd caller events → s.client fd = some c →
        c.tlsHandshakeComplete = true ∧
          ∀ bytes, c.offered = some bytes → c.connection.pending = bytes := by
  have hserved := served_run port accountId handler tls hsane
  have hkind := oneKind_run port accountId handler tls hsane
  refine ⟨fun c hc => ⟨hkind.clients c hc, fun hincomplete => ?_⟩, ?_⟩
  · have hinit := (hserved.everyClient_kept hfault c hc).secured hincomplete
    rw [hinit]
    exact ⟨rfl, rfl, rfl⟩
  · intro fd caller events c hphase hc
    have hclient := hserved.fits hfault fd c hc
    rw [hphase] at hclient
    have hflushing := hclient.1 rfl
    exact ⟨hflushing.complete, fun bytes hbytes => (hflushing.repeated bytes hbytes).1⟩

/-- A second client is accepted while the response to the first has to be offered again. -/
def offeredAgain : List Reply :=
  tlsStart ++ [.events [.listen], .done, .connection 5 (.ready 901) ExchangeTcpServer.buyTen,
    .again, .done, .events [.client 5 false false true], .done, .done, .done, .done,
    .events [.client 5 false false true], .done, .bytes 46, .wantWrite, .done, .wantRead, .done,
    .done, .events [.listen, .client 5 false true false], .done,
    .connection 6 (.ready 902) ExchangeTcpServer.buyTen, .again, .done]

theorem tls_discipline_offered_again :
    let s := (init 8080 1001 (.init UInt64.toNat) true).run offeredAgain
    s.phase = .send 5 (.pollOnce false) [] ∧
      (∀ c ∈ s.everyClient, c.ssl.isSome = true) ∧
      ∀ c, s.client 5 = some c → ∀ bytes, c.offered = some bytes →
        c.connection.pending = bytes := by
  have hphase : ((init 8080 1001 (.init UInt64.toNat) true).run offeredAgain).phase =
    .send 5 (.pollOnce false) [] := by decide +kernel
  have h := tls_discipline 8080 1001 (.init UInt64.toNat) true offeredAgain (by decide +kernel)
    (Option.isNone_iff_eq_none.mp (by decide +kernel))
  exact ⟨hphase, fun c hc => (h.1 c hc).1, fun c hc => (h.2 5 _ [] c hphase hc).2⟩

end ExchangeRuntime

end OpenHft
