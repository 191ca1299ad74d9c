import OpenHft.Proofs.RuntimeResources
import OpenHft.Proofs.ServerCalls

/-!
# One sequence of orders behind all connections

The clients of the exchange are served in an order that the network decides. The process is
one thread, so that there is one sequence of calls of `handleEnterOrder`, and what a client
sees is its part of it: the blocks of its stream in their order, and the responses to them.
`exchange_linearizes` says this of every run, for the clients that are connected and for
those that are gone. A descriptor is used again for a later client, so that clients are told
apart by their serial.
-/

namespace OpenHft

open OpenHft.Lib

namespace ExchangeOuchHandler

variable {h h' : ExchangeOuchHandler} {accountId : AccountId}
  {blocks : List (Vector UInt8 EnterOrderSize)} {block : Vector UInt8 EnterOrderSize}
  {responses : List (Option AcceptedEncoder.Buffer)}

theorem handleAll_append_error (hall : h.handleAll accountId blocks = .ok (responses, h'))
    {fault : Fault}
    (hcall : h'.handleEnterOrder accountId (.ofList block.toList) EnterOrderSize =
      .error fault) :
    h.handleAll accountId (blocks ++ [block]) = .error fault := by
  induction blocks generalizing h responses with
  | nil =>
      cases hall
      simp only [List.nil_append, handleAll, hcall]
      rfl
  | cons b blocks ih =>
      simp only [handleAll, bind_eq_ok] at hall
      obtain ⟨⟨response₁, h₁⟩, hfirst, ⟨responses₁, h₂⟩, hrest, heq⟩ := hall
      cases heq
      simp only [List.cons_append, handleAll, hfirst]
      show (h₁.handleAll accountId (blocks ++ [block]) >>= _) = _
      rw [ih hrest]
      rfl

end ExchangeOuchHandler

/-! ## Calls and clients -/

/-- The calls made for a client. -/
def Client.callsIn (c : Client) (calls : List HandlerCall) : List HandlerCall :=
  calls.filter fun call => call.serial = c.serial

/-- Every call was made for one of the clients, and each client has seen its own. -/
structure Attributed (clients : List Client) (calls : List HandlerCall) (accepted : Nat) :
    Prop where
  handled : ∀ c ∈ clients, c.connection.handled = (c.callsIn calls).map HandlerCall.block
  responses : ∀ c ∈ clients,
    c.connection.responses = (c.callsIn calls).filterMap HandlerCall.response
  serials : (clients.map Client.serial).Nodup
  below : ∀ c ∈ clients, c.serial < accepted
  made : ∀ call ∈ calls, ∃ c ∈ clients, c.serial = call.serial

namespace Attributed

variable {clients clients' : List Client} {calls : List HandlerCall} {accepted : Nat}
  {c c' : Client}

theorem empty : Attributed [] [] 0 :=
  ⟨nofun, nofun, List.nodup_nil, nofun, nofun⟩

theorem perm (h : Attributed clients calls accepted) (hp : clients.Perm clients') :
    Attributed clients' calls accepted where
  handled := fun c hc => h.handled c (hp.mem_iff.mpr hc)
  responses := fun c hc => h.responses c (hp.mem_iff.mpr hc)
  serials := (hp.map Client.serial).nodup_iff.mp h.serials
  below := fun c hc => h.below c (hp.mem_iff.mpr hc)
  made := fun call hcall =>
    (h.made call hcall).imp fun _ => And.imp_left hp.mem_iff.mp

theorem callsIn_of_serial (hserial : c'.serial = c.serial) :
    c'.callsIn calls = c.callsIn calls := by
  rw [Client.callsIn, hserial]
  rfl

/-- A client whose messages stay what they were. -/
theorem change (h : Attributed (c :: clients) calls accepted) (hsame : c.Same c') :
    Attributed (c' :: clients) calls accepted where
  handled := by
    refine List.forall_mem_cons.mpr
      ⟨?_, fun x hx => h.handled x (List.mem_cons_of_mem c hx)⟩
    rw [hsame.handled, callsIn_of_serial hsame.serial]
    exact h.handled c List.mem_cons_self
  responses := by
    refine List.forall_mem_cons.mpr
      ⟨?_, fun x hx => h.responses x (List.mem_cons_of_mem c hx)⟩
    rw [hsame.responses, callsIn_of_serial hsame.serial]
    exact h.responses c List.mem_cons_self
  serials := by
    rw [List.map_cons, hsame.serial]
    exact h.serials
  below := by
    refine List.forall_mem_cons.mpr ⟨?_, fun x hx => h.below x (List.mem_cons_of_mem c hx)⟩
    rw [hsame.serial]
    exact h.below c List.mem_cons_self
  made := by
    intro call hcall
    obtain ⟨x, hx, heq⟩ := h.made call hcall
    rcases List.mem_cons.mp hx with rfl | hx
    · exact ⟨c', List.mem_cons_self, hsame.serial.trans heq⟩
    · exact ⟨x, List.mem_cons_of_mem c' hx, heq⟩

/-- A call is made for a client. -/
theorem call (h : Attributed (c :: clients) calls accepted)
    {block : Vector UInt8 EnterOrderSize} {response : Option AcceptedEncoder.Buffer}
    (hcalled : c.Called block response c') :
    Attributed (c' :: clients) (calls ++ [⟨c.serial, block, response⟩]) accepted := by
  obtain ⟨hnot, hnodup⟩ := List.nodup_cons.mp h.serials
  have hself : c'.callsIn (calls ++ [⟨c.serial, block, response⟩]) =
      c.callsIn calls ++ [⟨c.serial, block, response⟩] := by
    rw [callsIn_of_serial hcalled.serial, Client.callsIn, List.filter_append]
    simp [Client.callsIn]
  have hother : ∀ x ∈ clients, x.callsIn (calls ++ [⟨c.serial, block, response⟩]) =
      x.callsIn calls := by
    intro x hx
    have hne : c.serial ≠ x.serial := fun heq => hnot (heq ▸ List.mem_map_of_mem hx)
    rw [Client.callsIn, List.filter_append]
    simp [Client.callsIn, hne]
  exact
    { handled := by
        refine List.forall_mem_cons.mpr ⟨?_, fun x hx => ?_⟩
        · rw [hcalled.handled, hself, List.map_append, h.handled c List.mem_cons_self]
          rfl
        · rw [hother x hx]
          exact h.handled x (List.mem_cons_of_mem c hx)
      responses := by
        refine List.forall_mem_cons.mpr ⟨?_, fun x hx => ?_⟩
        · rw [hcalled.responses, hself, List.filterMap_append, h.responses c List.mem_cons_self]
          cases response <;> rfl
        · rw [hother x hx]
          exact h.responses x (List.mem_cons_of_mem c hx)
      serials := by
        rw [List.map_cons, hcalled.serial]
        exact h.serials
      below := by
        refine List.forall_mem_cons.mpr
          ⟨?_, fun x hx => h.below x (List.mem_cons_of_mem c hx)⟩
        rw [hcalled.serial]
        exact h.below c List.mem_cons_self
      made := by
        intro call hcall
        rcases List.mem_append.mp hcall with hcall | hcall
        · obtain ⟨x, hx, heq⟩ := h.made call hcall
          rcases List.mem_cons.mp hx with rfl | hx
          · exact ⟨c', List.mem_cons_self, hcalled.serial.trans heq⟩
          · exact ⟨x, List.mem_cons_of_mem c' hx, heq⟩
        · rw [List.mem_singleton.mp hcall]
          exact ⟨c', List.mem_cons_self, hcalled.serial⟩ }

/-- A new client, for which no call has been made. -/
theorem enter (h : Attributed clients calls accepted) (hserial : c.serial = accepted)
    (hhandled : c.connection.handled = []) (hresponses : c.connection.responses = []) :
    Attributed (c :: clients) calls (accepted + 1) := by
  have hnone : c.callsIn calls = [] := by
    refine List.filter_eq_nil_iff.mpr fun call hcall heq => ?_
    obtain ⟨x, hx, hx'⟩ := h.made call hcall
    have hlt := h.below x hx
    have heq : call.serial = c.serial := of_decide_eq_true heq
    omega
  exact
    { handled := List.forall_mem_cons.mpr
        ⟨by rw [hhandled, hnone]; rfl, h.handled⟩
      responses := List.forall_mem_cons.mpr
        ⟨by rw [hresponses, hnone]; rfl, h.responses⟩
      serials := by
        refine List.nodup_cons.mpr ⟨fun hmem => ?_, h.serials⟩
        obtain ⟨x, hx, heq⟩ := List.mem_map.mp hmem
        have hlt := h.below x hx
        omega
      below := List.forall_mem_cons.mpr
        ⟨by omega, fun x hx => Nat.lt_succ_of_lt (h.below x hx)⟩
      made := fun call hcall =>
        (h.made call hcall).imp fun x => And.imp_left (List.mem_cons_of_mem c) }

end Attributed

namespace ExchangeRuntime

/-- The clients there have been. -/
def everyClient (s : ExchangeRuntime) : List Client := s.clients.map Prod.snd ++ s.closed

variable {s s' : ExchangeRuntime} {fd : Nat} {c c' : Client} {events : List EpollEvent}
  {phase : Phase} {reply : Reply}

/-- A client and the others; another state of it. -/
theorem Balanced.everyClient_split (hb : s.Balanced) (hc : s.client fd = some c)
    (c' : Client) :
    ∃ rest, s.everyClient.Perm (c :: rest) ∧ (s.setClient fd c').everyClient.Perm (c' :: rest) := by
  have hmem := hb.mem_clients hc
  have hset : (s.setClient fd c').client fd = some c' := client_setClient_self hc c'
  have hdistinct := setClient_distinct hb.distinct fd c'
  have hmem' : (fd, c') ∈ (s.setClient fd c').clients := by
    obtain ⟨⟨fd', x⟩, hentry, heq⟩ := Option.map_eq_some_iff.mp hset
    cases heq
    obtain ⟨hx, hkey⟩ := (lookup_eq_some_iff hdistinct).mp hentry
    cases hkey
    exact hx
  have hdrop : dropKey Prod.fst fd (s.setClient fd c').clients = dropKey Prod.fst fd s.clients := by
    show dropKey Prod.fst fd (alterKey Prod.fst fd (fun _ => (fd, c')) s.clients) = _
    exact dropKey_alterKey fun _ _ => rfl
  have hold := (hb.distinct.perm_cons_dropKey hmem).map Prod.snd
  have hnew := (hdistinct.perm_cons_dropKey hmem').map Prod.snd
  refine ⟨(dropKey Prod.fst fd s.clients).map Prod.snd ++ s.closed, ?_, ?_⟩
  · exact hold.append_right s.closed
  · have hnew' := hnew.append_right s.closed
    rw [show dropKey Prod.fst (Prod.fst (fd, c')) (s.setClient fd c').clients = _ from hdrop]
      at hnew'
    exact hnew'

/-- Closing a client only moves it. -/
theorem everyClient_closeClient (hb : s.Balanced) (hc : s.client fd = some c) :
    s.everyClient.Perm (s.closeClient fd).everyClient := by
  have hsplit := (hb.distinct.perm_cons_dropKey (hb.mem_clients hc)).map Prod.snd
  have hclosed : (s.closeClient fd).everyClient =
      (dropKey Prod.fst fd s.clients).map Prod.snd ++ (s.closed ++ [c]) := by
    unfold closeClient
    rw [hc]
    rfl
  rw [hclosed, ← List.append_assoc]
  refine (hsplit.append_right s.closed).trans ?_
  exact (List.perm_append_singleton c _).symm

theorem everyClient_stop (s : ExchangeRuntime) : s.everyClient.Perm s.stop.everyClient :=
  List.perm_append_comm

theorem everyClient_emplace (hnone : s.client fd = none) (c : Client) :
    (s.emplace fd c).everyClient.Perm (c :: s.everyClient) := by
  have hemplace : (s.emplace fd c).everyClient =
      (s.clients ++ [(fd, c)]).map Prod.snd ++ s.closed := by
    unfold emplace
    rw [hnone]
    rfl
  rw [hemplace, List.map_append, List.append_assoc]
  exact List.perm_middle

/-! ## The sequence of calls -/

/-- The calls so far, made one after the other on the handler at the start, have led to the
handler there is. -/
structure Linear (accountId : AccountId) (handler : ExchangeOuchHandler)
    (s : ExchangeRuntime) : Prop where
  account : s.accountId = accountId
  replay : s.fault = none →
    handler.handleAll accountId (s.calls.map HandlerCall.block) =
      .ok (s.calls.map HandlerCall.response, s.handler)
  faulted : ∀ fault, s.fault = some fault →
    handler.handleAll accountId (s.calls.map HandlerCall.block) = .error fault
  attributed : Attributed s.everyClient s.calls s.accepted

theorem linear_init (port : UInt16) (accountId : AccountId) (handler : ExchangeOuchHandler)
    (tls : Bool) : Linear accountId handler (init port accountId handler tls) where
  account := rfl
  replay := fun _ => rfl
  faulted := nofun
  attributed := .empty

variable {accountId : AccountId} {handler : ExchangeOuchHandler}

/-- A step that makes no call. -/
theorem Linear.silent (h : Linear accountId handler s) (haccount : s'.accountId = s.accountId)
    (hhandler : s'.handler = s.handler) (hcalls : s'.calls = s.calls)
    (hfault : s'.fault = s.fault) (hattributed : Attributed s'.everyClient s.calls s'.accepted) :
    Linear accountId handler s' where
  account := haccount.trans h.account
  replay := by
    rw [hfault, hcalls, hhandler]
    exact h.replay
  faulted := by
    rw [hfault, hcalls]
    exact h.faulted
  attributed := hcalls ▸ hattributed

theorem Linear.abandon (h : Linear accountId handler s) (hb : s.Balanced)
    (hpending : s.phase.pending = fd :: events.filterMap EpollEvent.fd?) :
    Linear accountId handler (s.abandon fd events) := by
  obtain ⟨c, hc⟩ := Option.ne_none_iff_exists'.mp
    (hb.known fd (hpending ▸ List.mem_cons_self))
  have hperm : s.everyClient.Perm (s.abandon fd events).everyClient :=
    everyClient_closeClient hb hc
  have hattributed := h.attributed.perm hperm
  unfold ExchangeRuntime.abandon closeClient at hattributed ⊢
  rw [hc] at hattributed ⊢
  exact h.silent rfl rfl rfl rfl hattributed

theorem Linear.stop (h : Linear accountId handler s) : Linear accountId handler s.stop :=
  h.silent rfl rfl rfl rfl (h.attributed.perm (everyClient_stop s))

theorem Linear.exit (h : Linear accountId handler s) : Linear accountId handler s.exit :=
  h.stop.stop.silent rfl rfl rfl rfl h.stop.stop.attributed

/-- Another point, other handles. -/
theorem Linear.logged (h : Linear accountId handler s) (log : List (Use Handle)) :
    Linear accountId handler { s with log := log } :=
  h.silent rfl rfl rfl rfl h.attributed

/-- A call for a client, with its response. -/
theorem Linear.call (h : Linear accountId handler s) (hb : s.Balanced) (hfault : s.fault = none)
    (hc : s.client fd = some c) {block : Vector UInt8 EnterOrderSize}
    {response : Option AcceptedEncoder.Buffer} {next : ExchangeOuchHandler}
    (hcall : s.handler.handleEnterOrder s.accountId (.ofList block.toList) EnterOrderSize =
      .ok (response, next)) (hcalled : c.Called block response c') :
    Linear accountId handler
      ({ s.called c.serial block response with handler := next }.setClient fd c') := by
  obtain ⟨rest, hold, hnew⟩ := hb.everyClient_split hc c'
  refine ⟨h.account, fun _ => ?_, fun _ hsome => (nomatch hfault.symm.trans hsome), ?_⟩
  · show handler.handleAll accountId ((s.calls ++ [_]).map _) =
      .ok ((s.calls ++ [_]).map _, next)
    rw [List.map_append, List.map_append]
    rw [h.account] at hcall
    exact ExchangeOuchHandler.handleAll_append (h.replay hfault)
      (ExchangeOuchHandler.handleAll_singleton hcall)
  · exact ((h.attributed.perm hold).call hcalled).perm hnew.symm

theorem Linear.move (h : Linear accountId handler s) (hb : s.Balanced) (hfault : s.fault = none)
    (hsane : s.Sane reply) (hm : Move s reply s') : Linear accountId handler s' := by
  cases hm with
  | stay => exact h
  | goto => exact h.silent rfl rfl rfl rfl h.attributed
  | woken => exact h.silent rfl rfl rfl rfl h.attributed
  | change hc hsame =>
      obtain ⟨rest, hold, hnew⟩ := hb.everyClient_split hc _
      exact h.silent rfl rfl rfl rfl (((h.attributed.perm hold).change hsame).perm hnew.symm)
  | abandon hpending => exact h.abandon hb hpending
  | answered hc hcall hcalled =>
      have hnext := h.call hb hfault hc hcall hcalled
      exact hnext.silent rfl rfl rfl rfl hnext.attributed
  | @refused fd c c' events block response handler hc hcall hcalled hinput hsent hcomplete
      hphase =>
      refine (h.call hb hfault hc hcall hcalled).abandon
        ((hb.called _ _ _ _).setClient hc hcalled.ssl) ?_
      show s.phase.pending = fd :: events.filterMap EpollEvent.fd?
      rw [hphase]
      rfl
  | @faulted fd c c' events block fault hc hcall hcalled hinput hphase =>
      obtain ⟨rest, hold, hnew⟩ := hb.everyClient_split hc c'
      refine ⟨h.account, nofun, fun fault' hfault' => ?_, ?_⟩
      · cases hfault'
        show handler.handleAll accountId ((s.calls ++ [_]).map _) = _
        rw [List.map_append]
        rw [h.account] at hcall
        exact ExchangeOuchHandler.handleAll_append_error (h.replay hfault) hcall
      · exact ((h.attributed.perm hold).call hcalled).perm hnew.symm
  | @enterPlain fd setup stream events hphase hreply hcontext =>
      subst hreply
      simp only [Sane, hphase] at hsane
      have hnone : (s.acquire (.descriptor fd)).client fd = none :=
        client_none_of_not_owned (hb.fresh_iff.mp hsane.1)
      have hperm := everyClient_emplace hnone (s.newClient none stream)
      have hnew := (h.attributed.enter (c := s.newClient none stream) rfl rfl rfl).perm hperm.symm
      unfold emplace at hnew ⊢
      rw [hnone] at hnew ⊢
      exact h.silent rfl rfl rfl rfl hnew
  | @enterTls fd ssl context stream events hphase hreply hcontext =>
      subst hreply
      simp only [Sane, hphase] at hsane
      have hnone : ((s.acquire (.descriptor fd)).acquire (.session ssl)).client fd = none :=
        client_none_of_not_owned (hb.fresh_iff.mp hsane.1)
      have hperm := everyClient_emplace hnone (s.newClient (some ssl) stream)
      have hnew :=
        (h.attributed.enter (c := s.newClient (some ssl) stream) rfl rfl rfl).perm hperm.symm
      unfold emplace at hnew ⊢
      rw [hnone] at hnew ⊢
      exact h.silent rfl rfl rfl rfl hnew
  | turnedAway => exact (h.logged _).exit
  | notAttached => exact (h.logged _).exit
  | context => exact h.silent rfl rfl rfl rfl h.attributed
  | socket => exact h.silent rfl rfl rfl rfl h.attributed
  | epoll => exact h.silent rfl rfl rfl rfl h.attributed
  | bound => exact h.silent rfl rfl rfl rfl h.attributed
  | destroyed => exact h.stop.silent rfl rfl rfl rfl h.stop.attributed
  | exit => exact h.exit

/-! ## Streams -/

end ExchangeRuntime

/-- The blocks handled are the front of what the client sent, what it was sent is the front
of the responses, and before the handshake there is neither. -/
structure Client.Kept (c : Client) : Prop where
  input : c.connection.handledBytes <+: c.connection.stream
  output : c.connection.sent <+: c.connection.responseBytes
  secured : c.tlsHandshakeComplete = false → c.connection = .init c.connection.stream

theorem Client.Sound.kept {c : Client} (h : c.Sound) : c.Kept := by
  have hinput := h.ok.input
  rw [List.append_assoc] at hinput
  exact ⟨⟨_, hinput.symm⟩, ⟨_, h.ok.output.symm⟩, h.secured⟩

namespace ExchangeRuntime

variable {s s' : ExchangeRuntime} {fd : Nat} {c c' : Client} {events : List EpollEvent}
  {reply : Reply} {accountId : AccountId} {handler : ExchangeOuchHandler}

/-- The record of a closed client has its order. -/
def ClosedKept (s : ExchangeRuntime) : Prop := ∀ c ∈ s.closed, c.Kept

theorem ClosedKept.abandon (h : s.ClosedKept) (hc : ∀ c, s.client fd = some c → c.Kept) :
    (s.abandon fd events).ClosedKept := by
  unfold ExchangeRuntime.abandon closeClient
  split
  · exact h
  · next c hclient =>
      intro x hx
      rcases List.mem_append.mp hx with hx | hx
      · exact h x hx
      · rw [List.mem_singleton.mp hx]
        exact hc c hclient

theorem ClosedKept.stop (h : s.ClosedKept) (hclients : ∀ entry ∈ s.clients, entry.2.Kept) :
    s.stop.ClosedKept := by
  intro c hc
  rcases List.mem_append.mp hc with hc | hc
  · exact h c hc
  · obtain ⟨entry, hentry, rfl⟩ := List.mem_map.mp hc
    exact hclients entry hentry

theorem ClosedKept.exit (h : s.ClosedKept) (hclients : ∀ entry ∈ s.clients, entry.2.Kept) :
    s.exit.ClosedKept := by
  have hstop : s.stop.stop.ClosedKept := (h.stop hclients).stop nofun
  exact hstop

theorem ClosedKept.move (h : s.ClosedKept) (hfit : s.ClientsFit) (hb : s.Balanced)
    (hfault : s.fault = none) (hm : Move s reply s') : s'.ClosedKept := by
  have hkept : ∀ fd c, s.client fd = some c → c.Kept :=
    fun fd c hc => (hfit hfault fd c hc).sound.kept
  have hclients : ∀ entry ∈ s.clients, entry.2.Kept :=
    fun entry hentry => hkept entry.1 entry.2 (hb.client_of_mem hentry)
  cases hm with
  | abandon => exact h.abandon (hkept _)
  | @refused fd c c' events block response handler hc hcall hcalled hinput hsent hcomplete
      hphase =>
      have hclient := hfit hfault fd c hc
      rw [hphase] at hclient
      have hc' : c'.Kept := by
        refine ⟨hinput hclient.1, ?_, fun hfalse => ?_⟩
        · rw [hsent, Connection.responseBytes, hcalled.responses, List.map_append,
            List.flatten_append]
          exact (hkept fd c hc).output.trans (List.prefix_append _ _)
        · rw [hcomplete, hclient.2 rfl] at hfalse
          cases hfalse
      have hbefore : ClosedKept
        ({ s.called c.serial block response with handler := handler }.setClient fd c') := h
      refine hbefore.abandon fun x hx => ?_
      have hself := client_setClient_self
        (s := { s.called c.serial block response with handler := handler }) hc c'
      cases hself.symm.trans hx
      exact hc'
  | enterPlain =>
      unfold emplace
      split <;> exact h
  | enterTls =>
      unfold emplace
      split <;> exact h
  | turnedAway => exact ClosedKept.exit h hclients
  | notAttached => exact ClosedKept.exit h hclients
  | destroyed => exact h.stop hclients
  | exit => exact h.exit hclients
  | _ => exact h

/-! ## Runs -/

/-- Everything that a run keeps. -/
structure Served (accountId : AccountId) (handler : ExchangeOuchHandler)
    (s : ExchangeRuntime) : Prop where
  fits : s.ClientsFit
  balanced : s.Balanced
  linear : Linear accountId handler s
  kept : s.ClosedKept

theorem Served.step (h : Served accountId handler s) (hsane : s.Sane reply) :
    Served accountId handler (s.step reply) := by
  cases hfault : s.fault with
  | some fault =>
      have hstep : s.step reply = s := by
        unfold ExchangeRuntime.step
        rw [hfault]
        rfl
      rw [hstep]
      exact h
  | none =>
      have hm := s.step_move reply
      exact ⟨h.fits.step reply, h.balanced.move hsane hm,
        h.linear.move h.balanced hfault hsane hm, h.kept.move h.fits h.balanced hfault hm⟩

theorem served_run (port : UInt16) (accountId : AccountId) (handler : ExchangeOuchHandler)
    (tls : Bool) {replies : List Reply}
    (hsane : Meets step Sane (init port accountId handler tls) replies) :
    Served accountId handler ((init port accountId handler tls).run replies) :=
  hsane.invariant (Served accountId handler) (fun _ _ h hs => h.step hs)
    ⟨clientsFit_init port accountId handler tls, balanced_init port accountId handler tls,
      linear_init port accountId handler tls, nofun⟩

theorem Served.everyClient_kept (h : Served accountId handler s) (hfault : s.fault = none) :
    ∀ c ∈ s.everyClient, c.Kept := by
  intro c hc
  rcases List.mem_append.mp hc with hc | hc
  · obtain ⟨⟨fd, x⟩, hentry, rfl⟩ := List.mem_map.mp hc
    exact (h.fits hfault fd x (h.balanced.client_of_mem hentry)).sound.kept
  · exact h.kept c hc

/-- There is one sequence of calls; made one after the other they lead to the handler there
is, and every client there has been has had its own part of them, in order. -/
theorem exchange_linearizes (port : UInt16) (accountId : AccountId)
    (handler : ExchangeOuchHandler) (tls : Bool) (replies : List Reply)
    (hsane : Meets step Sane (init port accountId handler tls) replies)
    (hfault : ((init port accountId handler tls).run replies).fault = none) :
    let s := (init port accountId handler tls).run replies
    handler.handleAll accountId (s.calls.map HandlerCall.block) =
        .ok (s.calls.map HandlerCall.response, s.handler) ∧
      (s.everyClient.map Client.serial).Nodup ∧
      (∀ call ∈ s.calls, ∃ c ∈ s.everyClient, c.serial = call.serial) ∧
      ∀ c ∈ s.everyClient,
        c.connection.handled = (c.callsIn s.calls).map HandlerCall.block ∧
        c.connection.responses = (c.callsIn s.calls).filterMap HandlerCall.response ∧
        c.connection.handledBytes <+: c.connection.stream ∧
        c.connection.sent <+: c.connection.responseBytes := by
  have hserved := served_run port accountId handler tls hsane
  have hattributed := hserved.linear.attributed
  refine ⟨hserved.linear.replay hfault, hattributed.serials, hattributed.made, fun c hc => ?_⟩
  have hkept := hserved.everyClient_kept hfault c hc
  exact ⟨hattributed.handled c hc, hattributed.responses c hc, hkept.input, hkept.output⟩

/-- Two clients send an order each; the one accepted first is answered second, and its
response is pending when the other leaves. -/
def clientsSending (first second : List UInt8) : List Reply :=
  tlsStart ++ [.events [.listen], .done, .connection 5 (.ready 901) first,
    .connection 6 (.ready 902) second, .again, .done,
    .events [.client 6 false false true, .client 5 false false true], .done, .done, .done,
    .done, .done, .done, .done,
    .events [.client 6 false false true], .done, .bytes 19, .wantRead, .done, .done,
    .events [.client 5 false true true, .client 6 false false true], .done, .bytes 46,
    .wantWrite, .done, .wantRead, .done, .done, .bytes 46, .bytes 63, .done, .closed, .done]

/-- Both send the same order. -/
def twoClients : List Reply :=
  clientsSending ExchangeTcpServer.buyTen ExchangeTcpServer.buyTen

theorem exchange_linearizes_two_clients :
    let s := (init 8080 1001 (.init UInt64.toNat) true).run twoClients
    s.calls.map HandlerCall.serial = [0, 1] ∧ s.closed.map Client.serial = [1] ∧
      (ExchangeOuchHandler.init UInt64.toNat).handleAll 1001 (s.calls.map HandlerCall.block) =
        .ok (s.calls.map HandlerCall.response, s.handler) := by
  refine ⟨by decide +kernel, by decide +kernel, ?_⟩
  exact (exchange_linearizes 8080 1001 (.init UInt64.toNat) true twoClients (by decide +kernel)
    (Option.isNone_iff_eq_none.mp (by decide +kernel))).1

end ExchangeRuntime

end OpenHft
