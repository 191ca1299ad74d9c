import OpenHft.Lib.Runs
import OpenHft.Proofs.RuntimeMoves

/-!
# Descriptors, sessions and the context are given back once

Whatever fails and whenever, the process closes each descriptor once and frees each OpenSSL
object once, and when it has ended nothing is left. Two things are expected of the system.
What it hands out is not something that is in use (`Sane`), and `epoll_wait` reports clients
that are being watched, each once: `closeClient` closes the descriptor of an event whether or
not there is a client for it.
-/

namespace OpenHft

open OpenHft.Lib

namespace ExchangeRuntime

/-- Not in use at the moment. -/
def Fresh (s : ExchangeRuntime) (h : Handle) : Prop := h ∉ Ledger.held [] s.log

/-- The session that `SSL_new` has returned. -/
def Setup.sessions : Setup → List Nat
  | .notAdded | .noSession => []
  | .notAttached ssl | .ready ssl => [ssl]

/-- An answer that the system can give. -/
def Sane (s : ExchangeRuntime) (reply : Reply) : Prop :=
  match s.phase, reply with
  | .start .sslContextNew, .handle n => s.Fresh (.context n)
  | .start _, .handle n => s.Fresh (.descriptor n)
  | .epollWait, .events events =>
      (events.filterMap EpollEvent.fd?).Nodup ∧
        ∀ fd ∈ events.filterMap EpollEvent.fd?, s.client fd ≠ none
  | .accept _, .connection fd setup _ =>
      s.Fresh (.descriptor fd) ∧ ∀ ssl ∈ setup.sessions, s.Fresh (.session ssl)
  | _, _ => True

instance (s : ExchangeRuntime) (h : Handle) : Decidable (s.Fresh h) :=
  inferInstanceAs (Decidable (h ∉ _))

instance (s : ExchangeRuntime) (reply : Reply) : Decidable (s.Sane reply) := by
  unfold Sane
  split <;> infer_instance

/-- What `start` has not come to is not there. -/
structure Unopened (s : ExchangeRuntime) : Prop where
  context : s.phase.stage = 0 → s.sslContext = none
  listen : s.phase.stage ≤ 1 → s.listenFd = none
  epoll : s.phase.stage ≤ 2 → s.epollFd = none

/-- The log leaves what the server owns, and no descriptor stands for two clients. -/
structure Balanced (s : ExchangeRuntime) : Prop extends Unopened s where
  balances : Ledger.Balances s.log s.owned
  distinct : DistinctKeys Prod.fst s.clients
  nodup : s.phase.pending.Nodup
  known : ∀ fd ∈ s.phase.pending, s.client fd ≠ none
  exited : s.phase = .exited → s.owned = []

variable {s : ExchangeRuntime} {fd : Nat} {c c' : Client} {events : List EpollEvent}
  {phase : Phase} {reply : Reply} {h : Handle}

theorem Phase.exited_of_stage (hstage : phase.stage = 4) : phase = .exited := by
  cases phase with
  | start call => cases call <;> cases hstage
  | exited => rfl
  | _ => cases hstage

theorem Unopened.of_stage (hstage : s.phase.stage = 3) : s.Unopened where
  context := fun h => absurd (hstage.symm.trans h) (by decide)
  listen := fun h => absurd (hstage ▸ h) (by decide)
  epoll := fun h => absurd (hstage ▸ h) (by decide)

theorem balanced_init (port : UInt16) (accountId : AccountId) (handler : ExchangeOuchHandler)
    (tls : Bool) : (init port accountId handler tls).Balanced where
  balances := .empty
  distinct := List.nodup_nil
  nodup := List.nodup_nil
  known := nofun
  context := fun _ => rfl
  listen := fun _ => rfl
  epoll := fun _ => rfl
  exited := fun _ => rfl

theorem Balanced.fresh_iff (hb : s.Balanced) : s.Fresh h ↔ h ∉ s.owned := by
  rw [Fresh, hb.balances.held.mem_iff]

theorem Balanced.mem_clients (hb : s.Balanced) (hc : s.client fd = some c) :
    (fd, c) ∈ s.clients := by
  obtain ⟨⟨fd', c'⟩, hentry, heq⟩ := Option.map_eq_some_iff.mp hc
  cases heq
  obtain ⟨hmem, hkey⟩ := (lookup_eq_some_iff hb.distinct).mp hentry
  cases hkey
  exact hmem

theorem Balanced.client_of_mem (hb : s.Balanced) (hmem : (fd, c) ∈ s.clients) :
    s.client fd = some c :=
  Option.map_eq_some_iff.mpr ⟨(fd, c), (lookup_eq_some_iff hb.distinct).mpr ⟨hmem, rfl⟩, rfl⟩

theorem Balanced.goto (hb : s.Balanced) (hleads : s.phase.Leads phase) :
    Balanced { s with phase := phase } where
  balances := hb.balances
  distinct := hb.distinct
  nodup := hb.nodup.sublist hleads.pending
  known := fun fd hfd => hb.known fd (hleads.pending.subset hfd)
  context := fun hstage => hb.context (hleads.stage.symm.trans hstage)
  listen := fun hstage => hb.listen (hleads.stage ▸ hstage)
  epoll := fun hstage => hb.epoll (hleads.stage ▸ hstage)
  exited := fun hexited => by
    have hstage := hleads.stage
    rw [show phase = .exited from hexited] at hstage
    exact hb.exited (Phase.exited_of_stage hstage.symm)

/-! ## Changing and closing a client -/

theorem setClient_handles (hdistinct : DistinctKeys Prod.fst s.clients)
    (hmem : (fd, c) ∈ s.clients) (hssl : c'.ssl = c.ssl) :
    (s.setClient fd c').owned = s.owned := by
  have hhandles : (alterKey Prod.fst fd (fun _ => (fd, c')) s.clients).flatMap
      (fun entry => entry.2.handles entry.1) =
        s.clients.flatMap (fun entry => entry.2.handles entry.1) := by
    rw [alterKey, List.flatMap_map]
    refine List.flatMap_congr fun entry hentry => ?_
    by_cases hkey : entry.1 = fd
    · have heq : entry = (fd, c) := List.inj_on_of_nodup_map hdistinct hentry hmem hkey
      rw [if_pos hkey, heq]
      show c'.handles fd = c.handles fd
      rw [Client.handles, hssl]
      rfl
    · rw [if_neg hkey]
  exact congrArg (· ++ _) hhandles

theorem setClient_distinct (hdistinct : DistinctKeys Prod.fst s.clients) (fd : Nat)
    (c : Client) : DistinctKeys Prod.fst (s.setClient fd c).clients := by
  have hkeys : (s.setClient fd c).clients.map Prod.fst = s.clients.map Prod.fst := by
    show (alterKey Prod.fst fd (fun _ => (fd, c)) s.clients).map Prod.fst = _
    rw [alterKey, List.map_map]
    refine List.map_congr_left fun entry _ => ?_
    by_cases hkey : entry.1 = fd
    · simp [hkey]
    · simp [hkey]
  rw [DistinctKeys, hkeys]
  exact hdistinct

theorem client_setClient_ne_none (hc : s.client fd = some c) (c' : Client) {fd' : Nat} :
    (s.setClient fd c').client fd' ≠ none ↔ s.client fd' ≠ none := by
  by_cases heq : fd' = fd
  · subst heq
    rw [client_setClient_self hc, hc]
    exact iff_of_true nofun nofun
  · rw [client_setClient_of_ne heq]

theorem Balanced.setClient (hb : s.Balanced) (hc : s.client fd = some c)
    (hssl : c'.ssl = c.ssl) : (s.setClient fd c').Balanced := by
  have howned := setClient_handles hb.distinct (hb.mem_clients hc) hssl
  exact
    { balances := howned ▸ hb.balances
      distinct := setClient_distinct hb.distinct fd c'
      nodup := hb.nodup
      known := fun fd' hfd' => (client_setClient_ne_none hc c').mpr (hb.known fd' hfd')
      context := hb.context
      listen := hb.listen
      epoll := hb.epoll
      exited := fun hexited => howned ▸ hb.exited hexited }

theorem Balanced.perm_closeClient (hb : s.Balanced) (hc : s.client fd = some c) :
    s.owned.Perm (c.handles fd ++ (s.closeClient fd).owned) := by
  have hclients : s.clients.Perm ((fd, c) :: dropKey Prod.fst fd s.clients) :=
    hb.distinct.perm_cons_dropKey (hb.mem_clients hc)
  have hclosed : (s.closeClient fd).owned =
      (dropKey Prod.fst fd s.clients).flatMap (fun entry => entry.2.handles entry.1) ++
        ((s.epollFd.map Handle.descriptor).toList ++
          ((s.listenFd.map Handle.descriptor).toList ++
            (s.sslContext.map Handle.context).toList)) := by
    unfold closeClient
    rw [hc]
    rfl
  have hflat := hclients.flatMap_right (fun entry => entry.2.handles entry.1)
  rw [List.flatMap_cons] at hflat
  rw [hclosed, ← List.append_assoc]
  exact hflat.append_right _

theorem closeClient_log (hc : s.client fd = some c) :
    (s.closeClient fd).log = s.log ++ (c.handles fd).map .release := by
  unfold closeClient
  rw [hc]
  rfl

theorem closeClient_clients (hc : s.client fd = some c) :
    (s.closeClient fd).clients = dropKey Prod.fst fd s.clients := by
  unfold closeClient
  rw [hc]

/-- Nothing but the client and its objects is touched. -/
theorem closeClient_frame (s : ExchangeRuntime) (fd : Nat) :
    (s.closeClient fd).phase = s.phase ∧ (s.closeClient fd).sslContext = s.sslContext ∧
      (s.closeClient fd).listenFd = s.listenFd ∧ (s.closeClient fd).epollFd = s.epollFd := by
  unfold closeClient
  split <;> exact ⟨rfl, rfl, rfl, rfl⟩

theorem Balanced.abandon (hb : s.Balanced)
    (hpending : s.phase.pending = fd :: events.filterMap EpollEvent.fd?) :
    (s.abandon fd events).Balanced := by
  obtain ⟨c, hc⟩ := Option.ne_none_iff_exists'.mp
    (hb.known fd (hpending ▸ List.mem_cons_self))
  obtain ⟨hnot, hnodup⟩ := List.nodup_cons.mp (hpending ▸ hb.nodup)
  obtain ⟨-, hcontext, hlisten, hepoll⟩ := closeClient_frame s fd
  exact
    { Unopened.of_stage (s := s.abandon fd events) rfl with
      balances := by
        show Ledger.Balances (s.closeClient fd).log (s.closeClient fd).owned
        rw [closeClient_log hc]
        exact (hb.balances.perm (hb.perm_closeClient hc)).release_all
      distinct := by
        show DistinctKeys Prod.fst (s.closeClient fd).clients
        rw [closeClient_clients hc]
        exact hb.distinct.dropKey fd
      nodup := hnodup
      known := fun fd' hfd' => by
        have hne : fd' ≠ fd := fun heq => hnot (heq ▸ hfd')
        show (s.closeClient fd).client fd' ≠ none
        rw [client_closeClient_of_ne hne]
        exact hb.known fd' (hpending ▸ List.mem_cons_of_mem fd hfd')
      exited := nofun }

/-! ## Starting, accepting and ending -/

theorem Balanced.called (hb : s.Balanced) (serial : Nat) (block : Vector UInt8 EnterOrderSize)
    (response : Option AcceptedEncoder.Buffer) (handler : ExchangeOuchHandler) :
    Balanced { s.called serial block response with handler := handler } :=
  ⟨⟨hb.context, hb.listen, hb.epoll⟩, hb.balances, hb.distinct, hb.nodup, hb.known, hb.exited⟩

theorem balances_stop (hb : Ledger.Balances s.log s.owned) :
    Ledger.Balances s.stop.log [] :=
  Ledger.Balances.release_all (hb.perm (.of_eq (List.append_nil s.owned).symm))

theorem balanced_destroyed (hb : Ledger.Balances s.log s.owned) :
    Balanced { s.stop with phase := .exited } where
  balances := balances_stop hb
  distinct := List.nodup_nil
  nodup := List.nodup_nil
  known := nofun
  context := nofun
  listen := fun _ => rfl
  epoll := fun _ => rfl
  exited := fun _ => rfl

theorem balanced_exit (hb : Ledger.Balances s.log s.owned) : s.exit.Balanced := by
  have hstop : Ledger.Balances s.stop.log s.stop.owned := balances_stop hb
  exact balanced_destroyed hstop

theorem Balanced.emplace (hb : s.Balanced) (hphase : s.phase = .accept events)
    {log : List (Use Handle)} (hnone : s.client fd = none)
    (hbalances : Ledger.Balances log (c.handles fd ++ s.owned)) :
    Balanced (({ s with log := log } : ExchangeRuntime).emplace fd c) := by
  have habsent : ∀ entry ∈ s.clients, entry.1 ≠ fd :=
    lookup_eq_none_iff.mp (Option.map_eq_none_iff.mp hnone)
  have hemplace : ({ s with log := log } : ExchangeRuntime).emplace fd c =
      { s with
        log := log
        clients := s.clients ++ [(fd, c)]
        accepted := s.accepted + 1 } := by
    unfold ExchangeRuntime.emplace
    have hnone' : ({ s with log := log } : ExchangeRuntime).client fd = none := hnone
    rw [hnone']
  have hknown : ∀ fd' ∈ s.phase.pending,
      (({ s with log := log } : ExchangeRuntime).emplace fd c).client fd' ≠ none := by
    intro fd' hfd'
    have hne : fd' ≠ fd := fun heq => hb.known fd' hfd' (heq ▸ hnone)
    rw [client_emplace_of_ne hne]
    exact hb.known fd' hfd'
  rw [hemplace] at hknown ⊢
  have hstage : s.phase.stage = 3 := by
    rw [hphase]
    rfl
  refine
    { Unopened.of_stage hstage with
      balances := hbalances.perm ?_
      distinct := hb.distinct.append habsent
      nodup := hb.nodup
      known := hknown
      exited := fun hexited => nomatch hphase.symm.trans hexited }
  show (c.handles fd ++ s.owned).Perm ((s.clients ++ [(fd, c)]).flatMap _ ++ _)
  rw [List.flatMap_append, List.flatMap_singleton]
  exact (List.perm_append_comm_assoc _ _ _).trans (List.append_assoc _ _ _ ▸ .refl _)

/-- A descriptor that is not held belongs to no client. -/
theorem client_none_of_not_owned (hfd : .descriptor fd ∉ s.owned) : s.client fd = none := by
  refine Option.map_eq_none_iff.mpr (lookup_eq_none_iff.mpr fun entry hentry heq => hfd ?_)
  refine List.mem_append_left _ (List.mem_flatMap.mpr ⟨entry, hentry, ?_⟩)
  rw [heq]
  exact List.mem_append_right _ List.mem_cons_self

theorem Balanced.move {s' : ExchangeRuntime} (hb : s.Balanced) (hsane : s.Sane reply)
    (hm : Move s reply s') : s'.Balanced := by
  cases hm with
  | stay => exact hb
  | goto hleads => exact hb.goto hleads
  | woken hphase hreply =>
      subst hreply
      simp only [Sane, hphase] at hsane
      exact ⟨.of_stage rfl, hb.balances, hb.distinct, hsane.1, hsane.2, nofun⟩
  | change hc hsame hleads => exact (hb.setClient hc hsame.ssl).goto hleads
  | abandon hpending => exact hb.abandon hpending
  | answered hc hcall hcalled hleads =>
      exact ((hb.called _ _ _ _).setClient hc hcalled.ssl).goto hleads
  | @refused fd c c' events block response handler hc hcall hcalled hinput hsent hcomplete
      hphase =>
      refine ((hb.called _ _ _ _).setClient hc hcalled.ssl).abandon ?_
      show s.phase.pending = fd :: events.filterMap EpollEvent.fd?
      rw [hphase]
      rfl
  | @faulted fd c c' events block fault hc hcall hcalled hinput hphase =>
      have hset := (hb.called c.serial block none s.handler).setClient hc hcalled.ssl
      exact ⟨⟨hset.context, hset.listen, hset.epoll⟩, hset.balances, hset.distinct, hset.nodup,
        hset.known, hset.exited⟩
  | enterPlain hphase hreply hcontext =>
      subst hreply
      simp only [Sane, hphase] at hsane
      have hfd := hb.fresh_iff.mp hsane.1
      exact hb.emplace hphase (client_none_of_not_owned hfd) (hb.balances.acquire hfd)
  | @enterTls fd ssl context stream events hphase hreply hcontext =>
      subst hreply
      simp only [Sane, hphase] at hsane
      have hfd := hb.fresh_iff.mp hsane.1
      have hssl := hb.fresh_iff.mp (hsane.2 ssl List.mem_cons_self)
      have hnot : Handle.session ssl ∉ Handle.descriptor fd :: s.owned := by
        simpa using hssl
      exact hb.emplace hphase (client_none_of_not_owned hfd)
        ((hb.balances.acquire hfd).acquire hnot)
  | turnedAway hphase hreply =>
      subst hreply
      simp only [Sane, hphase] at hsane
      exact balanced_exit (hb.balances.borrow (hb.fresh_iff.mp hsane.1))
  | @notAttached fd ssl stream events hphase hreply =>
      subst hreply
      simp only [Sane, hphase] at hsane
      have hfd := hb.fresh_iff.mp hsane.1
      have hssl := hb.fresh_iff.mp (hsane.2 ssl List.mem_cons_self)
      have hnot : Handle.session ssl ∉ Handle.descriptor fd :: s.owned := by
        simpa using hssl
      have hboth : Ledger.Balances _ ([.session ssl, .descriptor fd] ++ s.owned) :=
        (hb.balances.acquire hfd).acquire hnot
      exact balanced_exit hboth.release_all
  | context hphase hreply =>
      subst hreply
      simp only [Sane, hphase] at hsane
      have hnone := hb.context (by rw [hphase]; rfl)
      have hlisten := hb.listen (by rw [hphase]; decide)
      have hepoll := hb.epoll (by rw [hphase]; decide)
      refine ⟨⟨nofun, fun _ => hlisten, fun _ => hepoll⟩,
        (hb.balances.acquire (hb.fresh_iff.mp hsane)).perm ?_, hb.distinct, List.nodup_nil,
        nofun, nofun⟩
      simp only [owned, acquire, hnone, hlisten, hepoll, Option.map_none, Option.toList_none,
        Option.map_some, Option.toList_some, List.nil_append]
      exact List.perm_middle.symm
  | socket hphase hreply =>
      subst hreply
      simp only [Sane, hphase] at hsane
      have hlisten := hb.listen (by rw [hphase]; decide)
      have hepoll := hb.epoll (by rw [hphase]; decide)
      have hlater : ¬ (Phase.start .setNonBlocking).stage ≤ 1 := by decide
      refine ⟨⟨nofun, fun hstage => absurd hstage hlater, fun _ => hepoll⟩,
        (hb.balances.acquire (hb.fresh_iff.mp hsane)).perm ?_, hb.distinct, List.nodup_nil,
        nofun, nofun⟩
      simp only [owned, acquire, hlisten, hepoll, Option.map_none, Option.toList_none,
        Option.map_some, Option.toList_some, List.nil_append, List.cons_append]
      exact List.perm_middle.symm
  | epoll hphase hreply =>
      subst hreply
      simp only [Sane, hphase] at hsane
      have hepoll := hb.epoll (by rw [hphase]; decide)
      refine ⟨.of_stage rfl, (hb.balances.acquire (hb.fresh_iff.mp hsane)).perm ?_,
        hb.distinct, List.nodup_nil, nofun, nofun⟩
      simp only [owned, acquire, hepoll, Option.map_none, Option.toList_none,
        Option.map_some, Option.toList_some, List.nil_append, List.cons_append]
      exact List.perm_middle.symm
  | bound hphase =>
      have hleads : s.phase.Leads (.start .listen) := by
        rw [hphase]
        exact ⟨List.nil_sublist _, rfl⟩
      have hgoto := hb.goto hleads
      exact ⟨⟨hgoto.context, hgoto.listen, hgoto.epoll⟩, hgoto.balances, hgoto.distinct,
        hgoto.nodup, hgoto.known, hgoto.exited⟩
  | destroyed => exact balanced_destroyed hb.balances
  | exit => exact balanced_exit hb.balances

/-! ## Runs -/

/-- Whatever the calls return, in any run: nothing is taken that is in use and nothing is
given back twice, what is held is what the server can still give back, and when the process
has ended nothing is held. -/
theorem resources_returned (port : UInt16) (accountId : AccountId)
    (handler : ExchangeOuchHandler) (tls : Bool) (replies : List Reply)
    (hsane : Meets step Sane (init port accountId handler tls) replies) :
    let s := (init port accountId handler tls).run replies
    Ledger.InOrder [] s.log ∧ (Ledger.held [] s.log).Perm s.owned ∧
      (s.phase = .exited → Ledger.held [] s.log = []) := by
  have hb : Balanced ((init port accountId handler tls).run replies) :=
    hsane.invariant Balanced (fun s reply hb hs => hb.move hs (s.step_move reply))
      (balanced_init port accountId handler tls)
  refine ⟨hb.balances.inOrder, hb.balances.held, fun hexited => ?_⟩
  exact (hb.balances.perm (.of_eq (hb.exited hexited))).held_nil

/-- A client is connected when `SSL_set_fd` fails for the next one. -/
def secondRefused : List Reply :=
  tlsStart ++ [.events [.listen], .done, .connection 5 (.ready 901) [],
    .connection 6 (.notAttached 902) []]

theorem resources_returned_second_refused :
    ((init 8080 1001 (.init UInt64.toNat) true).run secondRefused).phase = .exited ∧
      ((init 8080 1001 (.init UInt64.toNat) true).run secondRefused).log.length = 14 ∧
      Ledger.held [] ((init 8080 1001 (.init UInt64.toNat) true).run secondRefused).log = [] := by
  have hexited : ((init 8080 1001 (.init UInt64.toNat) true).run secondRefused).phase =
    .exited := by decide +kernel
  exact ⟨hexited, by decide +kernel, (resources_returned 8080 1001 (.init UInt64.toNat) true
    secondRefused (by decide +kernel)).2.2 hexited⟩

end ExchangeRuntime

end OpenHft
