import OpenHft.Model.TradingProcess
import OpenHft.Proofs.DeskOrders
import OpenHft.Proofs.RuntimeReference
import OpenHft.Proofs.ServerAnswers
import OpenHft.Proofs.StrategyRounding
import OpenHft.Proofs.TlsTransport

/-!
# From a market-data file to the exchange

Any number of trading processes on one exchange process. What a process writes on its session
is the messages of its reference desk, what the exchange handles of a client is a front part
of them, and so every message has a price that the book has and nothing goes wrong in the
handler. The exchange answers orders until it has no room left and none from then on; hence
the n-th response to a client is the one to its n-th order, and the response that a process
reads at its end is the one to its first.
-/

namespace OpenHft

open OpenHft.Lib PriceTime

/-! ## The session of a process -/

namespace TlsOuchTransport

variable {t : TlsOuchTransport} {answers : ConnectAnswers}

/-- A transport on a session that nothing has been read from, opened with these answers. -/
structure Writing (answers : ConnectAnswers) (t : TlsOuchTransport) : Prop where
  sound : Sound t
  isConnected : t.isConnected = true
  established : t.established = some answers
  receives : t.receives = []

theorem secure_opens (h : (t.secure answers).1 = true) (hc : t.isConnected = true) :
    (t.secure answers).2.isConnected = true ∧
      (t.secure answers).2.established = some answers ∧
      (t.secure answers).2.receives = [] ∧ (t.secure answers).2.sends = [] := by
  unfold secure at h ⊢
  split_ifs at h ⊢
  exact ⟨hc, rfl, rfl, rfl⟩

theorem connect_opens (hnot : t.isConnected = false) (h : (t.connect answers).1 = true) :
    (t.connect answers).2.isConnected = true ∧
      (t.connect answers).2.established = some answers ∧
      (t.connect answers).2.receives = [] ∧ (t.connect answers).2.sends = [] := by
  unfold connect at h ⊢
  rw [if_neg (by rw [hnot]; exact Bool.noConfusion)] at h ⊢
  cases hcontext : answers.context with
  | none =>
      rw [hcontext] at h
      cases h
  | some context =>
      rw [hcontext] at h
      dsimp only at h ⊢
      by_cases hloaded : answers.certificateLoaded = false
      · rw [if_pos hloaded] at h
        cases h
      rw [if_neg hloaded] at h ⊢
      cases hsocket : answers.socket with
      | none =>
          rw [hsocket] at h
          cases h
      | some fd =>
          rw [hsocket] at h
          dsimp only at h ⊢
          unfold reach at h ⊢
          by_cases hparsed : answers.addressParsed = false
          · rw [if_pos hparsed] at h
            cases h
          by_cases hconnected : answers.connected = false
          · rw [if_neg hparsed, if_pos hconnected] at h
            cases h
          rw [if_neg hparsed, if_neg hconnected] at h ⊢
          cases hsession : answers.session with
          | none =>
              rw [hsession] at h
              cases h
          | some ssl =>
              rw [hsession] at h
              exact secure_opens h rfl

/-- On a session every message is recorded, with what `send` returned. -/
theorem Writing.send (h : Writing answers t) (data : List UInt8) :
    Writing answers (TlsOuchTransport.send data t).2 ∧
      (TlsOuchTransport.send data t).2.sends =
        t.sends ++ [(data, (TlsOuchTransport.send data t).1)] := by
  have hsound := h.sound.send data
  have hc : ¬ t.isConnected = false := by
    rw [h.isConnected]
    exact Bool.noConfusion
  unfold TlsOuchTransport.send at hsound ⊢
  rw [if_neg hc] at hsound ⊢
  exact ⟨⟨hsound, h.isConnected, h.established, h.receives⟩, rfl⟩

/-- What the exchange has written and nobody has read. -/
theorem Writing.incoming (h : Writing answers t) : t.peer.incoming = answers.peer.incoming := by
  rw [h.sound.received answers h.established, h.receives]
  rfl

/-- When nothing was sent behind a message that failed, the wire is a front part of the
messages. -/
theorem Sound.wire_prefix (h : Sound t) (hunbroken : ∀ x ∈ t.sends.dropLast, x.2 = true) :
    t.wire <+: (t.sends.map Prod.fst).flatten := by
  obtain ⟨parts, hparts, hwire⟩ := h.sent
  rw [hwire]
  generalize t.sends = sends at hunbroken hparts
  clear h hwire
  induction hparts with
  | nil => exact List.nil_prefix
  | @cons x part sends parts hpart hrest ih =>
      rw [List.flatten_cons, List.map_cons, List.flatten_cons]
      cases hrest with
      | nil =>
          rw [List.flatten_nil, List.append_nil]
          exact hpart.1.trans (List.prefix_append _ _)
      | cons hnext hrest =>
          rw [hpart.2 (hunbroken x List.mem_cons_self)]
          refine (List.prefix_append_right_inj _).mpr (ih fun y hy => hunbroken y ?_)
          exact List.mem_cons_of_mem x hy

end TlsOuchTransport

namespace TradingProcess

open TlsOuchTransport

variable {p : TradingProcess} {strategy : IStrategy} {decision : Decision}
  {desk : TradingDesk TlsOuchTransport}

/-- The desk that the process is to be. -/
def reference (decision : Decision) (p : TradingProcess) : ReferenceDesk TlsOuchTransport :=
  (ReferenceDesk.init p.transport).run decision TlsOuchTransport.send p.consumed

/-- The records of the session are the orders of the reference desk. -/
theorem reference_sends (decision : Decision) (hconnected : p.connected = true) :
    Writing p.answers (p.reference decision).transport ∧
      (p.reference decision).transport.sends = (p.reference decision).orders.mapIdx
        fun n x => (ReferenceDesk.message (n + 1) x.1, x.2) := by
  obtain ⟨hc, hestablished, hreceives, hsends⟩ := connect_opens rfl hconnected
  exact ReferenceDesk.recorded_run TlsOuchTransport.sends Prod.mk (Writing p.answers)
    (fun data t h => h.send data) ⟨sound_init.connect p.answers, hc, hestablished, hreceives⟩
    hsends decision p.consumed

theorem fit_consumed (hfit : FitFeed (fileFeed p.file)) : FitFeed p.consumed :=
  hfit.sublist (TradingRuntime.consumed_sublist p.buffer p.file p.turns)

/-- The transport of the process is that of the reference desk. -/
theorem desk_transport (hsees : Sees strategy decision) (hfit : FitFeed (fileFeed p.file))
    (hdesk : p.desk strategy = .ok desk) : desk.transport = (p.reference decision).transport := by
  obtain ⟨desk', hok, hfollows⟩ := Follows.of_fit hsees TlsOuchTransport.send p.stdHash
    p.transport (fit_consumed hfit)
  cases hdesk.symm.trans hok
  exact hfollows.transport

end TradingProcess

/-! ## The answers of the reference exchange -/

namespace PriceTime.Book

variable {b : Book} {accountId : AccountId} {block : Vector UInt8 EnterOrderSize}
  {blocks : List (Vector UInt8 EnterOrderSize)}

/-- The response is the one to the order in the message. -/
def Answers (block : Vector UInt8 EnterOrderSize) (response : AcceptedEncoder.Buffer) : Prop :=
  ∃ enterOrder orderId,
    OuchDecoder.decodeEnterOrder (.ofList block.toList) EnterOrderSize = some enterOrder ∧
    response = AcceptedEncoder.encode (ExchangeOuchHandler.accept enterOrder orderId)

theorem respond_answers (b : Book) (accountId : AccountId) (block : Vector UInt8 EnterOrderSize)
    {response : AcceptedEncoder.Buffer} (h : (b.respond accountId block).1 = some response) :
    Answers block response := by
  unfold respond at h
  cases hd : OuchDecoder.decodeEnterOrder (.ofList block.toList) EnterOrderSize with
  | none =>
      rw [hd] at h
      cases h
  | some enterOrder =>
      rw [hd] at h
      dsimp only at h
      split at h
      · cases h
      · cases h
        exact ⟨enterOrder, _, hd, rfl⟩

theorem respondAll_answers (b : Book) (accountId : AccountId)
    (blocks : List (Vector UInt8 EnterOrderSize)) :
    List.Forall₂ (fun block response => ∀ r, response = some r → Answers block r) blocks
      (b.respondAll accountId blocks).1 := by
  induction blocks generalizing b with
  | nil => exact .nil
  | cons block blocks ih =>
      exact .cons (fun r hr => b.respond_answers accountId block hr) (ih _)

theorem respond_full (hfull : b.orders.length = defaultOrderCapacity) (accountId : AccountId)
    (block : Vector UInt8 EnterOrderSize) : b.respond accountId block = (none, b) := by
  unfold respond
  cases OuchDecoder.decodeEnterOrder (.ofList block.toList) EnterOrderSize with
  | none => rfl
  | some enterOrder => exact if_pos hfull

theorem respondAll_full (hfull : b.orders.length = defaultOrderCapacity)
    (accountId : AccountId) (blocks : List (Vector UInt8 EnterOrderSize)) :
    ∀ response ∈ (b.respondAll accountId blocks).1, response = none := by
  induction blocks with
  | nil => exact fun response h => absurd h List.not_mem_nil
  | cons block blocks ih =>
      rw [respondAll, respond_full hfull accountId block]
      exact List.forall_mem_cons.mpr ⟨rfl, ih⟩

/-- Orders are answered until there is no room left, and none from then on. -/
theorem respondAll_pairwise (b : Book) (accountId : AccountId)
    (hdecoded : ∀ block ∈ blocks, (OuchDecoder.decodeEnterOrder (.ofList block.toList)
      EnterOrderSize).isSome = true) :
    (b.respondAll accountId blocks).1.Pairwise fun x y => x = none → y = none := by
  induction blocks generalizing b with
  | nil => exact .nil
  | cons block blocks ih =>
      have hrest := ih (b.respond accountId block).2
        fun x hx => hdecoded x (List.mem_cons_of_mem block hx)
      have hcons : (b.respondAll accountId (block :: blocks)).1 = (b.respond accountId block).1 ::
        ((b.respond accountId block).2.respondAll accountId blocks).1 := rfl
      rw [hcons]
      refine List.pairwise_cons.mpr ⟨fun y hy hnone => ?_, hrest⟩
      obtain ⟨enterOrder, hd⟩ :=
        Option.isSome_iff_exists.mp (hdecoded block List.mem_cons_self)
      have hfull : b.orders.length = defaultOrderCapacity := by
        by_contra hroom
        unfold respond at hnone
        rw [hd] at hnone
        dsimp only at hnone
        rw [if_neg hroom] at hnone
        cases hnone
      rw [respond_full hfull accountId block] at hy
      exact respondAll_full hfull accountId blocks y hy

end PriceTime.Book

/-! ## What the exchange is handed -/

namespace ExchangeRuntime

variable {s s' : ExchangeRuntime} {reply : Reply} {accountId : AccountId}
  {handler : ExchangeOuchHandler}

theorem abandon_fault (s : ExchangeRuntime) (fd : Nat) (events : List EpollEvent) :
    (s.abandon fd events).fault = s.fault := by
  unfold abandon closeClient
  split <;> rfl

theorem emplace_fault (s : ExchangeRuntime) (fd : Nat) (c : Client) :
    (s.emplace fd c).fault = s.fault := by
  unfold emplace
  split <;> rfl

theorem exit_fault (s : ExchangeRuntime) : s.exit.fault = s.fault := rfl

/-- Also in the call that goes wrong the exchange is handed what the client sent. -/
def InputKept (s : ExchangeRuntime) : Prop :=
  ∀ c ∈ s.everyClient, c.connection.handledBytes <+: c.connection.stream

theorem InputKept.step (hk : s.InputKept) (h : Served accountId handler s)
    (hsane : s.Sane reply) : (s.step reply).InputKept := by
  have hserved := h.step hsane
  have hok : (s.step reply).fault = none → (s.step reply).InputKept :=
    fun hfault c hc => (hserved.everyClient_kept hfault c hc).input
  cases hfault : s.fault with
  | some fault =>
      have hstep : s.step reply = s := by
        unfold ExchangeRuntime.step
        rw [hfault]
        rfl
      rw [hstep]
      exact hk
  | none =>
      have hm := s.step_move reply
      generalize s.step reply = s' at hm hok
      cases hm with
      | @faulted fd c c' events block fault hc hcall hcalled hinput hphase =>
          obtain ⟨rest, hold, hnew⟩ := h.balanced.everyClient_split hc c'
          have hidle := h.fits hfault fd c hc
          rw [hphase] at hidle
          intro x hx
          rcases List.mem_cons.mp (hnew.mem_iff.mp hx) with rfl | hx
          · exact hinput hidle.1
          · exact hk x (hold.mem_iff.mpr (List.mem_cons_of_mem c hx))
      | abandon => exact hok ((abandon_fault s _ _).trans hfault)
      | refused => exact hok ((abandon_fault _ _ _).trans hfault)
      | enterPlain => exact hok ((emplace_fault _ _ _).trans hfault)
      | enterTls => exact hok ((emplace_fault _ _ _).trans hfault)
      | turnedAway => exact hok ((exit_fault _).trans hfault)
      | notAttached => exact hok ((exit_fault _).trans hfault)
      | exit => exact hok ((exit_fault s).trans hfault)
      | _ => exact hok hfault

end ExchangeRuntime

/-! ## Both ends -/

/-- What is read off a list of results that begins with all there are. -/
theorem getElem?_filterMap_of_pairwise {α β : Type} {f : α → Option β} {l : List α}
    (h : l.Pairwise fun x y => f x = none → f y = none) {n : Nat} {r : β}
    (hr : (l.filterMap f)[n]? = some r) : ∃ x, l[n]? = some x ∧ f x = some r := by
  induction l generalizing n with
  | nil => cases hr
  | cons x l ih =>
      obtain ⟨hhead, htail⟩ := List.pairwise_cons.mp h
      cases hx : f x with
      | none =>
          have hnil : (x :: l).filterMap f = [] := by
            rw [List.filterMap_cons_none hx, List.filterMap_eq_nil_iff]
            exact fun y hy => hhead y hy hx
          rw [hnil] at hr
          cases hr
      | some first =>
          rw [List.filterMap_cons_some hx] at hr
          cases n with
          | zero => exact ⟨x, rfl, hx.trans hr⟩
          | succ n => exact ih htail hr

theorem map_fst_mapIdx {α β γ : Type} (f : Nat → α → β) (g : α → γ) (l : List α) :
    (l.mapIdx fun n x => (f n x, g x)).map Prod.fst = l.mapIdx f := by
  refine List.ext_getElem? fun n => ?_
  rw [List.getElem?_map, List.getElem?_mapIdx, List.getElem?_mapIdx, Option.map_map]
  rfl

/-- The two ends of a session. The exchange has been sent a front part of what the transport
has written; the transport has not written behind a message that failed; and what it can
read is a front part of what the exchange has sent. -/
structure Linked (strategy : IStrategy) (p : TradingProcess) (desk : TradingDesk TlsOuchTransport)
    (c : Client) : Prop where
  fit : FitFeed (fileFeed p.file)
  connected : p.connected = true
  ran : p.desk strategy = .ok desk
  written : c.connection.stream <+: desk.transport.wire
  unbroken : ∀ x ∈ desk.transport.sends.dropLast, x.2 = true
  readable : p.answers.peer.incoming <+: c.connection.sent

namespace Linked

open ReferenceDesk

variable {strategy : IStrategy} {decision : Decision} {p : TradingProcess}
  {desk : TradingDesk TlsOuchTransport} {c : Client}

/-- The messages handled are the first that the reference desk sent. -/
theorem handled (h : Linked strategy p desk c) (hsees : Sees strategy decision)
    (hinput : c.connection.handledBytes <+: c.connection.stream) :
    c.connection.handled.map Vector.toList <+:
      (p.reference decision).orders.mapIdx fun n x => message (n + 1) x.1 := by
  obtain ⟨hwriting, hsends⟩ := p.reference_sends decision h.connected
  have hunbroken := h.unbroken
  have hwritten := h.written
  rw [TradingProcess.desk_transport hsees h.fit h.ran] at hunbroken hwritten
  have hwire := hwriting.sound.wire_prefix hunbroken
  have hmessages : (p.reference decision).transport.sends.map Prod.fst =
      (p.reference decision).orders.mapIdx fun n x => message (n + 1) x.1 := by
    rw [hsends, map_fst_mapIdx]
  rw [hmessages] at hwire
  refine prefix_of_flatten (n := 47) (by omega) ?_ ?_ ((hinput.trans hwritten).trans hwire)
  · intro bytes hbytes
    obtain ⟨n, hn, rfl⟩ := List.mem_mapIdx.mp hbytes
    exact Vector.length_toList
  · intro bytes hbytes
    obtain ⟨block, -, rfl⟩ := List.mem_map.mp hbytes
    exact Vector.length_toList

/-- The n-th message handled is the n-th order of the reference desk. -/
theorem getElem?_handled (h : Linked strategy p desk c) (hsees : Sees strategy decision)
    (hinput : c.connection.handledBytes <+: c.connection.stream) {n : Nat}
    {block : Vector UInt8 EnterOrderSize} (hn : c.connection.handled[n]? = some block) :
    ∃ intent taken, (p.reference decision).orders[n]? = some (intent, taken) ∧
      OuchDecoder.decodeEnterOrder (.ofList block.toList) EnterOrderSize =
        some (OuchExecutionSink.enterOrder (UInt32.ofNat (n + 1)) intent) := by
  obtain ⟨rest, hrest⟩ := h.handled hsees hinput
  have hbytes : ((p.reference decision).orders.mapIdx fun n x => message (n + 1) x.1)[n]? =
      some block.toList := by
    rw [← hrest]
    refine List.getElem?_append_left ?_ |>.trans ?_
    · rw [List.length_map]
      exact (List.getElem?_eq_some_iff.mp hn).1
    · rw [List.getElem?_map, hn]
      rfl
  rw [List.getElem?_mapIdx] at hbytes
  obtain ⟨⟨intent, taken⟩, horder, hmessage⟩ := Option.map_eq_some_iff.mp hbytes
  refine ⟨intent, taken, horder, ?_⟩
  rw [← hmessage]
  exact OuchExecutionSink.decodeEnterOrder_message _ intent

/-- So its price is one that the book has. -/
theorem blockInRange (h : Linked strategy p desk c) (hsees : Sees strategy decision)
    (hinput : c.connection.handledBytes <+: c.connection.stream)
    {block : Vector UInt8 EnterOrderSize} (hmem : block ∈ c.connection.handled) :
    BlockInRange block := by
  obtain ⟨n, hn⟩ := List.getElem?_of_mem hmem
  obtain ⟨intent, taken, horder, hdecoded⟩ := h.getElem?_handled hsees hinput hn
  intro enterOrder hmem
  rw [Option.mem_def, hdecoded] at hmem
  cases hmem
  have hvalid := validPrice_of_mem hsees TlsOuchTransport.send p.transport
    (TradingProcess.fit_consumed h.fit) (List.mem_of_getElem? horder)
  exact hvalid

/-- The response that is read at the end is the first that was sent. -/
theorem report (h : Linked strategy p desk c) (hsees : Sees strategy decision)
    (houtput : c.connection.sent <+: c.connection.responseBytes)
    (hfirst : ∀ response, c.connection.responses[0]? = some response → ∃ intent orderId,
      response = AcceptedEncoder.encode
        (ExchangeOuchHandler.accept (OuchExecutionSink.enterOrder 1 intent) orderId)) :
    desk.transport.report = .notReceived ∨ desk.transport.report = .accepted 1 := by
  have hwriting := (p.reference_sends decision h.connected).1
  rw [← TradingProcess.desk_transport hsees h.fit h.ran] at hwriting
  generalize desk.transport = t at hwriting
  unfold TlsOuchTransport.report TlsOuchTransport.receive
  rw [if_neg (by rw [hwriting.isConnected]; exact Bool.noConfusion)]
  generalize hloop : TlsOuchTransport.receiveLoop 64 [] t.peer.incoming t.peer.reads = out
  obtain ⟨filled, received, incoming, reads⟩ := out
  obtain ⟨hstream, -, hfull⟩ := TlsOuchTransport.receiveLoop_spec (Nat.zero_le _) hloop
  cases filled with
  | false => exact .inl rfl
  | true =>
      have hreceived : [received].flatten <+: c.connection.responseBytes := by
        have hfront : received <+: t.peer.incoming := ⟨incoming, hstream.symm⟩
        rw [hwriting.incoming] at hfront
        rw [List.flatten_singleton]
        exact (hfront.trans h.readable).trans houtput
      have hlist : [received] <+: c.connection.responses.map Vector.toList := by
        refine prefix_of_flatten (n := 64) (by omega) ?_ ?_ hreceived
        · intro bytes hbytes
          obtain ⟨response, -, rfl⟩ := List.mem_map.mp hbytes
          exact Vector.length_toList
        · intro bytes hbytes
          rw [List.mem_singleton.mp hbytes]
          exact hfull rfl
      obtain ⟨rest, hrest⟩ := hlist
      have hzero : (c.connection.responses.map Vector.toList)[0]? = some received := by
        rw [← hrest]
        rfl
      rw [List.getElem?_map] at hzero
      obtain ⟨response, hresponse, rfl⟩ := Option.map_eq_some_iff.mp hzero
      obtain ⟨intent, orderId, rfl⟩ := hfirst response hresponse
      dsimp only
      rw [dispatch_accept]
      exact .inr rfl

end Linked

/-- When all messages are orders, the n-th response to a client is the one to its n-th. -/
theorem Attributed.getElem?_responses {clients : List Client} {calls : List HandlerCall}
    {accepted : Nat} (h : Attributed clients calls accepted) {c : Client} (hc : c ∈ clients)
    {b : Book} {accountId : AccountId}
    (hcalls : calls.map HandlerCall.response =
      (b.respondAll accountId (calls.map HandlerCall.block)).1)
    (hdecoded : ∀ call ∈ calls, (OuchDecoder.decodeEnterOrder (.ofList call.block.toList)
      EnterOrderSize).isSome = true) {n : Nat} {response : AcceptedEncoder.Buffer}
    (hn : c.connection.responses[n]? = some response) :
    ∃ block, c.connection.handled[n]? = some block ∧ Book.Answers block response := by
  have hpairwise := b.respondAll_pairwise accountId (List.forall_mem_map.mpr hdecoded)
  have hanswers := b.respondAll_answers accountId (calls.map HandlerCall.block)
  rw [← hcalls, List.pairwise_map] at hpairwise
  rw [← hcalls, List.forall₂_map_left_iff, List.forall₂_map_right_iff, List.forall₂_same]
    at hanswers
  rw [h.responses c hc] at hn
  obtain ⟨call, hcall, hresponse⟩ := getElem?_filterMap_of_pairwise
    (hpairwise.sublist (List.filter_sublist (l := calls))) hn
  refine ⟨call.block, ?_, hanswers call ?_ response hresponse⟩
  · rw [h.handled c hc, List.getElem?_map]
    exact congrArg (Option.map HandlerCall.block) hcall
  · exact (List.mem_filter.mp (List.mem_of_getElem? hcall)).1

namespace ExchangeRuntime

theorem inputKept_run (port : UInt16) (accountId : AccountId) (handler : ExchangeOuchHandler)
    (tls : Bool) {replies : List Reply}
    (hsane : Meets step Sane (init port accountId handler tls) replies) :
    ((init port accountId handler tls).run replies).InputKept := by
  have hboth : Served accountId handler (init port accountId handler tls) ∧
      (init port accountId handler tls).InputKept :=
    ⟨⟨clientsFit_init port accountId handler tls, balanced_init port accountId handler tls,
      linear_init port accountId handler tls, nofun⟩, fun c hc => absurd hc List.not_mem_nil⟩
  exact (hsane.invariant (fun s => Served accountId handler s ∧ s.InputKept)
    (fun _ _ h hs => ⟨h.1.step hs, h.2.step h.1 hs⟩) hboth).2

/-- Any number of trading processes with fit files, each over its session, and the exchange,
in any interleaving. As long as fewer than 2⁶³ - 500 messages are handled, so that their
numbers fit the counter, nothing goes wrong in the exchange; its answers, trades and book are
those of the reference exchange; the n-th message it handles for a client is the n-th order of
the reference desk behind that client, and the n-th response is the one to it. The response
that a process reads at its end is the one to its first order, if one has come in whole. -/
theorem orders_reach_exchange {strategy : IStrategy} {decision : Decision}
    (hsees : Sees strategy decision) (processes : Nat → TradingProcess)
    (desks : Nat → TradingDesk TlsOuchTransport) (port : UInt16) (accountId : AccountId)
    (stdHash : OrderId → Nat) (replies : List Reply)
    (hsane : Meets step Sane (init port accountId (.init stdHash) true) replies)
    (hlinked : ∀ c ∈ ((init port accountId (.init stdHash) true).run replies).everyClient,
      Linked strategy (processes c.serial) (desks c.serial) c)
    (hlength : ((init port accountId (.init stdHash) true).run replies).calls.length <
      2 ^ 63 - 500) :
    let s := (init port accountId (.init stdHash) true).run replies
    let exchange := Book.empty.respondAll accountId (s.calls.map HandlerCall.block)
    s.fault = none ∧ s.calls.map HandlerCall.response = exchange.1 ∧
      s.handler.matchingEngine.published = exchange.2.trades ∧
      ShowsBook s.handler.matchingEngine exchange.2 ∧
      ∀ c ∈ s.everyClient,
        (∀ (n : Nat) block, c.connection.handled[n]? = some block →
          ∃ intent taken,
            ((processes c.serial).reference decision).orders[n]? = some (intent, taken) ∧
            OuchDecoder.decodeEnterOrder (.ofList block.toList) EnterOrderSize =
              some (OuchExecutionSink.enterOrder (UInt32.ofNat (n + 1)) intent)) ∧
        (∀ (n : Nat) response, c.connection.responses[n]? = some response →
          ∃ block, c.connection.handled[n]? = some block ∧ Book.Answers block response) ∧
        ((desks c.serial).transport.report = .notReceived ∨
          (desks c.serial).transport.report = .accepted 1) := by
  intro s exchange
  have hserved := served_run port accountId (.init stdHash) true hsane
  have hinput : s.InputKept := inputKept_run port accountId (.init stdHash) true hsane
  have hattributed := hserved.linear.attributed
  have hhandled : ∀ call ∈ s.calls, ∃ c ∈ s.everyClient, call.block ∈ c.connection.handled := by
    intro call hcall
    obtain ⟨c, hc, hserial⟩ := hattributed.made call hcall
    refine ⟨c, hc, ?_⟩
    rw [hattributed.handled c hc]
    exact List.mem_map_of_mem (List.mem_filter.mpr ⟨hcall, decide_eq_true hserial.symm⟩)
  obtain ⟨hfault, hresponses, Q, hr⟩ := hserved.follows (fun call hcall => by
    obtain ⟨c, hc, hblock⟩ := hhandled call hcall
    exact (hlinked c hc).blockInRange hsees (hinput c hc) hblock) hlength
  have hdecoded : ∀ call ∈ s.calls, (OuchDecoder.decodeEnterOrder (.ofList call.block.toList)
      EnterOrderSize).isSome = true := by
    intro call hcall
    obtain ⟨c, hc, hblock⟩ := hhandled call hcall
    obtain ⟨n, hn⟩ := List.getElem?_of_mem hblock
    obtain ⟨intent, taken, -, hd⟩ := (hlinked c hc).getElem?_handled hsees (hinput c hc) hn
    rw [hd]
    rfl
  refine ⟨hfault, hresponses, hr.trades, hr.showsBook, fun c hc => ?_⟩
  have hlink := hlinked c hc
  have horders : ∀ (n : Nat) block, c.connection.handled[n]? = some block → _ :=
    fun n block hn => hlink.getElem?_handled hsees (hinput c hc) hn
  have hresponse : ∀ (n : Nat) response, c.connection.responses[n]? = some response → _ :=
    fun n response hn => hattributed.getElem?_responses hc hresponses hdecoded hn
  refine ⟨horders, hresponse, hlink.report hsees
    (hserved.everyClient_kept hfault c hc).output fun response hzero => ?_⟩
  obtain ⟨block, hblock, enterOrder, orderId, hdecoded, rfl⟩ := hresponse 0 response hzero
  obtain ⟨intent, taken, -, hdecoded'⟩ := horders 0 block hblock
  cases hdecoded.symm.trans hdecoded'
  exact ⟨intent, orderId, rfl⟩

/-- The order behind the sample file. -/
def sampleOrder : OrderIntent := ⟨1001, .buy, MarketDataStrategyConsumer.aapl, 101, 10⟩

/-- The response to it, as the first order of the exchange. -/
def sampleResponse : List UInt8 :=
  (AcceptedEncoder.encode
    (ExchangeOuchHandler.accept (OuchExecutionSink.enterOrder 1 sampleOrder) 1001)).toList

/-- The session takes the message at once, and the response comes in two pieces. -/
def sampleProcess (turns : List ReplayTurn) : TradingProcess where
  answers :=
    { context := some 1
      certificateLoaded := true
      socket := some 3
      addressParsed := true
      connected := true
      session := some 5
      attached := true
      hasParameters := true
      addressExpected := true
      handshake := true
      verified := true
      peer := ⟨[.bytes 46], [.bytes 30, .bytes 40], sampleResponse⟩ }
  file := TradingRuntime.sampleFile
  stdHash := UInt64.toNat
  buffer := fun _ => {}
  turns := turns

/-- The client is accepted, sends its order and is answered. -/
def firstOrder : List Reply :=
  tlsStart ++ [.events [.listen], .done,
    .connection 5 (.ready 901) (ReferenceDesk.message 1 sampleOrder), .again, .done,
    .events [.client 5 false false true], .done, .done, .done, .done,
    .events [.client 5 false false true], .done, .bytes 46, .bytes 63, .wantRead]

open MarketDataStrategyConsumer in
/-- The runtime's own strategy on the sample file, with one order that is accepted. -/
theorem orders_reach_exchange_first_order :
    ∃ turns desk,
      (sampleProcess turns).desk (runtimeStrategy Double).onMarketData = .ok desk ∧
      desk.transport.report = .accepted 1 ∧
      ((init 8080 1001 (.init UInt64.toNat) true).run firstOrder).fault = none ∧
      ((init 8080 1001 (.init UInt64.toNat) true).run firstOrder).calls.length = 1 := by
  obtain ⟨turns, -, hconsumed⟩ :=
    TradingRuntime.replay_drops (fun _ => {}) TradingRuntime.sampleFile_wellFormed
  have hevents : (sampleProcess turns).consumed = fileFeed TradingRuntime.sampleFile :=
    hconsumed.trans (by decide +kernel)
  obtain ⟨desk, hok, hfollows⟩ := Follows.of_fit runtimeStrategy_sees TlsOuchTransport.send
    UInt64.toNat (sampleProcess []).transport TradingRuntime.sampleFile_fit
  have hdesk : (sampleProcess turns).desk (runtimeStrategy Double).onMarketData = .ok desk := by
    rw [TradingProcess.desk, hevents]
    exact hok
  have htransport : desk.transport = _ := hfollows.transport
  have hclients : ((init 8080 1001 (.init UInt64.toNat) true).run firstOrder).everyClient.map
      (fun c => (c.connection.stream, c.connection.sent)) =
        [(ReferenceDesk.message 1 sampleOrder, sampleResponse)] := by
    decide +kernel
  have hlinked : ∀ c ∈ ((init 8080 1001 (.init UInt64.toNat) true).run firstOrder).everyClient,
      Linked (runtimeStrategy Double).onMarketData (sampleProcess turns) desk c := by
    intro c hc
    have hmem := List.mem_map_of_mem (f := fun c => (c.connection.stream, c.connection.sent)) hc
    rw [hclients] at hmem
    obtain ⟨hstream, hsent⟩ := Prod.mk.inj (List.mem_singleton.mp hmem)
    refine ⟨TradingRuntime.sampleFile_fit, rfl, hdesk, ?_, ?_, ?_⟩
    · rw [hstream, htransport]
      decide +kernel
    · rw [htransport]
      decide +kernel
    · rw [hsent]
      exact List.prefix_refl _
  have h := orders_reach_exchange runtimeStrategy_sees (fun _ => sampleProcess turns)
    (fun _ => desk) 8080 1001 UInt64.toNat firstOrder (by decide +kernel) hlinked
    (by decide +kernel)
  refine ⟨turns, desk, hdesk, ?_, h.1, by decide +kernel⟩
  rw [htransport]
  decide +kernel

end ExchangeRuntime

end OpenHft
