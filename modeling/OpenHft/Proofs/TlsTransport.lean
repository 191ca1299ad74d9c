import OpenHft.Model.TlsTransport

/-!
# The life of a TLS transport

Between calls the transport has a session, a socket and a context, or none of them. `connect`
passes through states with some of them, and every way out of it that fails closes what there
is, but for the first, where there is nothing yet. So the ledger stays in order without
anything being asked of the system, and a transport that is connected is one whose server
was verified. On the session, every `send` puts its message or a front part of it on the
wire, and every `receive` takes the next bytes.
-/

namespace OpenHft

open Lib

namespace TlsOuchTransport

variable {t t' : TlsOuchTransport} {answers : ConnectAnswers}

/-! ## The loops -/

theorem sendLoop_spec {data taken taken' : List UInt8} {totalSent : Nat} {sent : Bool}
    {results results' : List SslResult} (hle : totalSent ≤ data.length)
    (h : sendLoop data totalSent taken results = (sent, taken', results')) :
    ∃ part, taken' = taken ++ part ∧ part <+: data.drop totalSent ∧
      (sent = true → part = data.drop totalSent) := by
  induction results generalizing totalSent taken with
  | nil =>
      rw [sendLoop] at h
      simp only [Prod.mk.injEq] at h
      obtain ⟨hsent, rfl, -⟩ := h
      refine ⟨[], (List.append_nil _).symm, List.nil_prefix, fun htrue => ?_⟩
      rw [← hsent] at htrue
      rw [List.drop_eq_nil_of_le (of_decide_eq_true htrue)]
  | cons answer results ih =>
      unfold sendLoop at h
      by_cases hlt : totalSent < data.length
      · rw [if_pos hlt] at h
        cases answer with
        | failed =>
            simp only [Prod.mk.injEq] at h
            obtain ⟨hsent, rfl, -⟩ := h
            exact ⟨[], (List.append_nil _).symm, List.nil_prefix,
              fun htrue => absurd (hsent.trans htrue) Bool.false_ne_true⟩
        | bytes more =>
            obtain ⟨part, htaken, hpart, hwhole⟩ := ih (by omega) h
            have hsplit : data.drop totalSent =
                (data.drop totalSent).take (min (more + 1) (data.length - totalSent)) ++
                  data.drop (totalSent + min (more + 1) (data.length - totalSent)) := by
              rw [← List.drop_drop, List.take_append_drop]
            refine ⟨(data.drop totalSent).take (min (more + 1) (data.length - totalSent)) ++ part,
              ?_, ?_, fun htrue => ?_⟩
            · rw [htaken, List.append_assoc]
            · have hfront := (List.prefix_append_right_inj
                ((data.drop totalSent).take (min (more + 1) (data.length - totalSent)))).mpr hpart
              rwa [← hsplit] at hfront
            · rw [hwhole htrue]
              exact hsplit.symm
      · rw [if_neg hlt] at h
        simp only [Prod.mk.injEq] at h
        obtain ⟨-, rfl, -⟩ := h
        refine ⟨[], (List.append_nil _).symm, List.nil_prefix, fun _ => ?_⟩
        rw [List.drop_eq_nil_of_le (by omega)]

theorem receiveLoop_spec {length : Nat} {received received' incoming incoming' : List UInt8}
    {filled : Bool} {results results' : List SslResult} (hle : received.length ≤ length)
    (h : receiveLoop length received incoming results =
      (filled, received', incoming', results')) :
    received ++ incoming = received' ++ incoming' ∧ received'.length ≤ length ∧
      (filled = true → received'.length = length) := by
  induction results generalizing received incoming with
  | nil =>
      rw [receiveLoop] at h
      simp only [Prod.mk.injEq] at h
      obtain ⟨hfilled, rfl, rfl, -⟩ := h
      refine ⟨rfl, hle, fun htrue => ?_⟩
      rw [← hfilled] at htrue
      exact Nat.le_antisymm hle (of_decide_eq_true htrue)
  | cons answer results ih =>
      unfold receiveLoop at h
      by_cases hlt : received.length < length
      · rw [if_pos hlt] at h
        have hstop : (false, received, incoming, results) =
            (filled, received', incoming', results') →
            received ++ incoming = received' ++ incoming' ∧ received'.length ≤ length ∧
              (filled = true → received'.length = length) := by
          intro heq
          cases heq
          exact ⟨rfl, hle, fun htrue => absurd htrue Bool.false_ne_true⟩
        cases answer with
        | failed => exact hstop h
        | bytes more =>
            cases incoming with
            | nil => exact hstop h
            | cons byte rest =>
                obtain ⟨hstream, hlength, hfull⟩ := ih (by
                  simp only [List.length_append, List.length_cons, List.length_take]
                  omega) h
                refine ⟨?_, hlength, hfull⟩
                rw [← hstream, List.append_assoc, List.cons_append, List.take_append_drop]
      · rw [if_neg hlt] at h
        simp only [Prod.mk.injEq] at h
        obtain ⟨-, rfl, rfl, -⟩ := h
        exact ⟨rfl, hle, fun _ => by omega⟩

/-! ## Calls -/

/-- The server is the one that was meant: its certificate is signed by the authority that was
loaded and is for its address. -/
structure Trusted (answers : ConnectAnswers) : Prop where
  authority : answers.certificateLoaded = true
  address : answers.addressExpected = true
  handshake : answers.handshake = true
  verified : answers.verified = true

/-- A message, and what of it is on the wire. -/
def Part (message : List UInt8 × Bool) (part : List UInt8) : Prop :=
  part <+: message.1 ∧ (message.2 = true → part = message.1)

/-- What holds in the middle of a call. -/
structure Kept (t : TlsOuchTransport) : Prop where
  balanced : Ledger.Balances t.log t.handles
  sent : ∃ parts, List.Forall₂ Part t.sends parts ∧ t.wire = parts.flatten
  filled : ∀ x ∈ t.receives, x.2.1.length ≤ x.1 ∧ (x.2.2 = true → x.2.1.length = x.1)

/-- What holds between calls. -/
structure Sound (t : TlsOuchTransport) : Prop extends Kept t where
  whole : t.handles = [] ∨ ∃ ssl fd context,
    t.ssl = some ssl ∧ t.socketFd = some fd ∧ t.sslContext = some context
  established : t.established.isSome = t.isConnected
  trusted : ∀ answers, t.established = some answers → Trusted answers
  received : ∀ answers, t.established = some answers →
    answers.peer.incoming = (t.receives.map fun x => x.2.1).flatten ++ t.peer.incoming

theorem handles_eq_nil (h : t.handles = []) :
    t.ssl = none ∧ t.socketFd = none ∧ t.sslContext = none := by
  unfold handles at h
  simpa using h

theorem Kept.close (h : Kept t) : Sound t.close where
  balanced := by
    have hall : Ledger.Balances t.log (t.handles ++ []) := by
      rw [List.append_nil]
      exact h.balanced
    exact hall.release_all
  sent := h.sent
  filled := h.filled
  whole := .inl rfl
  established := rfl
  trusted := fun answers ha => by cases ha
  received := fun answers ha => by cases ha

/-- Something is taken that goes in front of what there is. -/
theorem Kept.acquire (h : Kept t) (handle : Handle) (hnot : handle ∉ t.handles)
    (hhandles : t'.handles = handle :: t.handles) (hlog : t'.log = t.log ++ [.acquire handle])
    (hsends : t'.sends = t.sends ∧ t'.wire = t.wire ∧ t'.receives = t.receives) : Kept t' := by
  obtain ⟨hsends, hwire, hreceives⟩ := hsends
  refine ⟨?_, ?_, ?_⟩
  · rw [hlog, hhandles]
    exact h.balanced.acquire hnot
  · rw [hsends, hwire]
    exact h.sent
  · rw [hreceives]
    exact h.filled

theorem Sound.none_of_not_connected (h : Sound t) (hc : t.isConnected = false) :
    t.ssl = none ∧ t.socketFd = none ∧ t.sslContext = none := by
  rcases h.whole with hnil | ⟨ssl, fd, context, hssl, hfd, -⟩
  · exact handles_eq_nil hnil
  · rw [isConnected, hssl, hfd] at hc
    cases hc

theorem Kept.secure (h : Kept t) {ssl fd context : Nat} (hssl : t.ssl = some ssl)
    (hfd : t.socketFd = some fd) (hcontext : t.sslContext = some context)
    (hloaded : answers.certificateLoaded = true) : Sound (t.secure answers).2 := by
  unfold TlsOuchTransport.secure
  by_cases hattached : answers.attached = false
  · rw [if_pos hattached]
    exact h.close
  by_cases hparameters : answers.hasParameters = false
  · rw [if_neg hattached, if_pos hparameters]
    exact h.close
  by_cases haddress : answers.addressExpected = false
  · rw [if_neg hattached, if_neg hparameters, if_pos haddress]
    exact h.close
  by_cases hhandshake : answers.handshake = false
  · rw [if_neg hattached, if_neg hparameters, if_neg haddress, if_pos hhandshake]
    exact h.close
  by_cases hverified : answers.verified = false
  · rw [if_neg hattached, if_neg hparameters, if_neg haddress, if_neg hhandshake,
      if_pos hverified]
    exact h.close
  rw [if_neg hattached, if_neg hparameters, if_neg haddress, if_neg hhandshake,
    if_neg hverified]
  exact
    { balanced := h.balanced
      sent := ⟨[], .nil, rfl⟩
      filled := fun x hx => absurd hx List.not_mem_nil
      whole := .inr ⟨ssl, fd, context, hssl, hfd, hcontext⟩
      established := by
        show true = (t.socketFd.isSome && t.ssl.isSome)
        rw [hfd, hssl]
        rfl
      trusted := by
        intro a ha
        cases ha
        exact ⟨hloaded, by simpa using haddress, by simpa using hhandshake,
          by simpa using hverified⟩
      received := by
        intro a ha
        cases ha
        rfl }

theorem Kept.reach (h : Kept t) {fd context : Nat} (hssl : t.ssl = none)
    (hfd : t.socketFd = some fd) (hcontext : t.sslContext = some context)
    (hloaded : answers.certificateLoaded = true) : Sound (t.reach answers).2 := by
  unfold TlsOuchTransport.reach
  by_cases hparsed : answers.addressParsed = false
  · rw [if_pos hparsed]
    exact h.close
  by_cases hconnected : answers.connected = false
  · rw [if_neg hparsed, if_pos hconnected]
    exact h.close
  rw [if_neg hparsed, if_neg hconnected]
  have hhandles : t.handles = [.descriptor fd, .context context] := by
    rw [handles, hssl, hfd, hcontext]
    rfl
  cases hsession : answers.session with
  | none =>
      have hsame : { t with ssl := none } = t := by rw [← hssl]
      dsimp only
      rw [hsame]
      exact h.close
  | some ssl =>
      refine Kept.secure (h.acquire (.session ssl) ?_ ?_ rfl ⟨rfl, rfl, rfl⟩) rfl hfd hcontext
        hloaded
      · rw [hhandles]
        simp
      · show [.session ssl] ++ ((t.socketFd.map Handle.descriptor).toList ++
          (t.sslContext.map Handle.context).toList) = _
        rw [hhandles, hfd, hcontext]
        rfl

theorem Sound.connect (h : Sound t) (answers : ConnectAnswers) :
    Sound (t.connect answers).2 := by
  unfold TlsOuchTransport.connect
  by_cases hc : t.isConnected = true
  · rw [if_pos hc]
    exact h
  obtain ⟨hssl, hfd, hcontext⟩ := h.none_of_not_connected (by simpa using hc)
  have hhandles : t.handles = [] := by
    rw [handles, hssl, hfd, hcontext]
    rfl
  rw [if_neg hc]
  cases hnew : answers.context with
  | none =>
      have hsame : { t with sslContext := none } = t := by rw [← hcontext]
      dsimp only
      rw [hsame]
      exact h
  | some context =>
      have hkept : Kept { t.acquire (.context context) with sslContext := some context } := by
        refine h.toKept.acquire (.context context) ?_ ?_ rfl ⟨rfl, rfl, rfl⟩
        · rw [hhandles]
          exact List.not_mem_nil
        · show (t.ssl.map Handle.session).toList ++ ((t.socketFd.map Handle.descriptor).toList ++
            [.context context]) = _
          rw [hhandles, hssl, hfd]
          rfl
      by_cases hloaded : answers.certificateLoaded = false
      · dsimp only
        rw [if_pos hloaded]
        exact hkept.close
      dsimp only
      rw [if_neg hloaded]
      cases hsocket : answers.socket with
      | none =>
          have hsame : { ({ t.acquire (.context context) with sslContext := some context } :
              TlsOuchTransport) with socketFd := none } =
              { t.acquire (.context context) with sslContext := some context } := by
            rw [← hfd]
            rfl
          dsimp only at hsame ⊢
          rw [hsame]
          exact hkept.close
      | some fd =>
          refine Kept.reach (hkept.acquire (.descriptor fd) ?_ ?_ rfl ⟨rfl, rfl, rfl⟩) hssl rfl rfl
            (by simpa using hloaded)
          · show Handle.descriptor fd ∉ (t.ssl.map Handle.session).toList ++
              ((t.socketFd.map Handle.descriptor).toList ++ [.context context])
            rw [hssl, hfd]
            simp
          · show (t.ssl.map Handle.session).toList ++ ([.descriptor fd] ++ [.context context]) =
              .descriptor fd :: ((t.ssl.map Handle.session).toList ++
                ((t.socketFd.map Handle.descriptor).toList ++ [.context context]))
            rw [hssl, hfd]
            rfl

theorem Sound.send (h : Sound t) (data : List UInt8) : Sound (TlsOuchTransport.send data t).2 := by
  unfold TlsOuchTransport.send
  by_cases hc : t.isConnected = false
  · rw [if_pos hc]
    exact h
  rw [if_neg hc]
  generalize hloop : sendLoop data 0 [] t.peer.writes = out
  obtain ⟨sent, taken, writes⟩ := out
  obtain ⟨part, htaken, hpart, hwhole⟩ := sendLoop_spec (Nat.zero_le _) hloop
  rw [List.drop_zero] at hpart hwhole
  rw [List.nil_append] at htaken
  obtain ⟨parts, hparts, hwire⟩ := h.sent
  exact
    { balanced := h.balanced
      sent := by
        refine ⟨parts ++ [part], ?_, ?_⟩
        · exact List.rel_append hparts (.cons ⟨hpart, hwhole⟩ .nil)
        · show t.wire ++ taken = _
          rw [hwire, htaken, List.flatten_append, List.flatten_singleton]
      filled := h.filled
      whole := h.whole
      established := h.established
      trusted := h.trusted
      received := h.received }

theorem Sound.receive (h : Sound t) (length : Nat) : Sound (t.receive length).2.2 := by
  unfold TlsOuchTransport.receive
  by_cases hc : t.isConnected = false
  · rw [if_pos hc]
    exact h
  rw [if_neg hc]
  generalize hloop : receiveLoop length [] t.peer.incoming t.peer.reads = out
  obtain ⟨filled, received, incoming, reads⟩ := out
  obtain ⟨hstream, hlength, hfull⟩ := receiveLoop_spec (Nat.zero_le _) hloop
  exact
    { balanced := h.balanced
      sent := h.sent
      filled := by
        intro x hx
        rcases List.mem_append.mp hx with hx | hx
        · exact h.filled x hx
        · rw [List.mem_singleton.mp hx]
          exact ⟨hlength, hfull⟩
      whole := h.whole
      established := h.established
      trusted := h.trusted
      received := by
        intro answers ha
        rw [h.received answers ha]
        dsimp only
        rw [List.map_append, List.flatten_append, List.append_assoc]
        rw [List.nil_append] at hstream
        rw [hstream]
        simp }

theorem sound_init : Sound {} where
  balanced := .empty
  sent := ⟨[], .nil, rfl⟩
  filled := fun x hx => absurd hx List.not_mem_nil
  whole := .inl rfl
  established := rfl
  trusted := fun answers ha => by cases ha
  received := fun answers ha => by cases ha

theorem Sound.step (h : Sound t) (call : TlsCall) : Sound (t.step call) := by
  cases call with
  | connect answers => exact h.connect answers
  | send data => exact h.send data
  | receive length => exact h.receive length
  | close => exact h.close

theorem Sound.run (h : Sound t) (calls : List TlsCall) : Sound (t.run calls) := by
  induction calls generalizing t with
  | nil => exact h
  | cons call calls ih => exact ih (h.step call)

/-! ## Whose session it is -/

/-- A call leaves the session that holds, ends it, or is the `connect` that began it. -/
def Begins (t : TlsOuchTransport) (call : TlsCall) (t' : TlsOuchTransport) : Prop :=
  t'.established = t.established ∨ t'.established = none ∨
    ∃ answers, call = .connect answers ∧ t'.established = some answers

theorem secure_established (t : TlsOuchTransport) (answers : ConnectAnswers) :
    (t.secure answers).2.established = none ∨
      (t.secure answers).2.established = some answers := by
  unfold secure
  split_ifs
  all_goals first | exact .inl rfl | exact .inr rfl

theorem reach_established (t : TlsOuchTransport) (answers : ConnectAnswers) :
    (t.reach answers).2.established = none ∨ (t.reach answers).2.established = some answers := by
  unfold reach
  by_cases hparsed : answers.addressParsed = false
  · rw [if_pos hparsed]
    exact .inl rfl
  by_cases hconnected : answers.connected = false
  · rw [if_neg hparsed, if_pos hconnected]
    exact .inl rfl
  rw [if_neg hparsed, if_neg hconnected]
  cases answers.session with
  | none => exact .inl rfl
  | some ssl => exact secure_established _ answers

theorem connect_established (t : TlsOuchTransport) (answers : ConnectAnswers) :
    Begins t (.connect answers) (t.connect answers).2 := by
  unfold connect
  by_cases hc : t.isConnected = true
  · rw [if_pos hc]
    exact .inl rfl
  rw [if_neg hc]
  cases answers.context with
  | none => exact .inl rfl
  | some context =>
      dsimp only
      by_cases hloaded : answers.certificateLoaded = false
      · rw [if_pos hloaded]
        exact .inr (.inl rfl)
      rw [if_neg hloaded]
      cases answers.socket with
      | none => exact .inr (.inl rfl)
      | some fd =>
          rcases reach_established _ answers with hnone | hsome
          · exact .inr (.inl hnone)
          · exact .inr (.inr ⟨answers, rfl, hsome⟩)

theorem step_begins (t : TlsOuchTransport) (call : TlsCall) : Begins t call (t.step call) := by
  cases call with
  | connect answers => exact connect_established t answers
  | send data =>
      refine .inl ?_
      unfold step send
      dsimp only
      split_ifs
      · rfl
      · rfl
  | receive length =>
      refine .inl ?_
      unfold step receive
      dsimp only
      split_ifs
      · rfl
      · rfl
  | close => exact .inr (.inl rfl)

theorem established_run {calls : List TlsCall} {answers : ConnectAnswers}
    (h : (t.run calls).established = some answers) :
    t.established = some answers ∨ .connect answers ∈ calls := by
  induction calls generalizing t with
  | nil => exact .inl h
  | cons call calls ih =>
      rcases ih h with hafter | hmem
      · rcases t.step_begins call with hsame | hnone | ⟨answers', rfl, hsome⟩
        · exact .inl (hsame ▸ hafter)
        · cases hnone.symm.trans hafter
        · cases hsome.symm.trans hafter
          exact .inr List.mem_cons_self
      · exact .inr (List.mem_cons_of_mem call hmem)

/-- Over any calls, whatever OpenSSL and the system answer: nothing is given back that is not
held, between calls the transport holds a session, a socket and a context or nothing, and
closing it leaves nothing. It is connected only to a server that was verified in a call of
`connect`. Every message of the session is on the wire, whole if `send` returned `true` and
else a front part, in the order of the calls; the calls of `receive` have taken the bytes of
the session in order, and as many as were asked for if they returned `true`. -/
theorem transport_lifecycle (calls : List TlsCall) :
    let t := ({} : TlsOuchTransport).run calls
    Ledger.InOrder [] t.log ∧ (Ledger.held [] t.log).Perm t.handles ∧
      (t.handles = [] ∨ ∃ ssl fd context,
        t.handles = [.session ssl, .descriptor fd, .context context]) ∧
      Ledger.held [] t.close.log = [] ∧
      (t.isConnected = true ↔ ∃ answers, t.established = some answers) ∧
      (∀ answers, t.established = some answers → .connect answers ∈ calls ∧ Trusted answers ∧
        answers.peer.incoming = (t.receives.map fun x => x.2.1).flatten ++ t.peer.incoming) ∧
      (∃ parts, List.Forall₂ Part t.sends parts ∧ t.wire = parts.flatten) ∧
      ∀ x ∈ t.receives, x.2.1.length ≤ x.1 ∧ (x.2.2 = true → x.2.1.length = x.1) := by
  intro t
  have h : Sound t := sound_init.run calls
  refine ⟨h.balanced.inOrder, h.balanced.held, ?_, h.toKept.close.balanced.held_nil, ?_,
    fun answers ha => ⟨?_, h.trusted answers ha, h.received answers ha⟩, h.sent, h.filled⟩
  · rcases h.whole with hnil | ⟨ssl, fd, context, hssl, hfd, hcontext⟩
    · exact .inl hnil
    · refine .inr ⟨ssl, fd, context, ?_⟩
      rw [handles, hssl, hfd, hcontext]
      rfl
  · rw [← h.established, Option.isSome_iff_exists]
  · rcases established_run ha with hnone | hmem
    · cases hnone
    · exact hmem

end TlsOuchTransport

end OpenHft
