import OpenHft.Model.TcpTransport

/-!
# The stream of orders

A call of `send` that fails may have sent a part of its message. Nothing remembers that:
the socket stays open, and the next call begins with the first byte of the next message. So
the stream is made of whole messages for as long as no byte follows a message that was cut
off, and this is up to the kernel. Which answers of the kernel these are is said without the
messages, on the count of bytes alone.
-/

namespace OpenHft

open TcpOuchTransport

/-- The bytes that the kernel has taken. -/
def stream (calls : List SendCall) : List UInt8 := calls.flatMap SendCall.taken

/-- A call that returned `false` took no byte, or the last. -/
def FailedLast (calls : List SendCall) : Prop :=
  ∀ front call back, calls = front ++ call :: back → call.result = some false →
    call.taken = [] ∨ stream back = []

/-- The bytes are messages in the order of the calls, and behind them a message may be cut
off. -/
def WholeMessages (messages : List OuchEncoder.Buffer) (bytes : List UInt8) : Prop :=
  ∃ whole cut, bytes = whole.flatMap Vector.toList ++ cut ∧
    ((cut = [] ∧ whole.Sublist messages) ∨
      ∃ message : OuchEncoder.Buffer, cut <+: message.toList ∧ cut ≠ message.toList ∧
        (whole ++ [message]).Sublist messages)

/-- The kernel takes nothing in so many calls. -/
def Silent : Nat → List SendResult → Prop
  | 0, _ => True
  | _ + 1, [] => True
  | calls + 1, .interrupted :: results => Silent (calls + 1) results
  | calls + 1, .failed :: results => Silent calls results
  | _ + 1, .sent _ :: _ => False

/-- In so many calls for messages of this size, `offset` bytes into the first, the kernel
takes nothing more once it has failed inside a message. -/
def QuietAfterCut (size : Nat) : Nat → Nat → List SendResult → Prop
  | 0, _, _ => True
  | _ + 1, _, [] => True
  | calls + 1, offset, .interrupted :: results => QuietAfterCut size (calls + 1) offset results
  | calls + 1, offset, .sent more :: results =>
      if offset + (more + 1) < size then
        QuietAfterCut size (calls + 1) (offset + (more + 1)) results
      else QuietAfterCut size calls 0 results
  | calls + 1, offset, .failed :: results =>
      if offset = 0 then QuietAfterCut size calls 0 results else Silent calls results

/-! ## One call -/

section Loop

variable {data taken : List UInt8} {totalSent calls : Nat} {results : List SendResult}

/-- What a call leaves. -/
structure Left (data taken : List UInt8) (outcome : SendOutcome) : Prop where
  /-- no byte is taken back -/
  before : taken <+: outcome.taken
  front : outcome.taken <+: data
  all : outcome.result = some true ↔ outcome.taken = data
  waits : outcome.result = none → outcome.results = []

theorem left_all (htaken : taken = data.take totalSent) (hall : ¬ totalSent < data.length) :
    Left data taken ⟨some true, taken, results⟩ := by
  rw [List.take_of_length_le (Nat.le_of_not_lt hall)] at htaken
  subst htaken
  exact ⟨List.prefix_rfl, List.prefix_rfl, by simp, nofun⟩

theorem left_part (htaken : taken = data.take totalSent) (hlt : totalSent < data.length)
    {result : Option Bool} (hresult : result ≠ some true)
    (hwaits : result = none → results = []) : Left data taken ⟨result, taken, results⟩ := by
  refine ⟨List.prefix_rfl, htaken ▸ List.take_prefix totalSent data, ?_, hwaits⟩
  refine iff_of_false hresult fun heq => ?_
  have hlength := congrArg List.length (htaken.symm.trans heq)
  rw [List.length_take] at hlength
  omega

/-- The bytes that one answer moves over. -/
theorem take_drop_take (htaken : taken = data.take totalSent) (sent : Nat) :
    taken ++ (data.drop totalSent).take sent = data.take (totalSent + sent) := by
  rw [htaken, List.take_add]

theorem sendLoop_left (htaken : taken = data.take totalSent) (results : List SendResult) :
    Left data taken (sendLoop data totalSent taken results) := by
  fun_induction sendLoop data totalSent taken results with
  | case1 totalSent taken =>
      split
      · next hlt => exact left_part htaken hlt nofun fun _ => rfl
      · next hnot => exact left_all htaken hnot
  | case2 totalSent taken results hlt more sent ih =>
      have hleft := ih (take_drop_take htaken sent)
      exact ⟨(List.prefix_append _ _).trans hleft.before, hleft.front, hleft.all, hleft.waits⟩
  | case3 totalSent taken results hlt ih => exact ih htaken
  | case4 totalSent taken results hlt => exact left_part htaken hlt nofun nofun
  | case5 totalSent taken answer results hnot => exact left_all htaken hnot

theorem sendLoop_of_all (hall : data.length ≤ totalSent) :
    sendLoop data totalSent taken results = ⟨some true, taken, results⟩ := by
  have hnot : ¬ totalSent < data.length := Nat.not_lt.mpr hall
  cases results with
  | nil => simp only [sendLoop, if_neg hnot]
  | cons answer results => cases answer <;> simp only [sendLoop, if_neg hnot]

/-- Nothing is taken in a call as long as there is no count. -/
theorem sendLoop_silent (hdata : 0 < data.length) :
    Silent (calls + 1) results ↔ (sendLoop data 0 [] results).taken = [] ∧
      Silent calls (sendLoop data 0 [] results).results := by
  induction results with
  | nil => cases calls <;> simp [Silent, sendLoop]
  | cons answer results ih =>
      cases answer with
      | sent more =>
          refine iff_of_false id fun ⟨hnone, _⟩ => ?_
          simp only [sendLoop, if_pos hdata] at hnone
          have hbefore := (sendLoop_left (take_drop_take (List.take_zero (l := data)).symm
            (min (more + 1) (data.length - 0))) results).before
          rw [hnone, List.prefix_nil] at hbefore
          have hlength := congrArg List.length hbefore
          simp only [List.length_append, List.length_take, List.length_nil, List.length_drop]
            at hlength
          omega
      | interrupted => simpa only [Silent, sendLoop, if_pos hdata] using ih
      | failed => simp [Silent, sendLoop, if_pos hdata]

/-- Where a call leaves the kernel's answers. -/
theorem sendLoop_quiet (htaken : taken = data.take totalSent) (hlt : totalSent < data.length)
    (calls : Nat) (results : List SendResult) :
    QuietAfterCut data.length (calls + 1) totalSent results ↔
      match (sendLoop data totalSent taken results).result with
      | none => True
      | some true =>
          QuietAfterCut data.length calls 0 (sendLoop data totalSent taken results).results
      | some false =>
          if (sendLoop data totalSent taken results).taken = [] then
            QuietAfterCut data.length calls 0 (sendLoop data totalSent taken results).results
          else Silent calls (sendLoop data totalSent taken results).results := by
  fun_induction sendLoop data totalSent taken results with
  | case1 totalSent taken => simp only [QuietAfterCut, if_pos hlt]
  | case2 totalSent taken results hlt more sent ih =>
      rw [QuietAfterCut]
      split
      · next hinside =>
          have hsent : sent = more + 1 := Nat.min_eq_left (by omega)
          rw [← hsent]
          exact ih (take_drop_take htaken sent) (by omega)
      · next hbeyond =>
          have hsent : totalSent + sent = data.length := by
            show totalSent + min (more + 1) (data.length - totalSent) = _
            omega
          rw [sendLoop_of_all (Nat.le_of_eq hsent.symm)]
  | case3 totalSent taken results hlt ih => exact ih htaken hlt
  | case4 totalSent taken results hlt' =>
      have hnone : taken = [] ↔ totalSent = 0 := by
        rw [htaken, List.take_eq_nil_iff]
        refine or_iff_left fun hnil => ?_
        rw [hnil] at hlt
        cases hlt
      simp only [QuietAfterCut, hnone]
  | case5 totalSent taken answer results hnot => exact absurd hlt hnot

end Loop

/-! ## Calls -/

variable {transport : TcpOuchTransport} {messages : List OuchEncoder.Buffer}
  {message : OuchEncoder.Buffer} {results : List SendResult} {call : SendCall}
  {calls : List SendCall}

theorem failedLast_cons : FailedLast (call :: calls) ↔
    (call.result = some false → call.taken = [] ∨ stream calls = []) ∧ FailedLast calls := by
  constructor
  · intro h
    refine ⟨h [] call calls rfl, fun front call' back heq => ?_⟩
    exact h (call :: front) call' back (congrArg (call :: ·) heq)
  · rintro ⟨hfirst, hrest⟩ front call' back heq
    cases front with
    | nil =>
        cases heq
        exact hfirst
    | cons first front =>
        cases heq
        exact hrest front call' back rfl

theorem failedLast_nil : FailedLast [] := by
  intro front call back heq
  cases front <;> cases heq

theorem stream_cons (call : SendCall) (calls : List SendCall) :
    stream (call :: calls) = call.taken ++ stream calls := List.flatMap_cons

theorem send_connected (hfd : transport.isConnected = true) (message : OuchEncoder.Buffer)
    (results : List SendResult) :
    transport.send message.toList results = sendLoop message.toList 0 [] results := by
  rw [send, if_neg (by rw [hfd]; exact Bool.noConfusion)]

theorem send_left (hfd : transport.isConnected = true) (message : OuchEncoder.Buffer)
    (results : List SendResult) :
    Left message.toList [] (transport.send message.toList results) := by
  rw [send_connected hfd]
  exact sendLoop_left (List.take_zero (l := message.toList)).symm results

theorem message_pos (message : OuchEncoder.Buffer) : 0 < message.toList.length := by
  rw [Vector.length_toList]
  decide

/-- The calls in which the kernel takes nothing. -/
theorem stream_sends_nil_iff (hfd : transport.isConnected = true) :
    stream (transport.sends messages results) = [] ↔ Silent messages.length results := by
  induction messages generalizing results with
  | nil => simp [sends, stream, Silent]
  | cons message messages ih =>
      have hleft := send_left hfd message results
      rw [List.length_cons, sendLoop_silent (message_pos message), ← send_connected hfd, sends,
        stream_cons, List.append_eq_nil_iff]
      refine and_congr_right fun _ => ?_
      cases hresult : (transport.send message.toList results).result with
      | none =>
          rw [hleft.waits hresult]
          cases messages <;> simp [stream, Silent]
      | some result => exact ih

theorem Silent.quietAfterCut {size count : Nat} (h : Silent count results) :
    QuietAfterCut size count 0 results := by
  induction results generalizing count with
  | nil => cases count <;> trivial
  | cons answer results ih =>
      cases count with
      | zero => trivial
      | succ count =>
          cases answer with
          | sent more => exact h.elim
          | interrupted => exact ih h
          | failed => exact ih h

/-- The calls in which no byte follows a message that was cut off. -/
theorem failedLast_sends_iff (hfd : transport.isConnected = true) :
    FailedLast (transport.sends messages results) ↔
      QuietAfterCut 47 messages.length 0 results := by
  induction messages generalizing results with
  | nil => simp [sends, failedLast_nil, QuietAfterCut]
  | cons message messages ih =>
      have hsize : message.toList.length = 47 := Vector.length_toList
      have hquiet := sendLoop_quiet (List.take_zero (l := message.toList)).symm
        (message_pos message) messages.length results
      rw [hsize, ← send_connected hfd] at hquiet
      rw [List.length_cons, hquiet, sends, failedLast_cons]
      cases hresult : (transport.send message.toList results).result with
      | none => simp [failedLast_nil]
      | some result =>
          cases result with
          | true => simp [ih]
          | false =>
              dsimp only
              rw [stream_sends_nil_iff hfd, ih]
              split
              · next hnone => exact and_iff_right fun _ => .inl hnone
              · next hsome =>
                  constructor
                  · rintro ⟨hcut, -⟩
                    exact (hcut rfl).resolve_left hsome
                  · intro hsilent
                    exact ⟨fun _ => .inr hsilent, hsilent.quietAfterCut⟩

namespace WholeMessages

variable {bytes : List UInt8}

/-- Nothing but a part of the first message. -/
theorem part (hpart : bytes <+: message.toList) (hproper : bytes ≠ message.toList) :
    WholeMessages (message :: messages) bytes :=
  ⟨[], bytes, rfl, .inr ⟨message, hpart, hproper, List.singleton_sublist.mpr List.mem_cons_self⟩⟩

theorem skip (h : WholeMessages messages bytes) : WholeMessages (message :: messages) bytes := by
  obtain ⟨whole, cut, hbytes, hcase⟩ := h
  refine ⟨whole, cut, hbytes, hcase.imp ?_ ?_⟩
  · rintro ⟨hcut, hsub⟩
    exact ⟨hcut, hsub.cons message⟩
  · rintro ⟨last, hpart, hproper, hsub⟩
    exact ⟨last, hpart, hproper, hsub.cons message⟩

theorem add (h : WholeMessages messages bytes) :
    WholeMessages (message :: messages) (message.toList ++ bytes) := by
  obtain ⟨whole, cut, hbytes, hcase⟩ := h
  refine ⟨message :: whole, cut, ?_, hcase.imp ?_ ?_⟩
  · rw [hbytes, List.flatMap_cons, List.append_assoc]
  · rintro ⟨hcut, hsub⟩
    exact ⟨hcut, hsub.cons_cons message⟩
  · rintro ⟨last, hpart, hproper, hsub⟩
    exact ⟨last, hpart, hproper, hsub.cons_cons message⟩

end WholeMessages

/-- If no byte follows a message that was cut off, all the others are whole. -/
theorem wholeMessages_of_failedLast (hfd : transport.isConnected = true)
    (h : FailedLast (transport.sends messages results)) :
    WholeMessages messages (stream (transport.sends messages results)) := by
  induction messages generalizing results with
  | nil => exact ⟨[], [], rfl, .inl ⟨rfl, List.Sublist.refl _⟩⟩
  | cons message messages ih =>
      have hleft := send_left hfd message results
      rw [sends, failedLast_cons] at h
      rw [sends, stream_cons]
      obtain ⟨hfirst, hrest⟩ := h
      cases hresult : (transport.send message.toList results).result with
      | none =>
          have hproper := hleft.all.not.mp (by rw [hresult]; exact nofun)
          rw [show stream [] = [] from rfl, List.append_nil]
          exact .part hleft.front hproper
      | some result =>
          rw [hresult] at hrest hfirst
          cases result with
          | true =>
              dsimp only
              rw [hleft.all.mp hresult]
              exact (ih hrest).add
          | false =>
              rcases hfirst rfl with hnone | hlast
              · dsimp only at hnone ⊢
                rw [hnone]
                exact (ih hrest).skip
              · have hproper := hleft.all.not.mp (by rw [hresult]; exact nofun)
                dsimp only at hlast ⊢
                rw [hlast, List.append_nil]
                exact .part hleft.front hproper

/-- The stream is made of whole messages, but for one that nothing follows, exactly if the
kernel takes nothing more once it has failed inside a message. -/
theorem send_stream_whole_iff (fd : Nat) (messages : List OuchEncoder.Buffer)
    (results : List SendResult) :
    (WholeMessages messages (stream (sends ⟨fd⟩ messages results)) ∧
      FailedLast (sends ⟨fd⟩ messages results)) ↔
        QuietAfterCut 47 messages.length 0 results := by
  have hfd : (TcpOuchTransport.mk fd).isConnected = true :=
    decide_eq_true (Int.natCast_nonneg fd)
  rw [← failedLast_sends_iff hfd]
  exact and_iff_right_of_imp (wholeMessages_of_failedLast hfd)

theorem flatMap_toList_length (messages : List OuchEncoder.Buffer) :
    (messages.flatMap Vector.toList).length = 47 * messages.length := by
  induction messages with
  | nil => rfl
  | cons message messages ih =>
      rw [List.flatMap_cons, List.length_append, ih, Vector.length_toList, List.length_cons]
      omega

/-- Ten bytes of a message, an error, and all of the next message. -/
theorem cut_message_followed :
    stream (sends ⟨3⟩ [Vector.replicate 47 1, Vector.replicate 47 2]
      [.sent 9, .failed, .sent 46]) = List.replicate 10 1 ++ List.replicate 47 2 ∧
    ¬ WholeMessages [Vector.replicate 47 1, Vector.replicate 47 2]
      (List.replicate 10 1 ++ List.replicate 47 2) ∧
    ¬ FailedLast (sends ⟨3⟩ [Vector.replicate 47 1, Vector.replicate 47 2]
      [.sent 9, .failed, .sent 46]) := by
  refine ⟨by decide +kernel, ?_, fun hlast => ?_⟩
  · rintro ⟨whole, cut, hbytes, hcase⟩
    have hlength := congrArg List.length hbytes
    simp only [List.length_append, List.length_replicate, flatMap_toList_length] at hlength
    rcases hcase with ⟨rfl, -⟩ | ⟨message, hpart, hproper, hsub⟩
    · rw [List.length_nil] at hlength
      omega
    · have hcut : cut.length < 47 := by
        have hle := hpart.length_le
        have hne : cut.length ≠ message.toList.length :=
          fun heq => hproper (hpart.eq_of_length heq)
        rw [Vector.length_toList] at hle hne
        omega
      -- so there is one whole message, and it is the first
      have hone : whole.length = 1 := by omega
      have heq : whole ++ [message] = [Vector.replicate 47 1] ++ [Vector.replicate 47 2] :=
        hsub.eq_of_length (by
          rw [List.length_append, hone]
          rfl)
      obtain ⟨rfl, -⟩ := List.append_inj heq hone
      have hbyte := congrArg (·[10]?) hbytes
      have hfirst : [Vector.replicate 47 1].flatMap Vector.toList =
          List.replicate 47 (1 : UInt8) := by decide
      simp [hfirst] at hbyte
  · have hquiet := (failedLast_sends_iff (by decide)).mp hlast
    simp [QuietAfterCut, Silent] at hquiet

end OpenHft
