import OpenHft.Model.TradingRuntime
import OpenHft.Proofs.WireCodec

/-!
# Replay files

A replay file is messages one behind the other, each with its length in front of it. The
reader takes such a file apart again, and the dispatcher has an event for every message
that is well formed.
-/

namespace OpenHft

/-- A message with its length in front. -/
def frame (message : List UInt8) : List UInt8 :=
  (writeUint16 (.ofNat message.length)).toList ++ message

/-- A file of framed messages. -/
def replayFile (messages : List (List UInt8)) : List UInt8 := messages.flatMap frame

/-- The bytes that a message of each type has at least. -/
def itchSize (type : UInt8) : Option Nat :=
  if type = 'A'.toUInt8 then some 36
  else if type = 'X'.toUInt8 then some 23
  else if type = 'D'.toUInt8 then some 19
  else if type = 'E'.toUInt8 then some 31
  else if type = 'U'.toUInt8 then some 35
  else none

/-- A message of one of the five types, with all its fields, whose length fits the
prefix. -/
structure WellFormed (message : List UInt8) : Prop where
  complete : ∃ size, itchSize (message.headD 0) = some size ∧ size ≤ message.length
  short : message.length < 2 ^ 16

/-- The events that the messages stand for, in order. -/
def fileEvents (messages : List (List UInt8)) : List MarketDataEvent :=
  messages.filterMap TradingRuntime.messageEvent

variable {message : List UInt8}

theorem parseItch_isSome {α : Type} {wireSize : Nat} (fromWire : Bytes → α) (data : Bytes)
    {length : Nat} (h : wireSize ≤ length) :
    (parseItch wireSize fromWire data length).isSome = true := by
  rw [parseItch, if_neg (Nat.not_lt.mpr h)]
  rfl

theorem itchSize_pos {type : UInt8} {size : Nat} (h : itchSize type = some size) :
    0 < size := by
  rw [itchSize] at h
  split_ifs at h
  all_goals
    cases h
    decide

theorem WellFormed.length_pos (h : WellFormed message) : 0 < message.length := by
  obtain ⟨size, hsize, hle⟩ := h.complete
  exact Nat.lt_of_lt_of_le (itchSize_pos hsize) hle

theorem WellFormed.event_isSome (h : WellFormed message) :
    (TradingRuntime.messageEvent message).isSome = true := by
  have hpos := h.length_pos
  obtain ⟨size, hsize, hle⟩ := h.complete
  have htype : Bytes.ofList message 0 = message.headD 0 := by
    cases message <;> rfl
  rw [itchSize] at hsize
  rw [TradingRuntime.messageEvent, ItchReplayDispatcher.event, if_neg (Nat.ne_of_gt hpos),
    htype]
  split_ifs at hsize ⊢
  all_goals
    cases hsize
    rw [Option.isSome_map]
    exact parseItch_isSome _ _ hle

/-! ## Reading a file -/

namespace ItchReplayReader

theorem read_append (bytes rest : List UInt8) :
    (init (bytes ++ rest)).read bytes.length = (some bytes, init rest) := by
  rw [read, if_neg Bool.noConfusion, if_pos]
  · simp [init]
  · show bytes.length ≤ (bytes ++ rest).length
    rw [List.length_append]
    omega

/-- The length that is read in front of a message. -/
theorem readUint16_header (hpos : 0 < message.length) (hshort : message.length < 2 ^ 16) :
    readUint16 (.ofList (writeUint16 (.ofNat message.length)).toList) ≠ 0 ∧
      (readUint16 (.ofList (writeUint16 (.ofNat message.length)).toList)).toNat =
        message.length := by
  rw [readUint16_of_startsWith (Bytes.startsWith_ofList _)]
  have htoNat : (UInt16.ofNat message.length).toNat = message.length := by
    rw [UInt16.toNat_ofNat', Nat.mod_eq_of_lt hshort]
  refine ⟨fun heq => ?_, htoNat⟩
  rw [heq] at htoNat
  exact absurd htoNat (Nat.ne_of_lt hpos)

theorem read_header (message rest : List UInt8) :
    (init ((writeUint16 (.ofNat message.length)).toList ++ rest)).read 2 =
      (some (writeUint16 (.ofNat message.length)).toList, init rest) := by
  have hread := read_append (writeUint16 (.ofNat message.length)).toList rest
  rw [Vector.length_toList] at hread
  exact hread

theorem readNext_frame (hpos : 0 < message.length) (hshort : message.length < 2 ^ 16)
    (rest : List UInt8) :
    (init (frame message ++ rest)).readNext = (some message, init rest) := by
  obtain ⟨hne, htoNat⟩ := readUint16_header hpos hshort
  rw [readNext, frame, List.append_assoc, read_header]
  dsimp only
  rw [if_neg hne, htoNat]
  exact read_append message rest

/-! ## Calls with a buffer -/

variable {reader reader' : ItchReplayReader} {buffer bytes : List UInt8}

/-- The two versions of `readNext` read the same. -/
theorem readNext_eq (reader : ItchReplayReader) (buffer : List UInt8) :
    reader.readNext = match reader.readNextInto buffer with
      | (result, message, reader) => (if result then some message else none, reader) := by
  rw [readNext, readNextInto]
  rcases reader.read 2 with ⟨_ | networkLength, reader₁⟩
  · rfl
  · dsimp only
    split
    · rfl
    · rcases reader₁.read (readUint16 (.ofList networkLength)).toNat with ⟨_ | body, reader₂⟩
      · rfl
      · rfl

theorem readNextInto_of_some (h : reader.readNext = (some bytes, reader')) :
    reader.readNextInto buffer = (true, bytes, reader') := by
  rw [readNext_eq reader buffer] at h
  generalize reader.readNextInto buffer = called at h ⊢
  obtain ⟨_ | _, message, reader₁⟩ := called
  · cases h
  · cases h
    rfl

/-- A stream that has failed gives nothing more. -/
theorem calls_failed (stream buffer : List UInt8) (count : Nat) :
    calls ⟨stream, false⟩ buffer count = List.replicate count (false, buffer) := by
  induction count with
  | zero => rfl
  | succ count ih =>
      have hcall : readNextInto ⟨stream, false⟩ buffer = (false, buffer, ⟨stream, false⟩) := rfl
      rw [calls, hcall, List.replicate_succ]
      exact congrArg _ ih

theorem read_short {count : Nat} (h : bytes.length < count) :
    (init bytes).read count = (none, ⟨[], false⟩) := by
  rw [read, if_neg Bool.noConfusion, if_neg]
  exact Nat.not_le.mpr h

/-- The four ways a file can end: with nothing, with half a length, with a length and nothing
behind it, and with a part of the body. -/
theorem readNextInto_rest {rest : List UInt8} (hpos : 0 < message.length)
    (hshort : message.length < 2 ^ 16) (hpart : rest <+: frame message)
    (hproper : rest ≠ frame message) (buffer : List UInt8) :
    (init rest).readNextInto buffer =
      (false, if 2 ≤ rest.length then [] else buffer, ⟨[], false⟩) := by
  by_cases hheader : 2 ≤ rest.length
  · obtain ⟨hne, htoNat⟩ := readUint16_header hpos hshort
    obtain ⟨body, rfl⟩ : (writeUint16 (.ofNat message.length)).toList <+: rest := by
      refine List.prefix_of_prefix_length_le (List.prefix_append _ message) hpart ?_
      rw [Vector.length_toList]
      exact hheader
    have hbody : body <+: message := (List.prefix_append_right_inj _).mp hpart
    have hlt : body.length < message.length :=
      Nat.lt_of_le_of_ne hbody.length_le fun heq =>
        hproper (congrArg _ (hbody.eq_of_length heq))
    rw [if_pos hheader, readNextInto, read_header]
    dsimp only
    rw [if_neg hne, htoNat, read_short hlt]
  · rw [if_neg hheader, readNextInto, read_short (Nat.lt_of_not_le hheader)]

/-- A file that ends within a frame, after which every call fails. -/
theorem calls_rest {rest : List UInt8} (hpos : 0 < message.length)
    (hshort : message.length < 2 ^ 16) (hpart : rest <+: frame message)
    (hproper : rest ≠ frame message) (buffer : List UInt8) (count : Nat) :
    (init rest).calls buffer (count + 1) =
      List.replicate (count + 1) (false, if 2 ≤ rest.length then [] else buffer) := by
  rw [calls, readNextInto_rest hpos hshort hpart hproper, List.replicate_succ]
  exact congrArg _ (calls_failed _ _ count)

theorem calls_frame (hpos : 0 < message.length) (hshort : message.length < 2 ^ 16)
    (rest buffer : List UInt8) (count : Nat) :
    (init (frame message ++ rest)).calls buffer (count + 1) =
      (true, message) :: (init rest).calls message count := by
  rw [calls, readNextInto_of_some (readNext_frame hpos hshort rest)]

end ItchReplayReader

theorem replayFile_cons (message : List UInt8) (messages : List (List UInt8)) :
    replayFile (message :: messages) = frame message ++ replayFile messages := rfl

/-- The calls for a file that may end within a frame: the messages in order, and then
nothing, with an empty buffer if the body of the last was cut off. -/
theorem replay_file_calls (messages : List (List UInt8)) (rest buffer : List UInt8)
    (count : Nat)
    (hmessages : ∀ message ∈ messages, 1 ≤ message.length ∧ message.length ≤ 65535)
    (hrest : rest = [] ∨ ∃ message : List UInt8, 1 ≤ message.length ∧
      message.length ≤ 65535 ∧ rest <+: frame message ∧ rest ≠ frame message) :
    (ItchReplayReader.init (replayFile messages ++ rest)).calls buffer
        (messages.length + (count + 1)) =
      messages.map (fun message => (true, message)) ++
        List.replicate (count + 1)
          (false, if 2 ≤ rest.length then [] else messages.getLastD buffer) := by
  induction messages generalizing buffer with
  | nil =>
      show (ItchReplayReader.init rest).calls buffer (0 + (count + 1)) = _
      rw [Nat.zero_add]
      rcases hrest with rfl | ⟨message, hpos, hle, hpart, hproper⟩
      · exact ItchReplayReader.calls_rest (by decide : 0 < [(0 : UInt8)].length) (by decide)
          List.nil_prefix (by decide) buffer count
      · exact ItchReplayReader.calls_rest hpos (by omega) hpart hproper buffer count
  | cons message messages ih =>
      obtain ⟨hpos, hle⟩ := hmessages message List.mem_cons_self
      have hcount : (message :: messages).length + (count + 1) =
          messages.length + (count + 1) + 1 := by
        rw [List.length_cons]
        omega
      rw [replayFile_cons, List.append_assoc, hcount,
        ItchReplayReader.calls_frame hpos (by omega),
        ih message fun m hm => hmessages m (List.mem_cons_of_mem _ hm),
        List.getLastD_cons]
      rfl

/-- A message of one byte, and a part of one of two bytes. -/
theorem replay_file_calls_cut :
    (ItchReplayReader.init (replayFile [[68]] ++ [0, 2, 65])).calls [] 2 =
      [(true, [68]), (false, [])] :=
  replay_file_calls [[68]] [0, 2, 65] [] 0 (by decide)
    (.inr ⟨[65, 66], by decide, by decide, by decide, by decide⟩)

theorem fileEvents_concat {messages : List (List UInt8)} {event : MarketDataEvent}
    (h : TradingRuntime.messageEvent message = some event) :
    fileEvents (messages ++ [message]) = fileEvents messages ++ [event] := by
  rw [fileEvents, List.filterMap_append, List.filterMap_cons_some h]
  rfl

/-- Every message has its event. -/
theorem fileEvents_length {messages : List (List UInt8)}
    (h : ∀ message ∈ messages, WellFormed message) :
    (fileEvents messages).length = messages.length := by
  induction messages with
  | nil => rfl
  | cons message messages ih =>
      obtain ⟨event, hevent⟩ := Option.isSome_iff_exists.mp
        (h message List.mem_cons_self).event_isSome
      rw [fileEvents, List.filterMap_cons_some hevent, List.length_cons, List.length_cons]
      exact congrArg (· + 1) (ih fun m hm => h m (List.mem_cons_of_mem _ hm))

end OpenHft
