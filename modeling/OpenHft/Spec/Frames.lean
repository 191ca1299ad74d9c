import Mathlib.Data.List.Basic
import OpenHft.Model.FpgaEthernet

/-!
# Frames on a stream

A frame is its beats in order, the last of which has `tlast` set and no other. What has
been transferred up to some cycle is a number of frames and the front part of one more.
Bytes are counted from the most significant one of the first beat.
-/

namespace OpenHft.Fpga

/-- A frame: the data of the beats before the last, and of the last. -/
structure Frame where
  front : List (BitVec 64)
  last : BitVec 64
  deriving DecidableEq

/-- Beats of a frame that has not ended. -/
def opened (part : List (BitVec 64)) : List Beat := part.map fun data => ⟨data, false⟩

namespace Frame

/-- The beats of a frame; the last one is marked. -/
def beats (f : Frame) : List Beat := opened f.front ++ [⟨f.last, true⟩]

/-- The number of beats. -/
def size (f : Frame) : Nat := f.front.length + 1

end Frame

/-- The byte at an offset from the start of a frame that begins with these beats. -/
def frameByte (words : List (BitVec 64)) (offset : Nat) : BitVec 8 :=
  (words.getD (offset / 8) 0).extractLsb' (56 - 8 * (offset % 8)) 8

/-- Bytes 12 and 13. -/
def typeBytes (words : List (BitVec 64)) : BitVec 16 := frameByte words 12 ++ frameByte words 13

/-- The type of a frame. -/
def Frame.etherType (f : Frame) : BitVec 16 := typeBytes (f.front ++ [f.last])

/-- The beats of some frames and of the front part of the next. -/
def stream (frames : List Frame) (part : List (BitVec 64)) : List Beat :=
  frames.flatMap Frame.beats ++ opened part

/-- The same without the first beat of each frame. -/
def payload (frames : List Frame) (part : List (BitVec 64)) : List Beat :=
  (frames.flatMap fun f => f.beats.tail) ++ (opened part).tail

variable {frames : List Frame} {part : List (BitVec 64)} {beats : List Beat} {beat : Beat}

@[simp] theorem opened_nil : opened [] = [] := rfl

theorem opened_concat (part : List (BitVec 64)) (data : BitVec 64) :
    opened (part ++ [data]) = opened part ++ [⟨data, false⟩] := List.map_append

theorem stream_opened (frames : List Frame) (part : List (BitVec 64)) (data : BitVec 64) :
    stream frames (part ++ [data]) = stream frames part ++ [⟨data, false⟩] := by
  rw [stream, opened_concat, ← List.append_assoc]
  rfl

theorem stream_ended (frames : List Frame) (f : Frame) :
    stream (frames ++ [f]) [] = stream frames f.front ++ [⟨f.last, true⟩] := by
  simp only [stream, List.flatMap_append, List.flatMap_singleton, Frame.beats, opened_nil,
    List.append_nil, List.append_assoc]

theorem stream_eq_nil (h : stream frames part = []) : frames = [] ∧ part = [] := by
  obtain ⟨hframes, hpart⟩ := List.append_eq_nil_iff.mp h
  refine ⟨?_, List.map_eq_nil_iff.mp hpart⟩
  cases frames with
  | nil => rfl
  | cons f frames => simp [Frame.beats] at hframes

/-- The last beat of a stream is of a frame that has not ended, or it ends one. -/
theorem stream_eq_concat (h : stream frames part = beats ++ [beat]) :
    (∃ front data, part = front ++ [data] ∧ beat = ⟨data, false⟩ ∧
      beats = stream frames front) ∨
    (∃ others f, frames = others ++ [f] ∧ part = [] ∧ beat = ⟨f.last, true⟩ ∧
      beats = stream others f.front) := by
  rcases part.eq_nil_or_concat' with rfl | ⟨front, data, rfl⟩
  · rcases frames.eq_nil_or_concat' with rfl | ⟨others, f, rfl⟩
    · exact absurd (congrArg List.length h) (by simp [stream])
    · rw [stream_ended] at h
      obtain ⟨hbeats, hbeat⟩ := List.append_inj' h rfl
      cases hbeat
      exact .inr ⟨others, f, rfl, rfl, rfl, hbeats.symm⟩
  · rw [stream_opened] at h
    obtain ⟨hbeats, hbeat⟩ := List.append_inj' h rfl
    cases hbeat
    exact .inl ⟨front, data, rfl, rfl, hbeats.symm⟩

/-- A beat behind the first of its frame is payload. -/
theorem payload_opened (frames : List Frame) (part : List (BitVec 64)) (data : BitVec 64) :
    payload frames (part ++ [data]) =
      payload frames part ++ if part = [] then [] else [⟨data, false⟩] := by
  cases part with
  | nil => simp [payload, opened]
  | cons first part => simp [payload, opened]

theorem payload_ended (frames : List Frame) {f : Frame} (hsize : f.front ≠ []) :
    payload (frames ++ [f]) [] = payload frames f.front ++ [⟨f.last, true⟩] := by
  have htail : f.beats.tail = (opened f.front).tail ++ [⟨f.last, true⟩] :=
    List.tail_append_of_ne_nil (by simpa [opened] using hsize)
  simp only [payload, List.flatMap_append, List.flatMap_singleton, htail, opened_nil,
    List.tail_nil, List.append_nil, List.append_assoc]

/-- The type is in the second beat of a frame, and later beats do not change it. -/
theorem typeBytes_second (first second : BitVec 64) (words : List (BitVec 64)) :
    typeBytes (first :: second :: words) = second.extractLsb' 16 16 := by
  show second.extractLsb' 24 8 ++ second.extractLsb' 16 8 = second.extractLsb' 16 16
  apply BitVec.eq_of_getLsbD_eq
  intro i hi
  simp only [BitVec.getLsbD_append, BitVec.getLsbD_extractLsb']
  grind

theorem typeBytes_append {words : List (BitVec 64)} (h : 2 ≤ words.length)
    (more : List (BitVec 64)) : typeBytes (words ++ more) = typeBytes words := by
  match words, h with
  | first :: second :: words, _ => rw [typeBytes_second, List.cons_append, List.cons_append,
      typeBytes_second]

end OpenHft.Fpga
