import Mathlib.Data.List.Induction
import OpenHft.Spec.Frames

/-!
# What the Ethernet parser does to frames

The state of the parser is the number of beats of the current frame it has accepted, as
long as the frames have at least three beats: the second beat always leads to
`FORWARD_PAYLOAD`, and only there does `tlast` lead back to `IDLE`. So a run is described
cycle by cycle from what was transferred before it, and the induction is on the last cycle.

The output register holds a beat for one cycle. Whether anything is lost is a matter of
whether the receiver is ready in just that cycle.
-/

namespace OpenHft.Fpga

namespace EthernetParser

variable {p : EthernetParser} {c : Cycle} {cycles : List Cycle} {frames : List Frame}
  {part : List (BitVec 64)}

/-! ## One cycle more -/

theorem run_concat (p : EthernetParser) (cycles : List Cycle) (c : Cycle) :
    p.run (cycles ++ [c]) = (p.run cycles).posedge false c := by
  rw [run, List.foldl_append]
  rfl

theorem transfersIn_concat (cycles : List Cycle) (c : Cycle) :
    transfersIn (cycles ++ [c]) = transfersIn cycles ++ (transferIn c).toList := by
  rw [transfersIn, List.filterMap_append]
  cases hc : transferIn c <;> simp [transfersIn, hc]

theorem transfersOut_concat (p : EthernetParser) (cycles : List Cycle) (c : Cycle) :
    p.transfersOut (cycles ++ [c]) =
      p.transfersOut cycles ++ ((p.run cycles).transferOut c).toList := by
  induction cycles generalizing p with
  | nil => simp [transfersOut, run]
  | cons first cycles ih =>
      rw [List.cons_append, transfersOut, ih, transfersOut, List.append_assoc]
      rfl

theorem headers_concat (p : EthernetParser) (cycles : List Cycle) (c : Cycle) :
    p.headers (cycles ++ [c]) = p.headers cycles ++
      if (p.run (cycles ++ [c])).headerValid then [(p.run (cycles ++ [c])).etherType] else [] := by
  induction cycles generalizing p with
  | nil => exact List.append_nil _
  | cons first cycles ih =>
      rw [List.cons_append, headers, ih, headers, List.append_assoc]
      rfl

/-- In a cycle nothing is accepted, or a beat of a frame that has not ended, or the last
beat of a frame. -/
theorem arrival (h : transfersIn (cycles ++ [c]) = stream frames part) :
    (transferIn c = none ∧ transfersIn cycles = stream frames part) ∨
    (∃ front data, part = front ++ [data] ∧ transferIn c = some ⟨data, false⟩ ∧
      transfersIn cycles = stream frames front) ∨
    (∃ others f, frames = others ++ [f] ∧ part = [] ∧ transferIn c = some ⟨f.last, true⟩ ∧
      transfersIn cycles = stream others f.front) := by
  rw [transfersIn_concat] at h
  cases hc : transferIn c with
  | none =>
      rw [hc, Option.toList_none, List.append_nil] at h
      exact .inl ⟨rfl, h⟩
  | some beat =>
      rw [hc, Option.toList_some] at h
      rcases stream_eq_concat h.symm with ⟨front, data, rfl, rfl, hbeats⟩ |
        ⟨others, f, rfl, rfl, rfl, hbeats⟩
      · exact .inr (.inl ⟨front, data, rfl, rfl, hbeats⟩)
      · exact .inr (.inr ⟨others, f, rfl, rfl, rfl, hbeats⟩)

/-- The registers that announce something are set for one cycle. -/
def cleared (p : EthernetParser) : EthernetParser :=
  { p with headerValid := false, mValid := false, mLast := false }

theorem posedge_none (hc : transferIn c = none) : p.posedge false c = p.cleared := by
  rw [posedge, hc]
  rfl

theorem posedge_some {beat : Beat} (hc : transferIn c = some beat) :
    p.posedge false c = p.cleared.accept beat := by
  rw [posedge, hc]
  rfl

theorem ready_of_transferIn {beat : Beat} (hc : transferIn c = some beat) :
    c.tready = true := by
  unfold transferIn at hc
  split at hc
  · next hvalid =>
      rw [Bool.and_eq_true] at hvalid
      exact hvalid.2
  · cases hc

/-! ## The state -/

/-- The state in which so many beats of the frame have been accepted. -/
def position : Nat → ParserState
  | 0 => .idle
  | 1 => .readHeader2
  | _ => .forwardPayload

theorem state_accept {n : Nat} (h : p.state = position n) (data : BitVec 64) :
    (p.accept ⟨data, false⟩).state = position (n + 1) := by
  match n, h with
  | 0, h | 1, h => simp only [accept, h, position]
  | n + 2, h => simp [accept, h, position]

/-- A frame of three beats or more ends in `IDLE`, a shorter one does not. -/
theorem state_accept_last {n : Nat} (h : p.state = position n) (data : BitVec 64) :
    (p.accept ⟨data, true⟩).state = .idle ↔ 2 ≤ n := by
  match n, h with
  | 0, h | 1, h => simp [accept, h, position]
  | n + 2, h => simp [accept, h, position]

theorem state_run (hp : p.state = .idle) (hsize : ∀ f ∈ frames, 3 ≤ f.size)
    (h : transfersIn cycles = stream frames part) :
    (p.run cycles).state = position part.length := by
  induction cycles using List.reverseRecOn generalizing frames part with
  | nil =>
      obtain ⟨rfl, rfl⟩ := stream_eq_nil h.symm
      exact hp
  | append_singleton cycles c ih =>
      rw [run_concat]
      rcases arrival h with ⟨hc, hbeats⟩ | ⟨front, data, rfl, hc, hbeats⟩ |
        ⟨others, f, rfl, rfl, hc, hbeats⟩
      · rw [posedge_none hc]
        exact ih hsize hbeats
      · rw [posedge_some hc, List.length_append]
        exact state_accept (p := (p.run cycles).cleared) (ih hsize hbeats) data
      · have hstate := ih (fun f' hf' => hsize f' (List.mem_append_left _ hf')) hbeats
        have hlong := hsize f (List.mem_append_right _ List.mem_cons_self)
        rw [posedge_some hc]
        exact (state_accept_last (p := (p.run cycles).cleared) hstate f.last).mpr
          (Nat.le_of_succ_le_succ hlong)

/-! ## Payload -/

/-- The beat in the output register. -/
def pending (p : EthernetParser) : List Beat := if p.mValid then [⟨p.mData, p.mLast⟩] else []

/-- The receiver is ready whenever the output register holds a beat. -/
def NeverStalled (p : EthernetParser) (cycles : List Cycle) : Prop :=
  ∀ before c after, cycles = before ++ c :: after → (p.run before).mValid = true →
    c.tready = true

theorem neverStalled_concat :
    p.NeverStalled (cycles ++ [c]) ↔
      p.NeverStalled cycles ∧ ((p.run cycles).mValid = true → c.tready = true) := by
  constructor
  · intro h
    refine ⟨fun before c' after hcycles => ?_, h cycles c [] rfl⟩
    exact h before c' (after ++ [c]) (by rw [hcycles, List.append_assoc, List.cons_append])
  · rintro ⟨h, hlast⟩ before c' after hcycles
    rcases after.eq_nil_or_concat' with rfl | ⟨after, last, rfl⟩
    · obtain ⟨rfl, hc⟩ := List.append_inj' hcycles rfl
      cases hc
      exact hlast
    · rw [← List.cons_append, ← List.append_assoc] at hcycles
      exact h before c' after (List.append_inj_left' hcycles rfl)

theorem pending_cleared (p : EthernetParser) : p.cleared.pending = [] := rfl

theorem pending_accept {n : Nat} (h : p.state = position n) (hnone : p.pending = [])
    (beat : Beat) : (p.accept beat).pending = if n = 0 then [] else [beat] := by
  match n, h with
  | 0, h => simpa [accept, h, position, pending] using hnone
  | 1, h => simp [accept, h, position, pending]
  | n + 2, h => simp [accept, h, position, pending]

/-- What the receiver takes is what is in the register, if it is ready. -/
theorem transferOut_toList (p : EthernetParser) (c : Cycle) :
    (p.transferOut c).toList = if c.tready then p.pending else [] := by
  unfold transferOut pending
  cases p.mValid <;> cases c.tready <;> rfl

/-- The new payload of a cycle is what is in the register after it. -/
theorem payload_arrival (hp : p.state = .idle) (hsize : ∀ f ∈ frames, 3 ≤ f.size)
    (h : transfersIn (cycles ++ [c]) = stream frames part) :
    ∃ frames' part', (∀ f ∈ frames', 3 ≤ f.size) ∧ transfersIn cycles = stream frames' part' ∧
      payload frames part = payload frames' part' ++ (p.run (cycles ++ [c])).pending ∧
      (c.tready = false → (p.run (cycles ++ [c])).pending = []) := by
  rw [run_concat]
  rcases arrival h with ⟨hc, hbeats⟩ | ⟨front, data, rfl, hc, hbeats⟩ |
    ⟨others, f, rfl, rfl, hc, hbeats⟩
  · refine ⟨frames, part, hsize, hbeats, ?_, fun _ => ?_⟩
    · rw [posedge_none hc, pending_cleared, List.append_nil]
    · rw [posedge_none hc, pending_cleared]
  · refine ⟨frames, front, hsize, hbeats, ?_, fun hready => ?_⟩
    · have hstate : (p.run cycles).cleared.state = _ := state_run hp hsize hbeats
      rw [posedge_some hc, pending_accept hstate (pending_cleared _), payload_opened]
      simp only [List.length_eq_zero_iff]
    · rw [ready_of_transferIn hc] at hready
      cases hready
  · have hsize' := fun f' hf' => hsize f' (List.mem_append_left [f] hf')
    have hlong := hsize f (List.mem_append_right _ List.mem_cons_self)
    have hfront : f.front.length ≠ 0 := by
      unfold Frame.size at hlong
      omega
    refine ⟨others, f.front, hsize', hbeats, ?_, fun hready => ?_⟩
    · have hstate : (p.run cycles).cleared.state = _ := state_run hp hsize' hbeats
      rw [posedge_some hc, pending_accept hstate (pending_cleared _), if_neg hfront,
        payload_ended _ (fun hnil => hfront (List.length_eq_zero_iff.mpr hnil))]
    · rw [ready_of_transferIn hc] at hready
      cases hready

/-- Nothing comes out twice, and everything comes out if and only if the receiver never
makes the parser wait. -/
theorem payload_run (hp : p.state = .idle) (hnone : p.pending = [])
    (hsize : ∀ f ∈ frames, 3 ≤ f.size) (h : transfersIn cycles = stream frames part) :
    (p.transfersOut cycles ++ (p.run cycles).pending).length ≤ (payload frames part).length ∧
      (p.transfersOut cycles ++ (p.run cycles).pending = payload frames part ↔
        p.NeverStalled cycles) := by
  induction cycles using List.reverseRecOn generalizing frames part with
  | nil =>
      obtain ⟨rfl, rfl⟩ := stream_eq_nil h.symm
      have hlossless : p.transfersOut [] ++ (p.run []).pending = payload [] [] := hnone
      refine ⟨Nat.le_of_eq (congrArg _ hlossless), fun _ before c after hcycles => ?_,
        fun _ => hlossless⟩
      exact absurd hcycles (by simp)
  | append_singleton cycles c ih =>
      obtain ⟨frames', part', hsize', hbeats, hpayload, hidle⟩ := payload_arrival hp hsize h
      obtain ⟨hle, hiff⟩ := ih hsize' hbeats
      rw [hpayload, transfersOut_concat, transferOut_toList, neverStalled_concat]
      cases hready : c.tready with
      | true =>
          -- the register is emptied, and takes the new beat if there is one
          simp only [if_true, implies_true, and_true, List.append_left_inj]
          refine ⟨?_, hiff⟩
          simp only [List.length_append] at hle ⊢
          omega
      | false =>
          -- no beat is accepted, and the one in the register is overwritten
          rw [hidle hready]
          simp only [Bool.false_eq_true, if_false, List.append_nil, imp_false,
            Bool.not_eq_true]
          cases hvalid : (p.run cycles).mValid with
          | true =>
              have hpending : (p.run cycles).pending.length = 1 := by simp [pending, hvalid]
              rw [List.length_append, hpending] at hle
              refine ⟨Nat.le_of_succ_le hle, fun hlossless => ?_, fun hready => ?_⟩
              · rw [hlossless] at hle
                omega
              · exact absurd hready.2 (by simp)
          | false =>
              have hpending : (p.run cycles).pending = [] := by simp [pending, hvalid]
              rw [hpending, List.append_nil] at hle hiff
              exact ⟨hle, hiff.trans (by simp)⟩

/-- After a reset, what came out and what is in the output register is the payload of what
came in, if and only if the receiver was ready whenever the register held a beat. -/
theorem lossless_iff (p : EthernetParser) (c : Cycle) {cycles : List Cycle}
    {frames : List Frame} {part : List (BitVec 64)} (hsize : ∀ f ∈ frames, 3 ≤ f.size)
    (h : transfersIn cycles = stream frames part) :
    (p.posedge true c).transfersOut cycles ++ ((p.posedge true c).run cycles).pending =
        payload frames part ↔
      (p.posedge true c).NeverStalled cycles :=
  (payload_run rfl rfl hsize h).2

/-- A frame of three beats, with the receiver not ready for one cycle before the last. -/
def stalledRun : List Cycle :=
  [⟨true, 1, false, true⟩, ⟨true, 2, false, true⟩, ⟨true, 3, true, false⟩,
    ⟨true, 3, true, true⟩, ⟨false, 0, false, true⟩]

/-- Nobody sends and nobody is ready. -/
def quietCycle : Cycle := ⟨false, 0, false, false⟩

/-- Registers as they may be before the reset. -/
def powerUp : EthernetParser := ⟨.unnamed, 0, 0, 0, true, 0, true, true⟩

theorem lossless_iff_stalled_frame :
    transfersIn stalledRun = stream [⟨[1, 2], 3⟩] [] ∧
      ((powerUp.posedge true quietCycle).transfersOut stalledRun ++
          ((powerUp.posedge true quietCycle).run stalledRun).pending =
        payload [⟨[1, 2], 3⟩] [] ↔
      (powerUp.posedge true quietCycle).NeverStalled stalledRun) :=
  ⟨by decide, lossless_iff powerUp quietCycle (by decide) (by decide)⟩

/-- The second beat is in the register when the receiver is not ready. -/
theorem stalled_beat_is_lost :
    ∃ (p : EthernetParser) (c : Cycle) (cycles : List Cycle) (frames : List Frame)
      (part : List (BitVec 64)), (∀ f ∈ frames, 3 ≤ f.size) ∧
      transfersIn cycles = stream frames part ∧
      (p.posedge true c).transfersOut cycles ++ ((p.posedge true c).run cycles).pending ≠
        payload frames part :=
  ⟨powerUp, quietCycle, stalledRun, [⟨[1, 2], 3⟩], [], by decide, by decide, by decide⟩

/-! ## Headers -/

/-- The type that `header_valid` announces. -/
def announced (p : EthernetParser) : List (BitVec 16) :=
  if p.headerValid then [p.etherType] else []

theorem announced_accept {n : Nat} (h : p.state = position n) (hnone : p.announced = [])
    (beat : Beat) :
    (p.accept beat).announced = if n = 1 then [beat.tdata.extractLsb' 16 16] else [] := by
  match n, h with
  | 0, h => simpa [accept, h, position, announced] using hnone
  | 1, h => simp [accept, h, position, announced]
  | n + 2, h => simpa [accept, h, position, announced] using hnone

/-- The type of a frame that has not ended, once its second beat has been accepted. -/
def partType (part : List (BitVec 64)) : List (BitVec 16) :=
  if 2 ≤ part.length then [typeBytes part] else []

theorem partType_concat (front : List (BitVec 64)) (data : BitVec 64) :
    partType (front ++ [data]) =
      partType front ++ if front.length = 1 then [data.extractLsb' 16 16] else [] := by
  match front with
  | [] => rfl
  | [first] => exact congrArg (fun type => [type]) (typeBytes_second first data [])
  | first :: second :: front =>
      have hlength : 2 ≤ (first :: second :: front).length := by simp
      have htype := typeBytes_append hlength [data]
      simpa [partType] using htype

theorem headers_run (hp : p.state = .idle) (hsize : ∀ f ∈ frames, 3 ≤ f.size)
    (h : transfersIn cycles = stream frames part) :
    p.headers cycles = frames.map Frame.etherType ++ partType part := by
  induction cycles using List.reverseRecOn generalizing frames part with
  | nil =>
      obtain ⟨rfl, rfl⟩ := stream_eq_nil h.symm
      rfl
  | append_singleton cycles c ih =>
      rw [headers_concat, ← announced, run_concat]
      rcases arrival h with ⟨hc, hbeats⟩ | ⟨front, data, rfl, hc, hbeats⟩ |
        ⟨others, f, rfl, rfl, hc, hbeats⟩
      · rw [posedge_none hc, ih hsize hbeats]
        exact List.append_nil _
      · have hstate : (p.run cycles).cleared.state = _ := state_run hp hsize hbeats
        rw [posedge_some hc, announced_accept hstate rfl, ih hsize hbeats, partType_concat,
          List.append_assoc]
      · have hsize' := fun f' hf' => hsize f' (List.mem_append_left [f] hf')
        have hlong := hsize f (List.mem_append_right _ List.mem_cons_self)
        have hfront : 2 ≤ f.front.length := Nat.le_of_succ_le_succ hlong
        have hstate : (p.run cycles).cleared.state = _ := state_run hp hsize' hbeats
        have hsecond : f.front.length ≠ 1 := by omega
        rw [posedge_some hc, announced_accept hstate rfl, if_neg hsecond, ih hsize' hbeats,
          partType, if_pos hfront, List.map_append, List.map_singleton, Frame.etherType,
          typeBytes_append hfront]
        rfl

/-- Whenever just some number of frames has been accepted, the state is `IDLE`, and the
types of these frames have been announced, each once. -/
def Aligned (p : EthernetParser) (cycles : List Cycle) (frames : List Frame) : Prop :=
  ∀ before after count, cycles = before ++ after →
    transfersIn before = (frames.take count).flatMap Frame.beats →
    (p.run before).state = .idle ∧
      p.headers before = (frames.take count).map Frame.etherType

theorem stream_nil (frames : List Frame) : stream frames [] = frames.flatMap Frame.beats :=
  List.append_nil _

/-- The first frame of fewer than three beats leaves the parser in another state. -/
theorem state_ended (hp : p.state = .idle) {f : Frame} (hsize : ∀ f' ∈ frames, 3 ≤ f'.size)
    (h : transfersIn cycles = stream (frames ++ [f]) [])
    (hidle : (p.run cycles).state = .idle) : 3 ≤ f.size := by
  induction cycles using List.reverseRecOn with
  | nil => exact absurd (stream_eq_nil h.symm).1 (by simp)
  | append_singleton cycles c ih =>
      rw [run_concat] at hidle
      rcases arrival h with ⟨hc, hbeats⟩ | ⟨front, data, hpart, -⟩ |
        ⟨others, f', hframes, -, hc, hbeats⟩
      · rw [posedge_none hc] at hidle
        exact ih hbeats hidle
      · exact absurd hpart (by simp)
      · obtain ⟨rfl, hlast⟩ := List.append_inj' hframes rfl
        cases hlast
        have hstate : (p.run cycles).cleared.state = _ := state_run hp hsize hbeats
        rw [posedge_some hc] at hidle
        exact Nat.succ_le_succ ((state_accept_last hstate f.last).mp hidle)

theorem Aligned.long (hp : p.state = .idle)
    (h : transfersIn cycles = frames.flatMap Frame.beats) (haligned : p.Aligned cycles frames)
    (count : Nat) : ∀ f ∈ frames.take count, 3 ≤ f.size := by
  induction count with
  | zero => simp
  | succ count ih =>
      rcases Nat.lt_or_ge count frames.length with hlt | hge
      · have htake := List.take_append_getElem hlt
        have hsplit : transfersIn cycles = (frames.take (count + 1)).flatMap Frame.beats ++
            (frames.drop (count + 1)).flatMap Frame.beats := by
          rw [h, ← List.flatMap_append, List.take_append_drop]
        obtain ⟨before, after, hcycles, hbefore, -⟩ := List.filterMap_eq_append_iff.mp hsplit
        have hidle := (haligned before after (count + 1) hcycles hbefore).1
        intro f hf
        rw [← htake] at hf hbefore
        rcases List.mem_append.mp hf with hin | hlast
        · exact ih f hin
        · rw [List.mem_singleton.mp hlast]
          exact state_ended hp ih (hbefore.trans (stream_nil _).symm) hidle
      · rw [List.take_of_length_le hge] at ih
        rw [List.take_of_length_le (Nat.le_succ_of_le hge)]
        exact ih

/-- After a reset the parser stays aligned to the frames if and only if all of them have
at least three beats. -/
theorem aligned_iff (p : EthernetParser) (c : Cycle) {cycles : List Cycle}
    {frames : List Frame} (h : transfersIn cycles = frames.flatMap Frame.beats) :
    (p.posedge true c).Aligned cycles frames ↔ ∀ f ∈ frames, 3 ≤ f.size := by
  constructor
  · intro haligned
    have hlong := haligned.long rfl h frames.length
    rwa [List.take_length] at hlong
  · intro hsize before after count hcycles hbefore
    have hsize' := fun f hf => hsize f (List.mem_of_mem_take (i := count) hf)
    have hstream := hbefore.trans (stream_nil _).symm
    refine ⟨state_run rfl hsize' hstream, ?_⟩
    rw [headers_run rfl hsize' hstream]
    exact List.append_nil _

theorem aligned_iff_stalled_frame :
    transfersIn stalledRun = [Frame.mk [1, 2] 3].flatMap Frame.beats ∧
      ((powerUp.posedge true quietCycle).Aligned stalledRun [⟨[1, 2], 3⟩] ↔
        ∀ f ∈ [Frame.mk [1, 2] 3], 3 ≤ f.size) :=
  ⟨by decide, aligned_iff powerUp quietCycle (by decide)⟩

/-- Two frames of two beats, without a gap and always ready. -/
def shortFrames : List Cycle :=
  [⟨true, 1, false, true⟩, ⟨true, 0x08000000, true, true⟩, ⟨true, 3, false, true⟩,
    ⟨true, 0x08060000, true, true⟩]

/-- The second frame is not announced. -/
theorem short_frame_misaligns :
    ∃ (p : EthernetParser) (c : Cycle) (cycles : List Cycle) (frames : List Frame),
      (∀ c' ∈ cycles, c'.tready = true) ∧ (∀ f ∈ frames, 2 ≤ f.size) ∧
      transfersIn cycles = frames.flatMap Frame.beats ∧
      ¬ (p.posedge true c).Aligned cycles frames := by
  refine ⟨powerUp, quietCycle, shortFrames, [⟨[1], 0x08000000⟩, ⟨[3], 0x08060000⟩],
    by decide, by decide, by decide, fun haligned => ?_⟩
  exact absurd (haligned shortFrames [] 2 rfl (by decide)).2 (by decide)

end EthernetParser

end OpenHft.Fpga
