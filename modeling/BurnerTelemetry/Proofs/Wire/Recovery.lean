import BurnerTelemetry.Proofs.Wire.Barren
import BurnerTelemetry.Proofs.Wire.FrameSearch

/-!
The stream is taken up again whatever was received before. A good line that still fits into the
window is read behind anything that is pending there, and a good frame behind five bytes of padding
even if the window overflows in the middle of it.
-/
namespace BurnerTelemetry.Wire

open Message (Barren)

namespace Status

theorem toBytes_line (flame : Bool) (fan : Nat) (temperature : Int) (hasReturn : Bool) :
    (line flame fan temperature hasReturn).toBytes =
      StatusLine.unended (if flame then 1 else 0) fan temperature hasReturn ++
        [StatusLine.lineFeed] := rfl

end Status

namespace Reassembly

section Line

variable {flame : Bool} {fan : Nat} {temperature : Int} {hasReturn : Bool} {front window : Bytes}

/-- What goes with a bad line ends where the good one starts, or before. -/
theorem badLength_behind_le {start stop : Nat}
    (hm : (Status.line flame fan temperature hasReturn).WellFormed)
    (hwindow : window = front ++ (Status.line flame fan temperature hasReturn).toBytes)
    (h : BadLine window start stop) : badLength window start stop ≤ front.length := by
  obtain ⟨hline, e, hbad⟩ := h
  rw [Status.toBytes_line] at hwindow
  subst hwindow
  obtain ⟨hstart, hstop | rfl⟩ := StatusLine.firstLine_behind hline
  · exact Nat.le_trans (badLength_le hline) hstop
  · -- the two are one line, and the last `F:` of it is that of the good one
    rw [StatusLine.between_behind hstart] at hbad
    have hmerged : start < front.length := by
      by_contra hown
      rw [List.drop_eq_nil_of_le (Nat.le_of_not_lt hown), List.nil_append,
        StatusLine.ofLine_text hm.1 hm.2] at hbad
      cases hbad
    obtain ⟨rest, hrest, hletter⟩ :=
      StatusLine.unended_start (if flame then 1 else 0) fan temperature hasReturn
    have hlast : lastStart? (front ++ 70 :: 58 :: rest) (start + 1) =
        some (start + 1 + (front.drop (start + 1)).length) := by
      rw [lastStart?, List.drop_append_of_le_length hmerged,
        Bytes.lastPairIndex?_append (by simpa using hletter)]
      rfl
    rw [badLength, ← List.append_assoc, ← List.length_append, List.take_left, hrest, hlast,
      List.length_drop, Option.getD_some]
    omega

/-- Behind bytes that make no message with what the line begins with, the line is accepted, or a bad
line goes first and leaves the good one whole. -/
theorem nextStep_behind (hm : (Status.line flame fan temperature hasReturn).WellFormed)
    (hwindow : window = front ++ (Status.line flame fan temperature hasReturn).toBytes)
    (hsize : window.length < StatusLine.sizeLimit)
    (hbarren : Barren
      (front ++ StatusLine.unended (if flame then 1 else 0) fan temperature hasReturn)) :
    (∃ s, nextStep window = .accept s ∧ s.stop = window.length ∧
      s.reading = (Status.line flame fan temperature hasReturn).reading) ∨
    ∃ count ≤ front.length, nextStep window = .refuse count := by
  obtain ⟨s, hstep⟩ | ⟨_, start, stop, hbad, hstep⟩ | ⟨_, hnoLine, _⟩ := nextStep_cases hsize
  · rw [Status.toBytes_line, ← List.append_assoc] at hwindow
    subst hwindow
    have hstop := accept_concat hbarren hstep
    refine .inl ⟨s, hstep, hstop, ?_⟩
    rcases nextStep_accept_iff.1 hstep with ⟨hframe, _⟩ | ⟨hline, _⟩
    · have hends := (Frame.endsIn_of_locate hbarren.noneIn hframe).2
      exact absurd hends (Frame.not_endsIn_concat (by decide) _)
    · obtain ⟨stop, hend, hfirst, hreading⟩ := (StatusLine.locate_ok_iff hsize).1 hline
      rw [List.append_assoc] at hfirst hreading
      have hlast : stop = front.length +
          (StatusLine.unended (if flame then 1 else 0) fan temperature hasReturn).length := by
        simp only [List.length_append, List.length_singleton] at hstop
        omega
      rw [hlast, StatusLine.between_behind (StatusLine.firstLine_behind hfirst).1] at hreading
      rw [StatusLine.ofLine_behind hreading, List.nil_append, StatusLine.ofLine_text hm.1 hm.2]
        at hreading
      exact (Except.ok.inj hreading).symm
  · exact .inr ⟨_, badLength_behind_le hm hwindow hbad, hstep⟩
  · obtain ⟨start, stop, hline⟩ := StatusLine.exists_firstLine_behind
      (if flame then 1 else 0) fan temperature hasReturn front
    exact absurd (hwindow ▸ hline) (hnoLine start stop)

/-- Bad lines in front of a good one are refused until it is all that is left. -/
theorem settle_behind (hm : (Status.line flame fan temperature hasReturn).WellFormed)
    (hwindow : window = front ++ (Status.line flame fan temperature hasReturn).toBytes)
    (hsize : window.length < StatusLine.sizeLimit)
    (hbarren : Barren
      (front ++ StatusLine.unended (if flame then 1 else 0) fan temperature hasReturn)) :
    readings window = [(Status.line flame fan temperature hasReturn).reading] ∧
      residue window = [] := by
  induction window using window_induction generalizing front with
  | idle window hidle =>
    have hlong : Frame.size ≤ window.length := by
      rw [hwindow, List.length_append]
      exact Nat.le_trans (Status.length_toBytes_le hm).1 (Nat.le_add_left _ _)
    obtain ⟨s, hstep, _⟩ | ⟨count, _, hstep⟩ := nextStep_behind hm hwindow hsize hbarren
    · exact absurd hstep (not_accept_of_idle hidle s)
    · rw [hidle hlong] at hstep
      cases hstep
  | accept window s hlong hstep _ =>
    obtain ⟨s', hstep', hstop, hreading⟩ | ⟨count, _, hstep'⟩ :=
      nextStep_behind hm hwindow hsize hbarren
    · exact hreading ▸ settle_whole hlong hstep' hstop
    · rw [hstep] at hstep'
      cases hstep'
  | refuse window count hlong hstep ih =>
    obtain ⟨s, hstep', _⟩ | ⟨count', hcount, hstep'⟩ := nextStep_behind hm hwindow hsize hbarren
    · rw [hstep] at hstep'
      cases hstep'
    · rw [hstep] at hstep'
      cases hstep'
      have hrest : window.drop count =
          front.drop count ++ (Status.line flame fan temperature hasReturn).toBytes := by
        rw [hwindow, List.drop_append_of_le_length hcount]
      rw [readings_refuse hlong hstep, residue_refuse hlong hstep]
      exact ih hrest (Nat.lt_of_le_of_lt (List.drop_suffix count window).length_le hsize)
        (hbarren.of_infix (List.suffix_append_self_iff.2 (List.drop_suffix count front)).isInfix)

/-- A good line that fits behind what is pending is all that comes of it, however it is cut, and
leaves nothing pending. -/
theorem receiveAll_line_resumes (earlier : List Bytes)
    (hm : (Status.line flame fan temperature hasReturn).WellFormed)
    (hroom : (empty.receiveAll earlier).2.window.length +
      (Status.line flame fan temperature hasReturn).toBytes.length ≤ windowSize)
    {pieces : List Bytes}
    (hpieces : pieces.flatten = (Status.line flame fan temperature hasReturn).toBytes) :
    ((empty.receiveAll earlier).2.receiveAll pieces).1.map (fun s => s.reading) =
        [(Status.line flame fan temperature hasReturn).reading] ∧
      ((empty.receiveAll earlier).2.receiveAll pieces).2.window = [] := by
  have hkept := Kept.all (traced_receiveAll earlier).bounded
  have hbarren := barren_of_idle (idle_receiveAll earlier) hkept.lt_sizeLimit
  have hpending : Barren ((empty.receiveAll earlier).2.window ++
      StatusLine.unended (if flame then 1 else 0) fan temperature hasReturn) :=
    hbarren.append_of_not_mem StatusLine.lineFeed_not_mem_unended
      StatusLine.endMark_not_mem_unended
  refine receiveAll_first hkept hpending (fun window hwindow hsize => ?_)
    (hpieces.trans (Status.toBytes_line ..))
  have hlast :
      StatusLine.unended (if flame then 1 else 0) fan temperature hasReturn <:+ window := by
    refine hwindow.last _ (List.suffix_append _ _) StatusLine.lineFeed_not_mem_unended (.inl ?_)
    rw [Status.toBytes_line] at hroom
    simp only [List.length_append, List.length_singleton] at hroom ⊢
    omega
  obtain ⟨front, rfl⟩ := hlast
  exact settle_behind hm (List.append_assoc ..) (concat_lt_sizeLimit hsize _)
    (hpending.of_infix hwindow.suffix.isInfix)

end Line

/-- The front of a frame is pending, that of a line, and a byte that is no text. The good line comes
in three pieces. -/
theorem receiveAll_line_resumes_behind_junk :
    let earlier : List Bytes := [[0xAA, 0x01, 70, 58, 49, 44], [83, 58, 0xC3]]
    (Status.line true 7 (-5) true).WellFormed ∧
      (empty.receiveAll earlier).2.window = [0xAA, 0x01, 70, 58, 49, 44, 83, 58, 0xC3] ∧
      ((empty.receiveAll earlier).2.receiveAll [[70, 58, 49],
        [44, 83, 58, 55, 44, 84, 58, 45, 53, 13], [10]]).1.map (fun s => s.reading) =
          [⟨true, 7, -5, 0, true⟩] ∧
      ((empty.receiveAll earlier).2.receiveAll [[70, 58, 49],
        [44, 83, 58, 55, 44, 84, 58, 45, 53, 13], [10]]).2.window = [] := by
  intro earlier
  have hm : (Status.line true 7 (-5) true).WellFormed := by decide
  have hwindow : (empty.receiveAll earlier).2.window =
      [0xAA, 0x01, 70, 58, 49, 44, 83, 58, 0xC3] := by decide +kernel
  have hroom : (empty.receiveAll earlier).2.window.length +
      (Status.line true 7 (-5) true).toBytes.length ≤ windowSize := by
    rw [hwindow]
    decide +kernel
  exact ⟨hm, hwindow, receiveAll_line_resumes earlier hm hroom (by decide +kernel)⟩

/-- The front of a frame behind padding: no other frame ends in it. -/
theorem barren_padded {window padding front : Bytes} (h : Barren window)
    (hlength : keptOnOverflow ≤ padding.length)
    (hpadding : ∀ b ∈ padding, b ≠ Frame.startMark ∧ b ≠ Frame.endMark ∧ b ≠ StatusLine.lineFeed)
    (hfront : front.length ≤ keptOnOverflow) (hfeed : StatusLine.lineFeed ∉ front) :
    Barren (window ++ (padding ++ front)) := by
  have hpadded : Barren (window ++ padding) :=
    h.append_of_not_mem (fun hmem => (hpadding _ hmem).2.2 rfl)
      (fun hmem => (hpadding _ hmem).2.1 rfl)
  rw [← List.append_assoc]
  refine hpadded.append hfeed (fun shorter b hshorter r hends => ?_)
  -- the frame would be too long to start behind the padding
  have hshort := hshorter.length_le
  rw [List.append_assoc] at hends
  rw [List.length_append, List.length_singleton] at hshort
  have hsize : Frame.size ≤ (padding ++ (shorter ++ [b])).length := by
    simp only [keptOnOverflow, Frame.size, List.length_append, List.length_singleton] at *
    omega
  obtain ⟨_, hstands⟩ :=
    Frame.endsIn_iff.1 (hends.of_suffix (List.suffix_append window _) hsize)
  have hmark : Frame.startMark ∈ padding := by
    apply hstands.startMark_mem
    simp only [keptOnOverflow, Frame.size, List.length_append, List.length_singleton] at *
    omega
  exact (hpadding _ hmark).1 rfl

/-- A good frame without a line feed in it, behind enough padding, is all that comes of the two,
however they are cut and however full the window was, and leaves nothing pending. -/
theorem receiveAll_frame_resumes (earlier : List Bytes) {padding : Bytes}
    (hlength : 5 ≤ padding.length)
    (hpadding : ∀ b ∈ padding, b ≠ Frame.startMark ∧ b ≠ Frame.endMark ∧ b ≠ StatusLine.lineFeed)
    {f : Frame} (hfan : f.fan.toNat ≤ 100) (htemp : f.temperature.toNat ≤ 500)
    (hfeed : StatusLine.lineFeed ∉ f.toBytes) {pieces : List Bytes}
    (hpieces : pieces.flatten = padding ++ f.toBytes) :
    ((empty.receiveAll earlier).2.receiveAll pieces).1.map (fun s => s.reading) = [f.reading] ∧
      ((empty.receiveAll earlier).2.receiveAll pieces).2.window = [] := by
  have hkept := Kept.all (traced_receiveAll earlier).bounded
  have hbarren := barren_of_idle (idle_receiveAll earlier) hkept.lt_sizeLimit
  have hsplit : f.toBytes = f.toBytes.take keptOnOverflow ++ [Frame.endMark] := rfl
  have hfront : StatusLine.lineFeed ∉ f.toBytes.take keptOnOverflow :=
    fun hmem => hfeed (List.mem_of_mem_take hmem)
  have hpending := barren_padded hbarren hlength hpadding (List.length_take_le _ _) hfront
  rw [hsplit, ← List.append_assoc] at hpieces
  refine receiveAll_first hkept hpending (fun window hwindow hsize => ?_) hpieces
  have hwindowBarren := hpending.of_infix hwindow.suffix.isInfix
  have hlast : f.toBytes.take keptOnOverflow <:+ window :=
    hwindow.last _ ((List.suffix_append _ _).trans (List.suffix_append _ _)) hfront
      (.inr (List.length_take_le _ _))
  have hends : Frame.EndsIn (window ++ [Frame.endMark]) f.reading :=
    ⟨f, Frame.toReading_of_limits hfan htemp, hsplit ▸ List.suffix_append_self_iff.2 hlast⟩
  exact settle_frame_last (concat_lt_sizeLimit hsize _) hwindowBarren.noneIn
    (not_accept_of_barren hwindowBarren) hends

/-- The window is full of start marks, padding and frame look like a line and like marks, and the
frame comes in two pieces. -/
theorem receiveAll_frame_resumes_full :
    let earlier : List Bytes := [List.replicate 128 0xAA]
    (empty.receiveAll earlier).2.isFull = true ∧
      (⟨0xAA, 0x55, 0xAA⟩ : Frame).toBytes = [0xAA, 0xAA, 0x55, 0, 0xAA, 0x55] ∧
      ((empty.receiveAll earlier).2.receiveAll
        [[70, 58], [0, 0, 0, 0xAA, 0xAA, 0x55], [0, 0xAA, 0x55]]).1.map (fun s => s.reading) =
          [⟨false, 0x55, 170, 85, true⟩] ∧
      ((empty.receiveAll earlier).2.receiveAll
        [[70, 58], [0, 0, 0, 0xAA, 0xAA, 0x55], [0, 0xAA, 0x55]]).2.window = [] := by
  intro earlier
  have hpadding : ∀ b ∈ ([70, 58, 0, 0, 0] : Bytes),
      b ≠ Frame.startMark ∧ b ≠ Frame.endMark ∧ b ≠ StatusLine.lineFeed := by decide +kernel
  have hbytes : (⟨0xAA, 0x55, 0xAA⟩ : Frame).toBytes = [0xAA, 0xAA, 0x55, 0, 0xAA, 0x55] := rfl
  have hfeed : StatusLine.lineFeed ∉ (⟨0xAA, 0x55, 0xAA⟩ : Frame).toBytes := by
    rw [hbytes]
    decide
  exact ⟨by decide +kernel, hbytes, receiveAll_frame_resumes earlier (by decide) hpadding (by decide)
    (by decide) hfeed rfl⟩

end Reassembly

end BurnerTelemetry.Wire
