import BurnerTelemetry.Proofs.Wire.FrameSearch
import BurnerTelemetry.Proofs.Wire.LineGrammar

/-!
A message in either form. Main statement: bytes hold a message exactly if they hold an acceptable
frame or a good first line, and the frame goes first; the message that is found is within its limits
and would be found in its own bytes; where none is found, the fault is that of the form the bytes
look like.
-/
namespace BurnerTelemetry.Wire.Message

variable {bytes : Bytes} {s : Sighting}

/-- A frame is found if there is one, or else the first line. The least size of a message keeps
neither away. -/
theorem locate_ok_iff : locate bytes = .ok s ↔ Frame.locate bytes = .ok s ∨
    (∃ e, Frame.locate bytes = .error e) ∧ StatusLine.locate bytes = .ok s := by
  by_cases hsize : bytes.length < Frame.size
  · rw [locate, if_pos hsize]
    constructor
    · intro h
      cases h
    · rintro (hframe | ⟨_, hline⟩)
      · have hstop := Frame.locate_stop_le hframe
        have hlength := Frame.locate_stop hframe
        omega
      · have hstop := (StatusLine.locate_bounds hline).2
        have hlength := StatusLine.locate_stop_gt hline
        omega
  · rw [locate, if_neg hsize]
    cases hframe : Frame.locate bytes with
    | ok frame => simp
    | error fault =>
      cases hline : StatusLine.locate bytes with
      | ok line => simp
      | error e => cases e <;> simp

theorem locate_ok_iff_either : (∃ s, locate bytes = .ok s) ↔
    (∃ r, Frame.read bytes = .ok r) ∨ ∃ r, StatusLine.read bytes = .ok r := by
  simp only [locate_ok_iff, Frame.read, StatusLine.read]
  cases Frame.locate bytes with
  | ok frame => simp [Except.map]
  | error fault =>
    cases StatusLine.locate bytes with
    | ok line => simp [Except.map]
    | error e => simp [Except.map]

/-- Of two faults that of the search for a frame is told only if there is no `F:`. -/
theorem locate_error_iff {e : DecodeError} (hsize : Frame.size ≤ bytes.length) :
    locate bytes = .error e ↔ ∃ frameFault lineFault, Frame.locate bytes = .error frameFault ∧
      StatusLine.locate bytes = .error lineFault ∧
        e = if lineFault = .noLine then frameFault else lineFault := by
  rw [locate, if_neg (Nat.not_lt_of_le hsize)]
  cases Frame.locate bytes with
  | ok frame => simp
  | error fault =>
    cases StatusLine.locate bytes with
    | ok line => simp
    | error lineFault => cases lineFault <;> simp [eq_comm]

/-- The fields of a reading are within the limits that one of the two forms keeps. -/
structure WithinLimits (r : Reading) : Prop where
  valid : r.valid = true
  fan : r.fan.toNat ≤ 100
  errorCode : r.errorCode.toNat ≤ 127
  temperature : -50 ≤ r.temperature.toInt ∧ r.temperature.toInt ≤ 500

theorem withinLimits_frame (h : Frame.locate bytes = .ok s) :
    WithinLimits s.reading ∧ 0 ≤ s.reading.temperature.toInt := by
  obtain ⟨i, ⟨_, hfan, htemp⟩, _, rfl⟩ := Frame.locate_ok_iff_least.1 h
  have hdegrees : (Int16.ofNat (Frame.temperatureAt bytes i)).toInt = Frame.temperatureAt bytes i :=
    Int16.toInt_ofNat_of_lt (Nat.lt_of_le_of_lt htemp (by decide))
  have hflags := (Frame.byteAt bytes (i + 1)).toNat_lt
  have hcode : (UInt8.ofNat ((Frame.byteAt bytes (i + 1)).toNat / 2)).toNat ≤ 127 := by
    rw [UInt8.toNat_ofNat_of_lt' (by simp only [UInt8.size]; omega)]
    omega
  simp only [Frame.readingAt]
  exact ⟨⟨rfl, hfan, hcode, by simp only [hdegrees]; omega⟩, by simp only [hdegrees]; omega⟩

theorem withinLimits_line (h : StatusLine.locate bytes = .ok s) :
    WithinLimits s.reading ∧ s.reading.errorCode = 0 := by
  obtain ⟨_, _, _, flame, fan, temperature, _, _, ⟨_, hfan, htemp⟩, hreports, _⟩ :=
    StatusLine.locate_ok_iff_found.1 h
  have hspeed := hreports.fan
  have hdegrees := hreports.temperature
  refine ⟨⟨hreports.valid, by omega, ?_, by omega⟩, hreports.errorCode⟩
  rw [hreports.errorCode]
  decide

/-- A frame is found whatever comes behind it. -/
theorem locate_frame_append (h : Frame.locate bytes = .ok s) (rest : Bytes) :
    locate (bytes ++ rest) = .ok s :=
  locate_ok_iff.2 (.inl ((Frame.locate_append_iff (Frame.locate_stop_le h) rest).2 h))

/-- A message is found in its own bytes, and it is no shorter than a frame. -/
theorem locate_take (h : locate bytes = .ok s) :
    Frame.size ≤ s.stop ∧ s.stop ≤ bytes.length ∧ locate (bytes.take s.stop) = .ok s := by
  have hsplit := List.take_append_drop s.stop bytes
  rcases locate_ok_iff.1 h with hframe | ⟨hnone, hline⟩
  · have hstop := Frame.locate_stop_le hframe
    have hlength := Frame.locate_stop hframe
    rw [← hsplit, Frame.locate_append_iff (by rw [List.length_take]; omega)] at hframe
    exact ⟨by omega, hstop, locate_ok_iff.2 (.inl hframe)⟩
  · have hstop := (StatusLine.locate_bounds hline).2
    have hlength := StatusLine.locate_stop_gt hline
    have hsize := (StatusLine.locate_ok_iff_found.1 hline).1
    have hno : Frame.NoneIn (bytes.take s.stop) :=
      Frame.NoneIn.of_prefix (Frame.locate_error_iff.1 hnone) (List.take_prefix _ _)
    rw [← hsplit, StatusLine.locate_append_iff (by rw [List.length_take]; omega)
      (by rw [hsplit]; exact hsize)] at hline
    exact ⟨by omega, hstop, locate_ok_iff.2 (.inr ⟨Frame.locate_error_iff.2 hno, hline⟩)⟩

/-- Where no message is found the bytes are too many for a line, or they have no `F:` and the search
for a frame tells why, or the fault is that of their first line. -/
theorem locate_fault {e : DecodeError} (hsize : Frame.size ≤ bytes.length)
    (h : locate bytes = .error e) :
    (256 ≤ bytes.length → e = .lineTooLong bytes.length) ∧
      (bytes.length < 256 → (∀ i, ¬ [70, 58] <+: bytes.drop i) → Frame.locate bytes = .error e) ∧
      (bytes.length < 256 → (∃ i, [70, 58] <+: bytes.drop i) →
        StatusLine.locate bytes = .error e) := by
  obtain ⟨frameFault, lineFault, hframe, hline, rfl⟩ := (locate_error_iff hsize).1 h
  have hfault := StatusLine.locate_error_iff_fault.1 hline
  refine ⟨fun hlong => ?_, fun hshort hnone => ?_, fun hshort hsome => ?_⟩
  · rw [StatusLine.locate_of_fault (.tooLong hlong)] at hline
    cases hline
    rfl
  · rw [StatusLine.locate_of_fault (.noLine hshort hnone)] at hline
    cases hline
    exact hframe
  · have hstart : lineFault ≠ .noLine := by
      rintro rfl
      cases hfault with
      | noLine _ hnone =>
        obtain ⟨i, hi⟩ := hsome
        exact hnone i hi
    rw [if_neg hstart, hline]

/-- What is known of a message that was found. -/
structure Sound (bytes : Bytes) (s : Sighting) : Prop where
  size_le : Frame.size ≤ s.stop
  stop_le : s.stop ≤ bytes.length
  limits : WithinLimits s.reading
  /-- Nothing behind the message was needed to find it. -/
  own_bytes : locate (bytes.take s.stop) = .ok s
  frame : Frame.locate bytes = .ok s →
    0 ≤ s.reading.temperature.toInt ∧ ∀ rest, locate (bytes ++ rest) = .ok s
  line : StatusLine.locate bytes = .ok s → s.reading.errorCode = 0

/-- A message is found exactly if one of the two searches finds one, that for a frame first. It is
within its limits, stands in the bytes, and depends on no byte behind it; a frame is found whatever
is added. If none is found among enough bytes, the fault is that there are too many for a line, that
of the search for a frame where there is no `F:`, or that of the first line. -/
theorem locate_exhaustive (bytes : Bytes) :
    ((∃ s, locate bytes = .ok s) ↔
      (∃ r, Frame.read bytes = .ok r) ∨ ∃ r, StatusLine.read bytes = .ok r) ∧
    (∀ s, locate bytes = .ok s ↔ Frame.locate bytes = .ok s ∨
      (∃ e, Frame.locate bytes = .error e) ∧ StatusLine.locate bytes = .ok s) ∧
    (∀ s, locate bytes = .ok s → Sound bytes s) ∧
    ∀ e, Frame.size ≤ bytes.length → locate bytes = .error e →
      (256 ≤ bytes.length → e = .lineTooLong bytes.length) ∧
        (bytes.length < 256 → (∀ i, ¬ [70, 58] <+: bytes.drop i) → Frame.locate bytes = .error e) ∧
        (bytes.length < 256 → (∃ i, [70, 58] <+: bytes.drop i) →
          StatusLine.locate bytes = .error e) := by
  refine ⟨locate_ok_iff_either, fun s => locate_ok_iff, fun s h => ?_,
    fun e hsize h => locate_fault hsize h⟩
  obtain ⟨hsize, hstop, htake⟩ := locate_take h
  constructor
  · exact hsize
  · exact hstop
  · rcases locate_ok_iff.1 h with hframe | ⟨_, hline⟩
    · exact (withinLimits_frame hframe).1
    · exact (withinLimits_line hline).1
  · exact htake
  · exact fun hframe => ⟨(withinLimits_frame hframe).2, locate_frame_append hframe⟩
  · exact fun hline => (withinLimits_line hline).2

/-- A line that stops two bytes in front of the end, and a line whose fan speed is too high. -/
theorem locate_exhaustive_lines :
    let good : Bytes := [55, 70, 58, 49, 44, 83, 58, 51, 48, 44, 84, 58, 45, 57, 13, 10, 170, 1]
    let bad : Bytes := [70, 58, 49, 44, 83, 58, 49, 48, 49, 44, 84, 58, 55, 48, 10]
    (locate good = .ok ⟨⟨true, 30, -9, 0, true⟩, 1, 16⟩ ∧
      Sound good ⟨⟨true, 30, -9, 0, true⟩, 1, 16⟩) ∧
    Frame.size ≤ bad.length ∧ locate bad = .error (.outOfRange .fan 101 0 100) ∧
      bad.length < 256 ∧ [70, 58] <+: bad.drop 0 ∧
        StatusLine.locate bad = .error (.outOfRange .fan 101 0 100) := by
  intro good bad
  have hgood : locate good = .ok ⟨⟨true, 30, -9, 0, true⟩, 1, 16⟩ := by decide +kernel
  have hbad : locate bad = .error (.outOfRange .fan 101 0 100) := by decide +kernel
  have hstart : [70, 58] <+: bad.drop 0 := by decide
  have hfault := (locate_exhaustive bad).2.2.2 _ (by decide) hbad
  exact ⟨⟨hgood, (locate_exhaustive good).2.2.1 _ hgood⟩, by decide, hbad, by decide, hstart,
    hfault.2.2 (by decide) ⟨0, hstart⟩⟩

end BurnerTelemetry.Wire.Message
