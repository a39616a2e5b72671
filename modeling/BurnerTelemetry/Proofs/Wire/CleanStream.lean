import BurnerTelemetry.Proofs.Wire.NextStep
import BurnerTelemetry.Proofs.Wire.Status

/-!
A stream of good messages, cut anywhere. The window holds the end of what has been received, and
its front is always the front of a message: the first message wins over whatever else the window
may be taken for, and what is left is the beginning of a message that is still to come.
-/
namespace BurnerTelemetry.Wire

namespace Status

/-- Where a message is seen that stands at the front of the window. -/
def sighting (m : Status) : Sighting := ⟨m.reading, 0, m.toBytes.length⟩

theorem startMark_not_mem_line (flame : Bool) (fan : Nat) (temperature : Int) (hasReturn : Bool) :
    Frame.startMark ∉ (line flame fan temperature hasReturn).toBytes := by
  intro hm
  rcases List.mem_append.1 hm with hm | hm
  · exact absurd (StatusLine.toNat_of_mem_front hm).2 (by decide)
  · exact absurd (List.mem_singleton.1 hm) (by decide)

theorem faultyCount_toBytes {m : Status} (h : m.WellFormed) :
    Frame.faultyCount m.toBytes = 0 := by
  cases m with
  | frame flame errorCode fan temperature =>
    exact Frame.faultyCount_toBytes (Frame.toReading_ofStatus flame h.1 h.2.1 h.2.2)
  | line flame fan temperature hasReturn =>
    exact Frame.faultyCount_of_not_mem (startMark_not_mem_line flame fan temperature hasReturn)

theorem locate_line {flame : Bool} {fan : Nat} {temperature : Int} {hasReturn : Bool}
    (h : (line flame fan temperature hasReturn).WellFormed) {rest : Bytes}
    (hsize : ((line flame fan temperature hasReturn).toBytes ++ rest).length <
      StatusLine.sizeLimit) :
    StatusLine.locate ((line flame fan temperature hasReturn).toBytes ++ rest) =
      .ok (line flame fan temperature hasReturn).sighting := by
  have hfeed : (line flame fan temperature hasReturn).toBytes ++ rest =
      Text.Utf8.encode (String.ofList
        (StatusLine.text (if flame then 1 else 0) fan temperature)) ++
          StatusLine.optionalReturn hasReturn ++ StatusLine.lineFeed :: rest := by
    simp only [toBytes, List.append_assoc, List.singleton_append]
  rw [hfeed] at hsize ⊢
  rw [StatusLine.locate_text hasReturn h.1 h.2 rfl hsize]
  simp only [sighting, reading, toBytes, List.length_append, List.length_singleton]

/-- A message at the front of the window is accepted, whatever stands behind it. -/
theorem nextStep_toBytes {m : Status} (h : m.WellFormed) {rest : Bytes}
    (hsize : (m.toBytes ++ rest).length < StatusLine.sizeLimit) :
    Reassembly.nextStep (m.toBytes ++ rest) = .accept m.sighting := by
  cases m with
  | frame flame errorCode fan temperature =>
    have hframe := Frame.locate_toBytes (Frame.toReading_ofStatus flame h.1 h.2.1 h.2.2) rest
    cases hl : StatusLine.locate ((frame flame errorCode fan temperature).toBytes ++ rest) with
    | error e =>
      simp only [toBytes] at hl ⊢
      rw [Reassembly.nextStep, hframe, hl]
      rfl
    | ok s =>
      -- a line that ends with the frame or before it would be shorter than a frame
      have hlong := StatusLine.locate_stop_gt hl
      have hlater : ¬ s.stop < Frame.size := by omega
      simp only [toBytes] at hl ⊢
      rw [Reassembly.nextStep, hframe, hl]
      simp only [if_neg hlater]
      rfl
  | line flame fan temperature hasReturn =>
    have hline := locate_line h hsize
    cases hf : Frame.locate ((line flame fan temperature hasReturn).toBytes ++ rest) with
    | error e =>
      rw [Reassembly.nextStep, hf, hline]
    | ok s =>
      have hstop := Frame.locate_stop hf
      have hstart := Frame.length_le_of_locate
        (startMark_not_mem_line flame fan temperature hasReturn) hf
      have hfirst : (line flame fan temperature hasReturn).sighting.stop < s.stop := by
        rw [hstop]
        simp only [sighting, Frame.size]
        omega
      rw [Reassembly.nextStep, hf, hline]
      simp only [if_pos hfirst]

/-- The beginning of a message that has not arrived in full. -/
def Unfinished (bytes : Bytes) : Prop :=
  ∃ next : Status, next.WellFormed ∧ bytes <+: next.toBytes ∧ bytes ≠ next.toBytes

theorem length_lt_of_unfinished {bytes : Bytes} {next : Status} (hp : bytes <+: next.toBytes)
    (hne : bytes ≠ next.toBytes) : bytes.length < next.toBytes.length := by
  have hle := hp.length_le
  by_cases he : bytes.length = next.toBytes.length
  · exact absurd (hp.eq_of_length he) hne
  · omega

/-- Of a message that has not arrived in full only the beginning of a line is long enough to be
looked at, and it has no end yet. -/
theorem nextStep_unfinished {bytes : Bytes} (h : Unfinished bytes)
    (hsize : Frame.size ≤ bytes.length) : Reassembly.nextStep bytes = .wait := by
  obtain ⟨next, hnext, hbegins, hne⟩ := h
  have hlt := length_lt_of_unfinished hbegins hne
  have hlimit := (length_toBytes_le hnext).2
  cases next with
  | frame flame errorCode fan temperature =>
    rw [toBytes, Frame.length_toBytes] at hlt
    omega
  | line flame fan temperature hasReturn =>
    have hfront : bytes <+: Text.Utf8.encode (String.ofList
        (StatusLine.text (if flame then 1 else 0) fan temperature)) ++
          StatusLine.optionalReturn hasReturn := by
      rcases List.prefix_concat_iff.1 hbegins with he | he
      · exact absurd he hne
      · exact he
    have hnoStart : Frame.startMark ∉ bytes := by
      intro hm
      exact startMark_not_mem_line flame fan temperature hasReturn (hbegins.subset hm)
    have hsmall : bytes.length < StatusLine.sizeLimit := by
      simp only [StatusLine.sizeLimit]
      omega
    simp only [Frame.size] at hsize
    rw [Reassembly.nextStep, Frame.locate_of_not_mem hnoStart hsize,
      StatusLine.locate_unterminated hfront (by omega) hsmall]

theorem length_pos {m : Status} (h : m.WellFormed) : 0 < m.toBytes.length :=
  Nat.lt_of_lt_of_le (by decide) (length_toBytes_le h).1

end Status

/-- The bytes of the messages, and the beginning `rest` of one more. -/
structure Stream (bytes : Bytes) (messages : List Status) (rest : Bytes) : Prop where
  wellFormed : ∀ m ∈ messages, m.WellFormed
  bytes_eq : bytes = messages.flatMap Status.toBytes ++ rest
  unfinished : Status.Unfinished rest

namespace Stream

variable {bytes rest : Bytes} {m : Status} {messages : List Status}

theorem nil (h : Status.Unfinished bytes) : Stream bytes [] bytes :=
  ⟨fun _ hm => absurd hm List.not_mem_nil, rfl, h⟩

theorem cons (hm : m.WellFormed) (h : Stream bytes messages rest) :
    Stream (m.toBytes ++ bytes) (m :: messages) rest := by
  constructor
  · exact List.forall_mem_cons.2 ⟨hm, h.wellFormed⟩
  · rw [h.bytes_eq, List.flatMap_cons, List.append_assoc]
  · exact h.unfinished

theorem length_rest_lt (h : Stream bytes messages rest) : rest.length < 19 := by
  obtain ⟨next, hnext, hbegins, hne⟩ := h.unfinished
  have hlt := Status.length_lt_of_unfinished hbegins hne
  have hmax := (Status.length_toBytes_le hnext).2
  omega

/-- A stream cut in two: the messages that are complete at the cut, and the others, whose first
begins in front of the cut or at it. -/
theorem split {front back : Bytes} (h : Stream (front ++ back) messages rest) :
    ∃ earlier later middle, messages = earlier ++ later ∧ Stream front earlier middle ∧
      Stream (middle ++ back) later rest := by
  induction messages generalizing front with
  | nil =>
    have hrest : front ++ back = rest := h.bytes_eq
    obtain ⟨next, hnext, hbegins, hne⟩ := h.unfinished
    have hlt := Status.length_lt_of_unfinished hbegins hne
    rw [← hrest] at hbegins
    have hfront : front <+: next.toBytes := (List.prefix_append front back).trans hbegins
    have hfrontNe : front ≠ next.toBytes := by
      intro he
      have := congrArg List.length hrest
      rw [List.length_append, he] at this
      omega
    exact ⟨[], [], front, rfl, nil ⟨next, hnext, hfront, hfrontNe⟩, h⟩
  | cons m messages ih =>
    have hm := h.wellFormed m List.mem_cons_self
    have hbytes := h.bytes_eq
    rw [List.flatMap_cons, List.append_assoc] at hbytes
    by_cases hcut : front.length < m.toBytes.length
    · have hfront : front <+: m.toBytes :=
        List.prefix_of_prefix_length_le ⟨back, rfl⟩ ⟨_, hbytes.symm⟩ (Nat.le_of_lt hcut)
      have hne : front ≠ m.toBytes := fun he => Nat.ne_of_lt hcut (congrArg List.length he)
      exact ⟨[], m :: messages, front, rfl, nil ⟨m, hm, hfront, hne⟩, h⟩
    · have hfirst : m.toBytes <+: front :=
        List.prefix_of_prefix_length_le ⟨_, hbytes.symm⟩ ⟨back, rfl⟩ (Nat.le_of_not_lt hcut)
      obtain ⟨more, rfl⟩ := hfirst
      rw [List.append_assoc] at hbytes
      have hmore : Stream (more ++ back) messages rest := by
        constructor
        · exact fun n hn => h.wellFormed n (List.mem_cons_of_mem m hn)
        · exact List.append_cancel_left hbytes
        · exact h.unfinished
      obtain ⟨earlier, later, middle, rfl, hearlier, hlater⟩ := ih hmore
      exact ⟨m :: earlier, later, middle, rfl, hearlier.cons hm, hlater⟩

end Stream

namespace Reassembly

/-- The window after `count` more messages have been handed on and nothing has been lost. -/
def passed (r : Reassembly) (count : Nat) (window : Bytes) : Reassembly :=
  { r with window := window, decoded := r.decoded + count }

theorem passed_passed (r : Reassembly) (count more : Nat) (between window : Bytes) :
    (r.passed count between).passed more window = r.passed (count + more) window := by
  simp only [passed, Nat.add_assoc]

/-- Nothing is lost or refused with a good message. -/
theorem accept_sighting {r : Reassembly} {m : Status} (hm : m.WellFormed) {rest : Bytes}
    (h : r.window = m.toBytes ++ rest) : r.accept m.sighting = r.passed 1 rest := by
  simp only [accept, dropFront, passed, Status.sighting, h, List.drop_left, List.take_left,
    Status.faultyCount_toBytes hm, Nat.add_zero]

/-- A window that holds messages yields them all and keeps the beginning of the next. -/
theorem settle_stream {r : Reassembly} {messages : List Status} {rest : Bytes}
    (h : Stream r.window messages rest) (hsize : r.window.length < StatusLine.sizeLimit) :
    r.settle = (messages.map Status.sighting, r.passed messages.length rest) := by
  induction messages generalizing r with
  | nil =>
    have hwindow : r.window = rest := h.bytes_eq
    rw [settle_wait (fun hlong => hwindow ▸ Status.nextStep_unfinished h.unfinished
      (hwindow ▸ hlong)), ← hwindow]
    rfl
  | cons m messages ih =>
    have hm := h.wellFormed m List.mem_cons_self
    have hwindow := h.bytes_eq
    rw [List.flatMap_cons, List.append_assoc] at hwindow
    have hlength := congrArg List.length hwindow
    rw [List.length_append] at hlength
    have hmin := (Status.length_toBytes_le hm).1
    have hstep : nextStep r.window = .accept m.sighting := by
      rw [hwindow] at hsize ⊢
      exact Status.nextStep_toBytes hm hsize
    have hlater : Stream (r.passed 1 (messages.flatMap Status.toBytes ++ rest)).window
        messages rest := by
      constructor
      · exact fun n hn => h.wellFormed n (List.mem_cons_of_mem m hn)
      · rfl
      · exact h.unfinished
    rw [settle_accept (by omega) hstep, accept_sighting hm hwindow, ih hlater (by
      simp only [passed]
      omega), passed_passed, List.length_cons, Nat.add_comm 1]
    rfl

/-- The beginning of a message holds no message. -/
theorem stream_of_unfinished {bytes rest : Bytes} {messages : List Status}
    (h : Stream bytes messages rest) (hbytes : Status.Unfinished bytes) :
    messages = [] ∧ rest = bytes := by
  have hsize : bytes.length < StatusLine.sizeLimit :=
    Nat.lt_trans (Stream.nil hbytes).length_rest_lt (by decide)
  have hnone := @settle_stream ⟨bytes, 0, 0, 0⟩ [] bytes (Stream.nil hbytes) hsize
  rw [@settle_stream ⟨bytes, 0, 0, 0⟩ messages rest h hsize] at hnone
  have hmessages := List.map_eq_nil_iff.1 (Prod.mk.inj hnone).1
  exact ⟨hmessages, congrArg window (Prod.mk.inj hnone).2⟩

/-- Making room takes messages off the window, never bytes of a message to come. -/
theorem makeRoom_stream {r : Reassembly} {bytes : Bytes} {messages : List Status} {rest : Bytes}
    (h : Stream (r.window ++ bytes) messages rest) (hsize : r.window.length ≤ windowSize) :
    ∃ earlier later window, messages = earlier ++ later ∧
      r.makeRoom = (earlier.map Status.sighting, r.passed earlier.length window) ∧
      window.length < windowSize ∧ Stream (window ++ bytes) later rest := by
  rcases Nat.lt_or_ge r.window.length windowSize with hroom | hfull
  · exact ⟨[], messages, r.window, rfl, makeRoom_of_lt hroom, hroom, h⟩
  · obtain ⟨earlier, later, window, hmessages, hearlier, hlater⟩ := h.split
    have hlimit : r.window.length < StatusLine.sizeLimit := Nat.lt_of_le_of_lt hsize (by decide)
    have hsettle := settle_stream hearlier hlimit
    have hroom : window.length < windowSize := Nat.lt_trans hearlier.length_rest_lt (by decide)
    have hsettled : r.settle.2.window.length < windowSize := by
      rw [hsettle]
      exact hroom
    refine ⟨earlier, later, window, hmessages, ?_, hroom, hlater⟩
    rw [makeRoom_of_settled hfull hsettled, hsettle]

theorem pushAll_stream {r : Reassembly} {bytes : Bytes} {messages : List Status} {rest : Bytes}
    (h : Stream (r.window ++ bytes) messages rest) (hsize : r.window.length ≤ windowSize) :
    ∃ earlier later window, messages = earlier ++ later ∧
      r.pushAll bytes = (earlier.map Status.sighting, r.passed earlier.length window) ∧
      window.length ≤ windowSize ∧ Stream window later rest := by
  induction bytes generalizing r messages with
  | nil =>
    rw [List.append_nil] at h
    exact ⟨[], messages, r.window, rfl, rfl, hsize, h⟩
  | cons b bytes ih =>
    obtain ⟨first, others, window, hmessages, hroom, hlt, hothers⟩ := makeRoom_stream h hsize
    have hnext : Stream ((r.passed first.length (window ++ [b])).window ++ bytes) others rest := by
      simp only [passed, List.append_assoc, List.singleton_append]
      exact hothers
    have hnextSize : (r.passed first.length (window ++ [b])).window.length ≤ windowSize := by
      simp only [passed, List.length_append, List.length_singleton]
      omega
    obtain ⟨second, later, final, hothers, hpush, hfinal, hlater⟩ := ih hnext hnextSize
    refine ⟨first ++ second, later, final, ?_, ?_, hfinal, hlater⟩
    · rw [hmessages, hothers, List.append_assoc]
    · rw [pushAll, push, hroom]
      simp only [passed] at hpush ⊢
      simp only [hpush, List.map_append, List.length_append, Nat.add_assoc]

/-- A piece completes exactly the messages that end in it. -/
theorem receive_stream {r : Reassembly} {piece : Bytes} {messages : List Status} {rest : Bytes}
    (h : Stream (r.window ++ piece) messages rest) (hsize : r.window.length ≤ windowSize) :
    r.receive piece = (messages.map Status.sighting, r.passed messages.length rest) := by
  obtain ⟨earlier, later, window, rfl, hpush, hwindow, hlater⟩ := pushAll_stream h hsize
  have hlimit : window.length < StatusLine.sizeLimit := Nat.lt_of_le_of_lt hwindow (by decide)
  have hsettle := @settle_stream (r.passed earlier.length window) later rest hlater hlimit
  rw [receive, hpush]
  simp only [hsettle, passed_passed, List.map_append, List.length_append]

/-- Every cut of a stream gives the same messages and leaves the same window. -/
theorem receiveAll_stream {r : Reassembly} {pieces : List Bytes} {messages : List Status}
    {rest : Bytes} (h : Stream (r.window ++ pieces.flatten) messages rest)
    (hwindow : Status.Unfinished r.window) :
    r.receiveAll pieces = (messages.map Status.sighting, r.passed messages.length rest) := by
  induction pieces generalizing r messages with
  | nil =>
    rw [List.flatten_nil, List.append_nil] at h
    obtain ⟨rfl, rfl⟩ := stream_of_unfinished h hwindow
    rfl
  | cons piece pieces ih =>
    rw [List.flatten_cons, ← List.append_assoc] at h
    obtain ⟨earlier, later, middle, rfl, hearlier, hlater⟩ := h.split
    have hsize : r.window.length ≤ windowSize :=
      Nat.le_trans (Nat.le_of_lt (Stream.nil hwindow).length_rest_lt) (by decide)
    have hrest : (r.passed earlier.length middle).receiveAll pieces = _ :=
      ih hlater hearlier.unfinished
    rw [receiveAll, receive_stream hearlier hsize]
    simp only [hrest, passed_passed, List.map_append, List.length_append]

/-- Of a stream of good messages, however it is cut, exactly those messages are handed on, and the
window keeps the beginning of the one that has not arrived in full. -/
theorem receiveAll_clean {messages : List Status} {next : Status} {rest : Bytes}
    {pieces : List Bytes} (hmessages : ∀ m ∈ messages, m.WellFormed) (hnext : next.WellFormed)
    (hbegins : rest <+: next.toBytes) (hne : rest ≠ next.toBytes)
    (hpieces : pieces.flatten = messages.flatMap Status.toBytes ++ rest) :
    (empty.receiveAll pieces).1.map (fun s => s.reading) = messages.map Status.reading ∧
      (empty.receiveAll pieces).2 = ⟨rest, 0, messages.length, 0⟩ := by
  have hstream : Stream (empty.window ++ pieces.flatten) messages rest :=
    ⟨hmessages, hpieces, next, hnext, hbegins, hne⟩
  have hwindow : Status.Unfinished empty.window := by
    refine ⟨next, hnext, List.nil_prefix, ?_⟩
    exact fun he => absurd (congrArg List.length he) (Nat.ne_of_lt (Status.length_pos hnext))
  rw [receiveAll_stream hstream hwindow]
  constructor
  · rw [List.map_map]
    rfl
  · simp only [passed, empty, Nat.zero_add]

/-- A frame whose fields look like marks, a line, and the first bytes of another line, in four
pieces of which one is empty. -/
theorem receiveAll_clean_mixed :
    (empty.receiveAll [[0xAA, 0x55], [], [0x64, 0x00, 0xAA, 0x55, 70],
        [58, 48, 44, 83, 58, 55, 44, 84, 58, 45, 53, 13, 10, 70, 58]]).1.map
          (fun s => s.reading) =
        [⟨true, 100, 170, 42, true⟩, ⟨false, 7, -5, 0, true⟩] ∧
      (empty.receiveAll [[0xAA, 0x55], [], [0x64, 0x00, 0xAA, 0x55, 70],
        [58, 48, 44, 83, 58, 55, 44, 84, 58, 45, 53, 13, 10, 70, 58]]).2 =
          ⟨[70, 58], 0, 2, 0⟩ := by
  have hmessages : ∀ m ∈ [Status.frame true 42 100 170, .line false 7 (-5) true],
      m.WellFormed := by decide
  have hnext : (Status.line true 0 0 false).WellFormed := by decide
  have hpieces : [[0xAA, 0x55], [], [0x64, 0x00, 0xAA, 0x55, 70],
      [58, 48, 44, 83, 58, 55, 44, 84, 58, 45, 53, 13, 10, 70, 58]].flatten =
        [Status.frame true 42 100 170, .line false 7 (-5) true].flatMap Status.toBytes ++
          [70, 58] := by decide
  exact receiveAll_clean hmessages hnext (by decide) (by decide) hpieces

end Reassembly

end BurnerTelemetry.Wire
