import BurnerTelemetry.Proofs.Wire.Barren
import BurnerTelemetry.Proofs.Wire.Message

/-!
The work on a window ends, and leaves no message behind. A window is never so wide that a line in it
is too long, each turn takes some bytes off it and none that it does not hold, and a byte is never
put into a full window. Main statement: a window is settled in no more turns than it has bytes, and
after each piece of a stream the window holds no acceptable frame and, unless it is shorter than
every message, no complete first line.
-/
namespace BurnerTelemetry.Wire

theorem StatusLine.locate_ne_lineTooLong {bytes : Bytes} (h : bytes.length < sizeLimit) (n : Nat) :
    locate bytes ≠ .error (.lineTooLong n) := by
  intro hlocate
  cases locate_error_iff_fault.1 hlocate with
  | tooLong hlong => exact Nat.not_le_of_lt h hlong

/-- In barren bytes no message is found. -/
theorem Message.Barren.locate_ne_ok {bytes : Bytes} (h : Barren bytes) (s : Sighting) :
    locate bytes ≠ .ok s := by
  intro hlocate
  refine h _ s.reading (s.cut_infix bytes) ?_
  rcases locate_ok_iff.1 hlocate with hframe | ⟨_, hline⟩
  · exact Frame.exact_of_locate hframe
  · exact StatusLine.exact_of_locate hline

namespace Reassembly

/-- What is taken for granted when a window is looked at. -/
structure Orderly (window : Bytes) : Prop where
  accepted : ∀ s, nextStep window = .accept s → 0 < s.stop ∧ s.stop ≤ window.length
  refused : ∀ count, nextStep window = .refuse count → 0 < count ∧ count ≤ window.length
  /-- The window is not too wide for the search for a line. -/
  searched : ∀ n, StatusLine.locate window ≠ .error (.lineTooLong n)
  /-- When neither a frame nor a good line is found, and the line is neither missing nor open, it
  has a start and an end and is refused. -/
  enclosed : ∀ frameFault lineFault, Frame.locate window = .error frameFault →
    StatusLine.locate window = .error lineFault → lineFault ≠ .noLine →
      lineFault ≠ .malformedLine .unterminated →
        ∃ start stop, StatusLine.startIndex? window = some start ∧
          StatusLine.endIndex? window start = some stop ∧
            nextStep window = .refuse (badLength window start stop)

theorem orderly {window : Bytes} (h : window.length ≤ windowSize) : Orderly window := by
  have hsize : window.length < StatusLine.sizeLimit := Nat.lt_of_le_of_lt h (by decide)
  constructor
  · exact fun s hstep => ⟨nextStep_accept hstep, (accept_bounds hstep).2⟩
  · exact fun count hstep => nextStep_refuse hstep
  · exact StatusLine.locate_ne_lineTooLong hsize
  · intro frameFault lineFault hframe hfault hmissing hopen
    obtain ⟨_, _, _, _, _, hline⟩ | ⟨start, stop, e, hfirst, hbad, _⟩ | ⟨_, hline⟩ :=
      StatusLine.locate_cases hsize
    · rw [hfault] at hline
      cases hline
    · have hno := Frame.locate_error_iff.1 ⟨frameFault, hframe⟩
      have hstep : nextStep window = .refuse (badLength window start stop) :=
        (nextStep_refuse_iff hsize).2 ⟨hno, start, stop, ⟨hfirst, e, hbad⟩, rfl⟩
      exact ⟨start, stop, hfirst.1, hfirst.2, hstep⟩
    · rw [hfault, Except.error.injEq, Except.error.injEq] at hline
      rcases hline with rfl | rfl
      · exact absurd rfl hmissing
      · exact absurd rfl hopen

/-- Settles the window if that takes no more than `turns` turns, the last one included that finds
nothing to do. -/
def settleWithin : Nat → Reassembly → Option (List Sighting × Reassembly)
  | 0, r => if r.window.length < Frame.size then some ([], r) else none
  | turns + 1, r =>
    if r.window.length < Frame.size then some ([], r)
    else
      match nextStep r.window with
      | .accept s => (settleWithin turns (r.accept s)).map (fun o => (s :: o.1, o.2))
      | .refuse count => settleWithin turns (r.refuse count)
      | .wait => some ([], r)

/-- Every turn but the last takes a byte off the window, and none is taken when fewer are left than
a message has. -/
theorem settleWithin_eq_some {turns : Nat} {r : Reassembly}
    (h : r.window.length ≤ turns + keptOnOverflow) : settleWithin turns r = some r.settle := by
  induction turns generalizing r with
  | zero =>
    have hshort : r.window.length < Frame.size := by
      simp only [keptOnOverflow, Frame.size] at *
      omega
    rw [settleWithin, if_pos hshort, settle_wait (idle_of_lt hshort)]
  | succ turns ih =>
    by_cases hshort : r.window.length < Frame.size
    · rw [settleWithin, if_pos hshort, settle_wait (idle_of_lt hshort)]
    · have hlong : Frame.size ≤ r.window.length := Nat.le_of_not_lt hshort
      rw [settleWithin, if_neg hshort]
      cases hstep : nextStep r.window with
      | accept s =>
        have hfewer : (r.accept s).window.length ≤ turns + keptOnOverflow := by
          have := nextStep_accept hstep
          rw [window_accept, List.length_drop]
          omega
        simp only [ih hfewer, Option.map_some, settle_accept hlong hstep]
      | refuse count =>
        have hfewer : (r.refuse count).window.length ≤ turns + keptOnOverflow := by
          have := nextStep_refuse hstep
          rw [window_refuse, List.length_drop]
          omega
        simp only [ih hfewer, settle_refuse hlong hstep]
      | wait => rw [settle_wait (fun _ => hstep)]

/-- The next byte finds room in the window. -/
structure Roomy (r : Reassembly) : Prop where
  bounded : r.window.length ≤ windowSize
  /-- If older bytes have to be given up, there are more than are kept. -/
  overflow : r.settle.2.isFull → keptOnOverflow < r.settle.2.window.length
  room : r.makeRoom.2.window.length < windowSize

theorem roomy {r : Reassembly} (h : r.window.length ≤ windowSize) : Roomy r := by
  refine ⟨h, fun hfull => ?_, length_makeRoom_lt r⟩
  exact Nat.lt_of_lt_of_le (by decide) (isFull_iff.1 hfull)

/-- No message can be read from the window. Bytes that are shorter than every message are not
searched for a line, and may hold an `F:` and a line feed. -/
structure Exhausted (window : Bytes) : Prop where
  frames : Frame.NoneIn window
  lines : Frame.size ≤ window.length → ∀ start, StatusLine.startIndex? window = some start →
    StatusLine.lineFeed ∉ window.drop start
  messages : ∀ s, Message.locate window ≠ .ok s

theorem exhausted_of_idle {window : Bytes} (h : Idle window) (hsize : window.length ≤ windowSize) :
    Exhausted window := by
  have hshort : window.length < StatusLine.sizeLimit := Nat.lt_of_le_of_lt hsize (by decide)
  have hbarren := barren_of_idle h hshort
  refine ⟨hbarren.noneIn, fun hlong start hstart hfeed => ?_, hbarren.locate_ne_ok⟩
  obtain ⟨first, stop, hline⟩ :=
    StatusLine.exists_firstLine (Bytes.pairIndex?_eq_some_iff.1 hstart).1 hfeed
  exact (nextStep_wait hshort (h hlong)).2 first stop hline

/-- A window is settled in no more turns than it has bytes, and no turn takes off it what it does not
hold. Every byte of a stream finds room, however the stream is cut, and after each piece no message
is left in the window. -/
theorem receiveAll_exhausts :
    (∀ r : Reassembly, r.window.length ≤ windowSize →
      Orderly r.window ∧ settleWithin r.window.length r = some r.settle) ∧
    (∀ pieces piece, Roomy (partway pieces piece).2) ∧
    ∀ pieces, Exhausted (empty.receiveAll pieces).2.window := by
  refine ⟨fun r h => ⟨orderly h, settleWithin_eq_some (Nat.le_add_right _ _)⟩, ?_, ?_⟩
  · exact fun pieces piece => roomy (traced_partway pieces piece).bounded
  · exact fun pieces => exhausted_of_idle (idle_receiveAll pieces) (traced_receiveAll pieces).bounded

/-- A good line, a bad one and bytes of neither form fill a window to the last byte. It is settled
in three turns, and the next byte of the stream has older bytes given up. -/
theorem receiveAll_exhausts_full :
    let good : Bytes := [70, 58, 49, 44, 83, 58, 55, 44, 84, 58, 45, 53, 10]
    let bad : Bytes := [70, 58, 57, 10]
    let window : Bytes := good ++ bad ++ List.replicate 111 65
    window.length ≤ windowSize ∧ (holding window).isFull = true ∧
      nextStep window = .accept ⟨⟨true, 7, -5, 0, true⟩, 0, 13⟩ ∧ 13 ≤ window.length ∧
      settleWithin 2 (holding window) = none ∧
      settleWithin window.length (holding window) = some (holding window).settle ∧
      (holding window).settle =
        ([⟨⟨true, 7, -5, 0, true⟩, 0, 13⟩], ⟨List.replicate 111 65, 4, 1, 1⟩) ∧
      (partway [] (List.replicate 128 65)).2.makeRoom.2.window = List.replicate 5 65 ∧
      Exhausted (empty.receiveAll [List.replicate 128 65 ++ [70], [58]]).2.window := by
  intro good bad window
  have hsize : window.length ≤ windowSize := by decide +kernel
  have hstep : nextStep window = .accept ⟨⟨true, 7, -5, 0, true⟩, 0, 13⟩ := by decide +kernel
  obtain ⟨horderly, hsettled⟩ := receiveAll_exhausts.1 (holding window) hsize
  exact ⟨hsize, by decide +kernel, hstep, (horderly.accepted _ hstep).2, by decide +kernel, hsettled,
    by decide +kernel, by decide +kernel, receiveAll_exhausts.2.2 _⟩

-- A window that is too short for a message is not looked at.
example : (empty.receiveAll [[70, 58, 10]]).2.window = [70, 58, 10] := by decide +kernel

end Reassembly

end BurnerTelemetry.Wire
