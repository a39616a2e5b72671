import BurnerTelemetry.Proofs.Wire.Locality
import BurnerTelemetry.Wire.Reassembly

/-!
What a window allows next. A message that is accepted stays so whatever comes behind it. A line that
is refused does not: a good frame that is completed later takes its place. Making room always leaves
room for a byte.
-/
namespace BurnerTelemetry.Wire

namespace Reassembly

/-- A frame is accepted unless a line ends before it, a line unless a frame ends with it or
before. -/
theorem nextStep_accept_iff {window : Bytes} {s : Sighting} :
    nextStep window = .accept s ↔
      (Frame.locate window = .ok s ∧
        ∀ line, StatusLine.locate window = .ok line → s.stop ≤ line.stop) ∨
      (StatusLine.locate window = .ok s ∧
        ∀ frame, Frame.locate window = .ok frame → s.stop < frame.stop) := by
  constructor
  · intro h
    unfold nextStep at h
    split at h
    · rename_i frame line hframe hline
      split at h
      · rename_i hfirst
        cases h
        refine .inr ⟨hline, fun other hother => ?_⟩
        rw [← Except.ok.inj (hframe.symm.trans hother)]
        exact hfirst
      · rename_i hfirst
        cases h
        refine .inl ⟨hframe, fun other hother => ?_⟩
        rw [← Except.ok.inj (hline.symm.trans hother)]
        exact Nat.le_of_not_lt hfirst
    · rename_i hframe hline
      cases h
      refine .inl ⟨hframe, fun other hother => ?_⟩
      rw [hline] at hother
      cases hother
    · rename_i hframe hline
      cases h
      refine .inr ⟨hline, fun other hother => ?_⟩
      rw [hframe] at hother
      cases hother
    · cases h
    · cases h
    · split at h <;> cases h
  · rintro (⟨hframe, hlines⟩ | ⟨hline, hframes⟩)
    · cases hline : StatusLine.locate window with
      | ok line =>
        rw [nextStep, hframe, hline]
        simp only [if_neg (Nat.not_lt_of_le (hlines line hline))]
      | error e => rw [nextStep, hframe, hline]
    · cases hframe : Frame.locate window with
      | ok frame =>
        rw [nextStep, hframe, hline]
        simp only [if_pos (hframes frame hframe)]
      | error e => rw [nextStep, hframe, hline]

/-- No message is shorter than a frame. -/
theorem accept_bounds {window : Bytes} {s : Sighting} (h : nextStep window = .accept s) :
    s.start + Frame.size ≤ s.stop ∧ s.stop ≤ window.length := by
  rcases nextStep_accept_iff.1 h with ⟨hframe, _⟩ | ⟨hline, _⟩
  · exact ⟨Nat.le_of_eq (Frame.locate_stop hframe).symm, Frame.locate_stop_le hframe⟩
  · exact ⟨Nat.le_of_lt (StatusLine.locate_stop_gt hline), (StatusLine.locate_bounds hline).2⟩

/-- The first line is complete and bad. -/
def BadLine (window : Bytes) (start stop : Nat) : Prop :=
  StatusLine.FirstLine window start stop ∧
    ∃ e, StatusLine.ofLine (StatusLine.between window start stop) = .error e

/-- How much goes with a bad line: what stands in front of the last `F:` in it, or all of it. -/
def badLength (window : Bytes) (start stop : Nat) : Nat :=
  (lastStart? (window.take stop) (start + 1)).getD (stop + 1)

theorem BadLine.append {window : Bytes} {start stop : Nat} (h : BadLine window start stop)
    (rest : Bytes) : BadLine (window ++ rest) start stop ∧
      badLength (window ++ rest) start stop = badLength window start stop := by
  obtain ⟨hline, e, he⟩ := h
  have hstop := hline.bounds.2
  refine ⟨⟨(StatusLine.FirstLine.append_iff hstop rest).2 hline, e, ?_⟩, ?_⟩
  · rw [StatusLine.between_append (Nat.le_of_lt hstop), he]
  · rw [badLength, badLength, List.take_append_of_le_length (Nat.le_of_lt hstop)]

theorem refusalLength?_of_firstLine {window : Bytes} {start stop : Nat}
    (h : StatusLine.FirstLine window start stop) :
    refusalLength? window = some (badLength window start stop) := by
  simp only [refusalLength?, h.1, h.2, Option.bind_eq_bind, Option.bind_some]
  rfl

/-- A window that allows no message holds no good frame, and its first line is bad and refused, or
there is none yet. -/
theorem nextStep_cases {window : Bytes} (hsize : window.length < StatusLine.sizeLimit) :
    (∃ s, nextStep window = .accept s) ∨
    (Frame.NoneIn window ∧ ∃ start stop, BadLine window start stop ∧
      nextStep window = .refuse (badLength window start stop)) ∨
    (Frame.NoneIn window ∧
      (∀ start stop, ¬ StatusLine.FirstLine window start stop) ∧ nextStep window = .wait) := by
  unfold nextStep
  cases hframe : Frame.locate window with
  | ok frame =>
    cases StatusLine.locate window with
    | ok line => exact .inl ⟨_, rfl⟩
    | error e => exact .inl ⟨frame, rfl⟩
  | error fault =>
    have hno := Frame.locate_error_iff.1 ⟨fault, hframe⟩
    obtain ⟨start, stop, r, _, _, hline⟩ | ⟨start, stop, e, hfirst, hbad, hline⟩ | ⟨hnone, hline⟩ :=
      StatusLine.locate_cases hsize
    · exact .inl ⟨_, by rw [hline]⟩
    · -- a bad line has neither of the two faults that are waited on
      obtain ⟨hnoLine, hunterminated⟩ := StatusLine.ofLine_error hbad
      refine .inr (.inl ⟨hno, start, stop, ⟨hfirst, e, hbad⟩, ?_⟩)
      rw [hline, refusalLength?_of_firstLine hfirst]
      split <;> simp_all
    · refine .inr (.inr ⟨hno, hnone, ?_⟩)
      rcases hline with hline | hline <;> rw [hline]

/-- A window is waited on only when there is neither a good frame nor a complete line in it. -/
theorem nextStep_wait {window : Bytes} (hsize : window.length < StatusLine.sizeLimit)
    (h : nextStep window = .wait) :
    Frame.NoneIn window ∧ ∀ start stop, ¬ StatusLine.FirstLine window start stop := by
  obtain ⟨s, hstep⟩ | ⟨_, _, _, _, hstep⟩ | ⟨hnoFrame, hnoLine, _⟩ := nextStep_cases hsize
  · rw [h] at hstep
    cases hstep
  · rw [h] at hstep
    cases hstep
  · exact ⟨hnoFrame, hnoLine⟩

theorem nextStep_refuse_iff {window : Bytes} {count : Nat}
    (hsize : window.length < StatusLine.sizeLimit) :
    nextStep window = .refuse count ↔ Frame.NoneIn window ∧
      ∃ start stop, BadLine window start stop ∧ count = badLength window start stop := by
  constructor
  · intro h
    obtain ⟨s, hstep⟩ | ⟨hno, start, stop, hbad, hstep⟩ | ⟨_, _, hstep⟩ := nextStep_cases hsize
    · rw [hstep] at h
      cases h
    · rw [hstep] at h
      cases h
      exact ⟨hno, start, stop, hbad, rfl⟩
    · rw [hstep] at h
      cases h
  · rintro ⟨hno, start, stop, hbad, rfl⟩
    obtain ⟨s, hstep⟩ | ⟨_, start', stop', hbad', hstep⟩ | ⟨_, hnone, _⟩ := nextStep_cases hsize
    · rcases nextStep_accept_iff.1 hstep with ⟨hframe, _⟩ | ⟨hline, _⟩
      · exact absurd (Frame.locate_ok_iff.1 hframe).2.1 (hno _ _)
      · obtain ⟨stop', _, hline', hgood⟩ := (StatusLine.locate_ok_iff hsize).1 hline
        obtain ⟨hline, e, he⟩ := hbad
        obtain ⟨rfl, rfl⟩ := hline.unique hline'
        rw [he] at hgood
        cases hgood
    · obtain ⟨rfl, rfl⟩ := hbad.1.unique hbad'.1
      exact hstep
    · exact absurd hbad.1 (hnone start stop)

/-- An accepted message is accepted whatever comes behind it. -/
theorem nextStep_accept_append {window rest : Bytes} {s : Sighting}
    (hsize : (window ++ rest).length < StatusLine.sizeLimit) (h : nextStep window = .accept s) :
    nextStep (window ++ rest) = .accept s := by
  apply nextStep_accept_iff.2
  rcases nextStep_accept_iff.1 h with ⟨hframe, hlines⟩ | ⟨hline, hframes⟩
  · have hstop := Frame.locate_stop_le hframe
    refine .inl ⟨(Frame.locate_append_iff hstop rest).2 hframe, fun line hline => ?_⟩
    by_cases hshort : line.stop ≤ window.length
    · exact hlines line ((StatusLine.locate_append_iff hshort hsize).1 hline)
    · omega
  · have hstop := (StatusLine.locate_bounds hline).2
    refine .inr ⟨(StatusLine.locate_append_iff hstop hsize).2 hline, fun frame hframe => ?_⟩
    by_cases hshort : frame.stop ≤ window.length
    · exact hframes frame ((Frame.locate_append_iff hshort rest).1 hframe)
    · omega

/-- A refused line is refused whatever comes behind it, unless it completes a good frame. -/
theorem nextStep_refuse_append {window rest : Bytes} {count : Nat}
    (hsize : (window ++ rest).length < StatusLine.sizeLimit)
    (h : nextStep window = .refuse count) (hno : Frame.NoneIn (window ++ rest)) :
    nextStep (window ++ rest) = .refuse count := by
  have hshort : window.length < StatusLine.sizeLimit := by
    rw [List.length_append] at hsize
    omega
  obtain ⟨_, start, stop, hbad, rfl⟩ := (nextStep_refuse_iff hshort).1 h
  obtain ⟨hbadMore, hlength⟩ := hbad.append rest
  exact (nextStep_refuse_iff hsize).2 ⟨hno, start, stop, hbadMore, hlength.symm⟩

theorem settle_wait {r : Reassembly}
    (h : Frame.size ≤ r.window.length → nextStep r.window = .wait) : r.settle = ([], r) := by
  rw [settle]
  split
  · rename_i hlong
    have hwait := h hlong
    split
    · rename_i hstep
      rw [hwait] at hstep
      cases hstep
    · rename_i hstep
      rw [hwait] at hstep
      cases hstep
    · rfl
  · rfl

theorem settle_accept {r : Reassembly} {s : Sighting} (hlong : Frame.size ≤ r.window.length)
    (h : nextStep r.window = .accept s) :
    r.settle = (s :: (r.accept s).settle.1, (r.accept s).settle.2) := by
  rw [settle, if_pos hlong]
  split
  · rename_i hstep
    rw [h] at hstep
    cases hstep
    rfl
  · rename_i hstep
    rw [h] at hstep
    cases hstep
  · rename_i hstep
    rw [h] at hstep
    cases hstep

theorem settle_refuse {r : Reassembly} {count : Nat} (hlong : Frame.size ≤ r.window.length)
    (h : nextStep r.window = .refuse count) : r.settle = (r.refuse count).settle := by
  rw [settle, if_pos hlong]
  split
  · rename_i hstep
    rw [h] at hstep
    cases hstep
  · rename_i hstep
    rw [h] at hstep
    cases hstep
    rfl
  · rename_i hstep
    rw [h] at hstep
    cases hstep

theorem length_shed {r : Reassembly} (h : windowSize ≤ r.window.length) :
    r.shed.window.length = keptOnOverflow := by
  simp only [shed, window_dropFront, List.length_drop, keptOnOverflow, Frame.size, windowSize] at *
  omega

theorem isFull_iff {r : Reassembly} : r.isFull = true ↔ windowSize ≤ r.window.length :=
  decide_eq_true_iff

theorem makeRoom_of_lt {r : Reassembly} (h : r.window.length < windowSize) :
    r.makeRoom = ([], r) := by
  rw [makeRoom, if_neg (fun hfull => Nat.not_le_of_lt h (isFull_iff.1 hfull))]

theorem makeRoom_of_settled {r : Reassembly} (h : windowSize ≤ r.window.length)
    (hroom : r.settle.2.window.length < windowSize) : r.makeRoom = r.settle := by
  rw [makeRoom, if_pos (isFull_iff.2 h)]
  simp only [isFull_iff, if_neg (Nat.not_le_of_lt hroom)]

theorem makeRoom_of_full {r : Reassembly} (h : windowSize ≤ r.window.length)
    (hstill : windowSize ≤ r.settle.2.window.length) :
    r.makeRoom = (r.settle.1, r.settle.2.shed) := by
  rw [makeRoom, if_pos (isFull_iff.2 h)]
  simp only [isFull_iff, if_pos hstill]

/-- A window that is not full is left alone; a full one is settled, and shed if it is full even
then. -/
theorem makeRoom_cases (r : Reassembly) :
    (r.window.length < windowSize ∧ r.makeRoom = ([], r)) ∨
    (r.settle.2.window.length < windowSize ∧ r.makeRoom = r.settle) ∨
    (windowSize ≤ r.settle.2.window.length ∧ r.makeRoom = (r.settle.1, r.settle.2.shed)) := by
  rcases Nat.lt_or_ge r.window.length windowSize with hroom | hfull
  · exact .inl ⟨hroom, makeRoom_of_lt hroom⟩
  · rcases Nat.lt_or_ge r.settle.2.window.length windowSize with hroom | hstill
    · exact .inr (.inl ⟨hroom, makeRoom_of_settled hfull hroom⟩)
    · exact .inr (.inr ⟨hstill, makeRoom_of_full hfull hstill⟩)

theorem length_makeRoom_lt (r : Reassembly) : r.makeRoom.2.window.length < windowSize := by
  obtain ⟨hroom, heq⟩ | ⟨hroom, heq⟩ | ⟨hstill, heq⟩ := makeRoom_cases r
  · rwa [heq]
  · rwa [heq]
  · rw [heq, length_shed hstill]
    decide

end Reassembly

end BurnerTelemetry.Wire
