import BurnerTelemetry.Proofs.Wire.NextStep

/-!
What a window comes to when it is settled, and whether it makes a difference that it is settled
before one more byte arrives. It makes none but for one case: the byte completes a good frame while
a refused line is still in the window.
-/
namespace BurnerTelemetry.Wire

namespace Frame

/-- The bytes end with a good frame of this reading. -/
def EndsIn (bytes : Bytes) (r : Reading) : Prop :=
  ∃ f : Frame, f.toReading = .ok r ∧ f.toBytes <:+ bytes

theorem endsIn_iff {bytes : Bytes} {r : Reading} :
    EndsIn bytes r ↔ size ≤ bytes.length ∧ StandsAt bytes (bytes.length - size) r := by
  constructor
  · rintro ⟨f, hreading, front, rfl⟩
    rw [List.length_append, length_toBytes, Nat.add_sub_cancel]
    refine ⟨Nat.le_add_left size front.length, f, hreading, ?_⟩
    simp only [List.drop_left, List.prefix_rfl]
  · rintro ⟨hsize, f, hreading, hfront⟩
    have hwhole : f.toBytes = bytes.drop (bytes.length - size) := by
      apply hfront.eq_of_length
      rw [List.length_drop, length_toBytes]
      omega
    exact ⟨f, hreading, hwhole ▸ List.drop_suffix _ bytes⟩

theorem EndsIn.of_suffix {bytes last : Bytes} {r : Reading} (h : EndsIn bytes r)
    (hlast : last <:+ bytes) (hsize : size ≤ last.length) : EndsIn last r := by
  obtain ⟨f, hreading, hf⟩ := h
  exact ⟨f, hreading, List.suffix_of_suffix_length_le hf hlast hsize⟩

theorem not_endsIn_concat {bytes : Bytes} {b : UInt8} (h : b ≠ endMark) (r : Reading) :
    ¬ EndsIn (bytes ++ [b]) r := by
  rintro ⟨f, _, front, hfront⟩
  have hlast : front ++ [startMark, f.flags, f.fan, Bytes.highHalf f.temperature,
      Bytes.lowHalf f.temperature] ++ [endMark] = bytes ++ [b] := by
    rw [← hfront, List.append_assoc]
    rfl
  exact h (List.singleton_inj.1 (List.append_inj' hlast rfl).2).symm

/-- A frame that one more byte brings with it ends with that byte. -/
theorem endsIn_of_locate {bytes : Bytes} {b : UInt8} {s : Sighting}
    (hno : NoneIn bytes) (h : locate (bytes ++ [b]) = .ok s) :
    s.stop = (bytes ++ [b]).length ∧ EndsIn (bytes ++ [b]) s.reading := by
  obtain ⟨hstop, hstands, _⟩ := locate_ok_iff.1 h
  have hle := hstands.add_size_le
  have hlast : s.start + size = (bytes ++ [b]).length := by
    by_contra hne
    rw [List.length_append, List.length_singleton] at hle hne
    exact hno _ _ ((StandsAt.append_iff (by omega) [b]).1 hstands)
  refine ⟨hstop.trans hlast, endsIn_iff.2 ⟨by omega, ?_⟩⟩
  rw [← hlast, Nat.add_sub_cancel]
  exact hstands

theorem locate_of_endsIn {bytes : Bytes} {b : UInt8} {r : Reading}
    (hno : NoneIn bytes) (h : EndsIn (bytes ++ [b]) r) :
    locate (bytes ++ [b]) =
      .ok ⟨r, (bytes ++ [b]).length - size, (bytes ++ [b]).length⟩ := by
  obtain ⟨hsize, hstands⟩ := endsIn_iff.1 h
  refine locate_ok_iff.2 ⟨(Nat.sub_add_cancel hsize).symm, hstands, ?_⟩
  intro j hj q hq
  simp only [List.length_append, List.length_singleton] at hsize hj
  exact hno j q ((StandsAt.append_iff (by omega) [b]).1 hq)

end Frame

namespace Reassembly

/-- Nothing can be taken off the window before more bytes arrive. -/
def Idle (window : Bytes) : Prop := Frame.size ≤ window.length → nextStep window = .wait

theorem idle_of_lt {window : Bytes} (h : window.length < Frame.size) : Idle window :=
  fun hlong => absurd hlong (Nat.not_le_of_lt h)

/-- A window is idle, or a message is accepted or a line refused, and so on with what is left. -/
theorem window_induction {P : Bytes → Prop} (idle : ∀ window, Idle window → P window)
    (accept : ∀ window s, Frame.size ≤ window.length → nextStep window = .accept s →
      P (window.drop s.stop) → P window)
    (refuse : ∀ window count, Frame.size ≤ window.length → nextStep window = .refuse count →
      P (window.drop count) → P window) (window : Bytes) : P window := by
  induction hn : window.length using Nat.strongRecOn generalizing window with
  | ind n ih =>
    by_cases hlong : Frame.size ≤ window.length
    · cases hstep : nextStep window with
      | accept s =>
        have := nextStep_accept hstep
        refine accept window s hlong hstep (ih (window.drop s.stop).length ?_ _ rfl)
        simp only [List.length_drop, Frame.size] at *
        omega
      | refuse count =>
        have := nextStep_refuse hstep
        refine refuse window count hlong hstep (ih (window.drop count).length ?_ _ rfl)
        simp only [List.length_drop, Frame.size] at *
        omega
      | wait => exact idle window (fun _ => hstep)
    · exact idle window (idle_of_lt (Nat.lt_of_not_le hlong))

/-- What is found and what is left depends on the window alone. -/
theorem settle_congr {r q : Reassembly} (h : r.window = q.window) :
    r.settle.1 = q.settle.1 ∧ r.settle.2.window = q.settle.2.window := by
  induction hw : r.window using window_induction generalizing r q with
  | idle window hidle =>
    subst hw
    rw [settle_wait hidle, settle_wait (h ▸ hidle)]
    exact ⟨rfl, h⟩
  | accept window s hlong hstep ih =>
    subst hw
    have hlongSame : Frame.size ≤ q.window.length := h ▸ hlong
    have hstepSame : nextStep q.window = .accept s := h ▸ hstep
    have hnext : (r.accept s).window = (q.accept s).window := by
      rw [window_accept, window_accept, h]
    obtain ⟨hfound, hleft⟩ := ih hnext rfl
    rw [settle_accept hlong hstep, settle_accept hlongSame hstepSame, hfound]
    exact ⟨rfl, hleft⟩
  | refuse window count hlong hstep ih =>
    subst hw
    have hlongSame : Frame.size ≤ q.window.length := h ▸ hlong
    have hstepSame : nextStep q.window = .refuse count := h ▸ hstep
    have hnext : (r.refuse count).window = (q.refuse count).window := by
      rw [window_refuse, window_refuse, h]
    rw [settle_refuse hlong hstep, settle_refuse hlongSame hstepSame]
    exact ih hnext rfl

/-- A window on its own, with nothing counted yet. -/
def holding (window : Bytes) : Reassembly := { empty with window := window }

/-- The readings that a window yields when it is settled. -/
def readings (window : Bytes) : List Reading := (holding window).settle.1.map (fun s => s.reading)

/-- What is left of a window when it is settled. -/
def residue (window : Bytes) : Bytes := (holding window).settle.2.window

theorem readings_settle (r : Reassembly) :
    r.settle.1.map (fun s => s.reading) = readings r.window :=
  congrArg (List.map (fun s => s.reading)) (@settle_congr r (holding r.window) rfl).1

theorem window_settle (r : Reassembly) : r.settle.2.window = residue r.window :=
  (@settle_congr r (holding r.window) rfl).2

section Equations

variable {window : Bytes}

theorem readings_idle (h : Idle window) : readings window = [] := by
  rw [readings, @settle_wait (holding window) h]
  rfl

theorem residue_idle (h : Idle window) : residue window = window := by
  rw [residue, @settle_wait (holding window) h]
  rfl

theorem readings_accept {s : Sighting} (hlong : Frame.size ≤ window.length)
    (h : nextStep window = .accept s) :
    readings window = s.reading :: readings (window.drop s.stop) := by
  rw [readings, @settle_accept (holding window) s hlong h, List.map_cons, readings_settle]
  rfl

theorem residue_accept {s : Sighting} (hlong : Frame.size ≤ window.length)
    (h : nextStep window = .accept s) : residue window = residue (window.drop s.stop) := by
  rw [residue, @settle_accept (holding window) s hlong h]
  exact window_settle _

theorem readings_refuse {count : Nat} (hlong : Frame.size ≤ window.length)
    (h : nextStep window = .refuse count) : readings window = readings (window.drop count) := by
  rw [readings, @settle_refuse (holding window) count hlong h]
  exact readings_settle _

theorem residue_refuse {count : Nat} (hlong : Frame.size ≤ window.length)
    (h : nextStep window = .refuse count) : residue window = residue (window.drop count) := by
  rw [residue, @settle_refuse (holding window) count hlong h]
  exact window_settle _

end Equations

theorem residue_suffix (window : Bytes) : residue window <:+ window := by
  induction window using window_induction with
  | idle window hidle => exact (residue_idle hidle).symm ▸ List.suffix_rfl
  | accept window s hlong hstep ih =>
    rw [residue_accept hlong hstep]
    exact ih.trans (List.drop_suffix _ _)
  | refuse window count hlong hstep ih =>
    rw [residue_refuse hlong hstep]
    exact ih.trans (List.drop_suffix _ _)

/-- A window is settled once. -/
theorem idle_residue (window : Bytes) : Idle (residue window) := by
  induction window using window_induction with
  | idle window hidle => rwa [residue_idle hidle]
  | accept window s hlong hstep ih => rwa [residue_accept hlong hstep]
  | refuse window count hlong hstep ih => rwa [residue_refuse hlong hstep]

/-- The byte completes a good frame behind a line that would be refused, and the bytes between them
matter: they yield readings of their own, or the line reaches into the frame. -/
inductive Disputed : Bytes → UInt8 → Prop where
  | here {window : Bytes} {b : UInt8} {count : Nat} {s : Sighting}
      (long : Frame.size ≤ window.length) (refused : nextStep window = .refuse count)
      (frame : Frame.locate (window ++ [b]) = .ok s)
      (cost : readings window ≠ [] ∨ (residue window ++ [b]).length < Frame.size) :
      Disputed window b
  | later {window : Bytes} {b : UInt8} {s : Sighting} (long : Frame.size ≤ window.length)
      (accepted : nextStep window = .accept s) (rest : Disputed (window.drop s.stop) b) :
      Disputed window b

theorem Disputed.not_idle {window : Bytes} {b : UInt8} (h : Disputed window b) : ¬ Idle window := by
  intro hidle
  cases h with
  | here long refused frame cost =>
    rw [hidle long] at refused
    cases refused
  | later long accepted rest =>
    rw [hidle long] at accepted
    cases accepted

/-- There is a good frame to dispute about. -/
theorem Disputed.not_noneIn {window : Bytes} {b : UInt8} (h : Disputed window b) :
    ¬ Frame.NoneIn (window ++ [b]) := by
  intro hno
  induction h with
  | here long refused frame cost =>
    exact hno _ _ (Frame.locate_ok_iff.1 frame).2.1
  | later long accepted rest ih =>
    exact ih (hno.of_suffix (List.suffix_append_self_iff.2 (List.drop_suffix _ _)))

/-- There is a line to dispute about. -/
theorem Disputed.exists_line {window : Bytes} {b : UInt8} (h : Disputed window b)
    (hsize : window.length < StatusLine.sizeLimit) : [70, 58] <:+: window := by
  induction h with
  | here long refused frame cost =>
    obtain ⟨_, start, stop, hbad, _⟩ := (nextStep_refuse_iff hsize).1 refused
    have hpair := (Bytes.pairIndex?_eq_some_iff.1 hbad.1.1).1
    exact hpair.isInfix.trans (List.drop_suffix start _).isInfix
  | @later window b s long accepted rest ih =>
    have hshort : (window.drop s.stop).length < StatusLine.sizeLimit :=
      Nat.lt_of_le_of_lt (List.drop_suffix s.stop window).length_le hsize
    exact (ih hshort).trans (List.drop_suffix s.stop window).isInfix

/-- The two orders come to the same: the byte arrives and the window is settled, or the window is
settled first. -/
def Joins (window : Bytes) (b : UInt8) : Prop :=
  readings (window ++ [b]) = readings window ++ readings (residue window ++ [b]) ∧
    residue (window ++ [b]) = residue (residue window ++ [b])

theorem joins_idle {window : Bytes} (h : Idle window) (b : UInt8) : Joins window b := by
  rw [Joins, readings_idle h, residue_idle h, List.nil_append]
  exact ⟨rfl, rfl⟩

section Joining

variable {window : Bytes} {b : UInt8}

theorem size_le_concat (h : Frame.size ≤ window.length) : Frame.size ≤ (window ++ [b]).length := by
  rw [List.length_append]
  omega

theorem joins_accept_iff {s : Sighting} (hsize : (window ++ [b]).length < StatusLine.sizeLimit)
    (hlong : Frame.size ≤ window.length) (hstep : nextStep window = .accept s) :
    Joins window b ↔ Joins (window.drop s.stop) b := by
  have hmore := nextStep_accept_append hsize hstep
  have hstop := (accept_bounds hstep).2
  rw [Joins, readings_accept (size_le_concat hlong) hmore, readings_accept hlong hstep,
    residue_accept (size_le_concat hlong) hmore, residue_accept hlong hstep,
    List.drop_append_of_le_length hstop, List.cons_append, List.cons_inj_right]
  rfl

theorem joins_refuse_iff {count : Nat} (hlong : Frame.size ≤ window.length)
    (hstep : nextStep window = .refuse count) (hmore : nextStep (window ++ [b]) = .refuse count) :
    Joins window b ↔ Joins (window.drop count) b := by
  have hcount := (nextStep_refuse hstep).2
  rw [Joins, readings_refuse (size_le_concat hlong) hmore, readings_refuse hlong hstep,
    residue_refuse (size_le_concat hlong) hmore, residue_refuse hlong hstep,
    List.drop_append_of_le_length hcount]
  rfl

/-- A message that takes up the whole window is all that it yields. -/
theorem settle_whole {s : Sighting} (hlong : Frame.size ≤ window.length)
    (hstep : nextStep window = .accept s) (hstop : s.stop = window.length) :
    readings window = [s.reading] ∧ residue window = [] := by
  have hidle : Idle [] := idle_of_lt (by decide)
  rw [readings_accept hlong hstep, residue_accept hlong hstep, hstop, List.drop_length,
    readings_idle hidle, residue_idle hidle]
  exact ⟨rfl, rfl⟩

/-- A frame that ends the window is accepted when neither a frame nor a line was there before. -/
theorem nextStep_frame_last {s : Sighting} (hsize : (window ++ [b]).length < StatusLine.sizeLimit)
    (hno : Frame.NoneIn window) (hline : ∀ s, nextStep window ≠ .accept s)
    (hframe : Frame.locate (window ++ [b]) = .ok s) : nextStep (window ++ [b]) = .accept s := by
  have hstop := (Frame.endsIn_of_locate hno hframe).1
  refine nextStep_accept_iff.2 (.inl ⟨hframe, fun line hfound => ?_⟩)
  by_contra hbefore
  rw [hstop, List.length_append, List.length_singleton] at hbefore
  have hearlier : StatusLine.locate window = .ok line :=
    (StatusLine.locate_append_iff (by omega) hsize).1 hfound
  refine hline line (nextStep_accept_iff.2 (.inr ⟨hearlier, fun frame hother => ?_⟩))
  exact absurd (Frame.locate_ok_iff.1 hother).2.1 (hno _ _)

/-- An idle window holds no message, however short it is. -/
theorem not_accept_of_idle (h : Idle window) (s : Sighting) : nextStep window ≠ .accept s := by
  intro hstep
  have hbounds := accept_bounds hstep
  have hlong : Frame.size ≤ window.length := by omega
  rw [h hlong] at hstep
  cases hstep

/-- It is then all that the window yields. -/
theorem settle_frame_last {r : Reading} (hsize : (window ++ [b]).length < StatusLine.sizeLimit)
    (hno : Frame.NoneIn window) (hline : ∀ s, nextStep window ≠ .accept s)
    (hends : Frame.EndsIn (window ++ [b]) r) :
    readings (window ++ [b]) = [r] ∧ residue (window ++ [b]) = [] :=
  settle_whole (Frame.endsIn_iff.1 hends).1
    (nextStep_frame_last hsize hno hline (Frame.locate_of_endsIn hno hends)) rfl

/-- What is left of the window keeps the frame that the byte completes, if it keeps enough. -/
theorem settle_residue_concat {r : Reading} (hsize : (window ++ [b]).length < StatusLine.sizeLimit)
    (hno : Frame.NoneIn window) (hends : Frame.EndsIn (window ++ [b]) r)
    (hleft : Frame.size ≤ (residue window ++ [b]).length) :
    readings (residue window ++ [b]) = [r] ∧ residue (residue window ++ [b]) = [] := by
  have hsuffix : residue window ++ [b] <:+ window ++ [b] :=
    List.suffix_append_self_iff.2 (residue_suffix window)
  exact settle_frame_last (Nat.lt_of_le_of_lt hsuffix.length_le hsize)
    (hno.of_suffix (residue_suffix window)) (not_accept_of_idle (idle_residue window))
    (hends.of_suffix hsuffix hleft)

/-- The frame that the byte completes takes the line's place. The two orders come to the same if the
bytes behind the line yield nothing and the frame is still whole when the line is gone. -/
theorem joins_frame_iff {count : Nat} {s : Sighting}
    (hsize : (window ++ [b]).length < StatusLine.sizeLimit)
    (hstep : nextStep window = .refuse count) (hframe : Frame.locate (window ++ [b]) = .ok s) :
    Joins window b ↔ readings window = [] ∧ Frame.size ≤ (residue window ++ [b]).length := by
  have hshort : window.length < StatusLine.sizeLimit := by
    rw [List.length_append] at hsize
    omega
  have hno := ((nextStep_refuse_iff hshort).1 hstep).1
  have hends := (Frame.endsIn_of_locate hno hframe).2
  have hnotAccepted : ∀ s, nextStep window ≠ .accept s := by
    intro s haccept
    rw [hstep] at haccept
    cases haccept
  obtain ⟨hreadings, hresidue⟩ := settle_frame_last hsize hno hnotAccepted hends
  rw [Joins, hreadings, hresidue]
  constructor
  · rintro ⟨hsame, hgone⟩
    by_cases hleft : Frame.size ≤ (residue window ++ [b]).length
    · rw [(settle_residue_concat hsize hno hends hleft).1] at hsame
      exact ⟨List.append_left_eq_self.1 hsame.symm, hleft⟩
    · have hidle : Idle (residue window ++ [b]) := idle_of_lt (Nat.lt_of_not_le hleft)
      rw [residue_idle hidle] at hgone
      exact absurd hgone.symm (List.append_ne_nil_of_right_ne_nil _ (List.cons_ne_nil b []))
  · rintro ⟨hnone, hleft⟩
    obtain ⟨hsame, hgone⟩ := settle_residue_concat hsize hno hends hleft
    rw [hnone, hsame, hgone]
    exact ⟨rfl, rfl⟩

end Joining

theorem Disputed.accept_iff {window : Bytes} {b : UInt8} {s : Sighting}
    (hlong : Frame.size ≤ window.length) (hstep : nextStep window = .accept s) :
    Disputed window b ↔ Disputed (window.drop s.stop) b := by
  constructor
  · intro h
    cases h with
    | here long refused frame cost =>
      rw [hstep] at refused
      cases refused
    | later long accepted rest =>
      rw [hstep] at accepted
      cases accepted
      exact rest
  · exact fun h => .later hlong hstep h

theorem Disputed.refuse_iff {window : Bytes} {b : UInt8} {count : Nat} {s : Sighting}
    (hlong : Frame.size ≤ window.length) (hstep : nextStep window = .refuse count)
    (hframe : Frame.locate (window ++ [b]) = .ok s) :
    Disputed window b ↔ readings window ≠ [] ∨ (residue window ++ [b]).length < Frame.size := by
  constructor
  · intro h
    cases h with
    | here long refused frame cost => exact cost
    | later long accepted rest =>
      rw [hstep] at accepted
      cases accepted
  · exact fun h => .here hlong hstep hframe h

/-- Settling the window before the byte arrives makes a difference exactly if the byte is
disputed. -/
theorem joins_iff {window : Bytes} {b : UInt8}
    (hsize : (window ++ [b]).length < StatusLine.sizeLimit) :
    Joins window b ↔ ¬ Disputed window b := by
  induction window using window_induction with
  | idle window hidle => exact ⟨fun _ h => h.not_idle hidle, fun _ => joins_idle hidle b⟩
  | accept window s hlong hstep ih =>
    have hrest : (window.drop s.stop ++ [b]).length < StatusLine.sizeLimit := by
      simp only [List.length_append, List.length_drop] at hsize ⊢
      omega
    rw [joins_accept_iff hsize hlong hstep, Disputed.accept_iff hlong hstep]
    exact ih hrest
  | refuse window count hlong hstep ih =>
    cases hframe : Frame.locate (window ++ [b]) with
    | ok s =>
      rw [joins_frame_iff hsize hstep hframe, Disputed.refuse_iff hlong hstep hframe,
        not_or, not_ne_iff, Nat.not_lt]
    | error e =>
      -- without a good frame the line is refused either way, and nothing is disputed
      have hno := Frame.locate_error_iff.1 ⟨e, hframe⟩
      have hrest : (window.drop count ++ [b]).length < StatusLine.sizeLimit := by
        simp only [List.length_append, List.length_drop] at hsize ⊢
        omega
      have hquiet : ∀ rest : Bytes, rest <:+ window → ¬ Disputed rest b :=
        fun rest hsuffix h => h.not_noneIn (hno.of_suffix (List.suffix_append_self_iff.2 hsuffix))
      rw [joins_refuse_iff hlong hstep (nextStep_refuse_append hsize hstep hno), ih hrest]
      exact ⟨fun _ => hquiet window List.suffix_rfl, fun _ => hquiet _ (List.drop_suffix _ _)⟩

end Reassembly

end BurnerTelemetry.Wire
