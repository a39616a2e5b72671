import BurnerTelemetry.Proofs.Wire.Chunking
import BurnerTelemetry.Proofs.Wire.MergedLine

/-!
Bytes of which no part is a message. A window of such bytes yields nothing, but lines are refused in
it and it may fill up. Whatever leaves it is older than its last line feed, or than its last five
bytes when it is full: what follows those is still there when a message is completed.
-/
namespace BurnerTelemetry.Wire

namespace Message

/-- No part of the bytes is a message. -/
def Barren (bytes : Bytes) : Prop := ∀ part r, part <:+: bytes → ¬ Exact part r

namespace Barren

variable {bytes part rest : Bytes} {b : UInt8}

theorem of_infix (h : Barren bytes) (hpart : part <:+: bytes) : Barren part :=
  fun inner r hinner => h inner r (hinner.trans hpart)

theorem noneIn (h : Barren bytes) : Frame.NoneIn bytes := by
  rintro i r ⟨f, hreading, hfront⟩
  obtain ⟨hfan, htemperature⟩ := Frame.limits_of_toReading hreading
  exact h f.toBytes r (hfront.isInfix.trans (List.drop_suffix i bytes).isInfix)
    (.frame hfan htemperature hreading)

/-- A message is completed by its last byte: a line feed, or the end mark of a frame. -/
theorem concat (h : Barren bytes) (hfeed : b ≠ StatusLine.lineFeed)
    (hframe : ∀ r, ¬ Frame.EndsIn (bytes ++ [b]) r) : Barren (bytes ++ [b]) := by
  intro part r hpart hexact
  rcases List.infix_concat_iff.1 hpart with hlast | hearlier
  · cases hexact with
    | frame _ _ hreading => exact hframe r ⟨_, hreading, hlast⟩
    | line _ _ =>
      obtain ⟨front, hfront⟩ := hlast
      rw [← List.append_assoc] at hfront
      exact hfeed (List.singleton_inj.1 (List.append_inj' hfront rfl).2).symm
  · exact h part r hearlier hexact

theorem append (h : Barren bytes) (hfeed : StatusLine.lineFeed ∉ rest)
    (hframe : ∀ front b, front ++ [b] <+: rest → ∀ r, ¬ Frame.EndsIn (bytes ++ (front ++ [b])) r) :
    Barren (bytes ++ rest) := by
  induction rest using List.reverseRecOn with
  | nil => rwa [List.append_nil]
  | append_singleton rest b ih =>
    rw [List.mem_append, List.mem_singleton, not_or] at hfeed
    have hrest := ih hfeed.1 (fun front c hfront => hframe front c
      (hfront.trans (List.prefix_append rest [b])))
    rw [← List.append_assoc]
    refine hrest.concat (Ne.symm hfeed.2) (fun r => ?_)
    rw [List.append_assoc]
    exact hframe rest b List.prefix_rfl r

theorem append_of_not_mem (h : Barren bytes) (hfeed : StatusLine.lineFeed ∉ rest)
    (hmark : Frame.endMark ∉ rest) : Barren (bytes ++ rest) := by
  refine h.append hfeed (fun front b hfront r => ?_)
  rw [← List.append_assoc]
  apply Frame.not_endsIn_concat
  rintro rfl
  exact hmark (hfront.mem (by simp))

end Barren

end Message

namespace Reassembly

open Message (Barren)

variable {stream window part : Bytes}

/-- An idle window holds no message anywhere. -/
theorem barren_of_idle (h : Idle window) (hsize : window.length < StatusLine.sizeLimit) :
    Barren window := by
  intro part r hpart hexact
  obtain ⟨hnoFrame, hnoLine⟩ :=
    nextStep_wait hsize (h (Nat.le_trans hexact.size_le hpart.length_le))
  obtain ⟨front, rest, hwindow⟩ := hpart
  have hdrop : window.drop front.length = part ++ rest := by
    rw [← hwindow, List.append_assoc, List.drop_left]
  have hfront : part <+: window.drop front.length := hdrop ▸ List.prefix_append part rest
  cases hexact with
  | frame _ _ hreading => exact hnoFrame front.length r ⟨_, hreading, hfront⟩
  | @line body _ _ _ =>
    obtain ⟨start, stop, hline⟩ := StatusLine.exists_firstLine
      ((List.prefix_append [70, 58] _).trans hfront) (hfront.mem (by simp))
    exact hnoLine start stop hline

theorem not_accept_of_barren (h : Barren window) (s : Sighting) : nextStep window ≠ .accept s :=
  fun hstep => h _ _ (s.cut_infix window) (exact_of_accept hstep)

/-- A message that the byte brings to barren bytes ends with it. -/
theorem accept_concat {window : Bytes} {b : UInt8} {s : Sighting} (h : Barren window)
    (hstep : nextStep (window ++ [b]) = .accept s) : s.stop = (window ++ [b]).length := by
  have hstop := (accept_bounds hstep).2
  by_contra hearlier
  rw [List.length_append, List.length_singleton] at hstop hearlier
  have hexact := exact_of_accept hstep
  rw [Sighting.cut_append (by omega)] at hexact
  exact h _ _ (s.cut_infix window) hexact

theorem readings_barren (h : Barren window) : readings window = [] := by
  induction window using window_induction with
  | idle window hidle => exact readings_idle hidle
  | accept window s _ hstep _ => exact absurd hstep (not_accept_of_barren h s)
  | refuse window count hlong hstep ih =>
    rw [readings_refuse hlong hstep]
    exact ih (h.of_infix (List.drop_suffix count window).isInfix)

/-- No more than the line goes with a bad line. -/
theorem badLength_le {start stop : Nat} (h : StatusLine.FirstLine window start stop) :
    badLength window start stop ≤ stop + 1 := by
  rw [badLength]
  cases hlast : lastStart? (window.take stop) (start + 1) with
  | none => exact Nat.le_refl _
  | some i =>
    have hbounds := (lastStart?_bounds hlast).2
    have hstop := h.bounds.2
    rw [List.length_take] at hbounds
    simp only [Option.getD_some]
    omega

/-- Bytes behind the last line feed are not refused. -/
theorem suffix_drop_of_refuse {count : Nat} (hsize : window.length < StatusLine.sizeLimit)
    (h : nextStep window = .refuse count) (hpart : part <:+ window)
    (hfeed : StatusLine.lineFeed ∉ part) : part <:+ window.drop count := by
  obtain ⟨_, start, stop, ⟨hline, _⟩, rfl⟩ := (nextStep_refuse_iff hsize).1 h
  obtain ⟨front, rfl⟩ := hpart
  obtain ⟨_, hbyte, _⟩ := StatusLine.endIndex?_eq_some_iff.1 hline.2
  have hstop : stop < front.length := by
    by_contra hlate
    rw [List.getElem?_append_right (Nat.le_of_not_lt hlate)] at hbyte
    exact hfeed (List.mem_of_getElem? hbyte)
  rw [List.drop_append_of_le_length (Nat.le_trans (badLength_le hline) hstop)]
  exact List.suffix_append _ _

theorem suffix_residue (h : Barren window) (hsize : window.length < StatusLine.sizeLimit)
    (hpart : part <:+ window) (hfeed : StatusLine.lineFeed ∉ part) : part <:+ residue window := by
  induction window using window_induction with
  | idle window hidle => rwa [residue_idle hidle]
  | accept window s _ hstep _ => exact absurd hstep (not_accept_of_barren h s)
  | refuse window count hlong hstep ih =>
    have hsuffix := List.drop_suffix count window
    rw [residue_refuse hlong hstep]
    exact ih (h.of_infix hsuffix.isInfix) (Nat.lt_of_le_of_lt hsuffix.length_le hsize)
      (suffix_drop_of_refuse hsize hstep hpart hfeed)

/-- The window holds the end of the stream: all that stands behind the last line feed if the stream
is shorter than the window is wide, and no less of it than is kept on overflow if it is longer. -/
structure Kept (stream window : Bytes) : Prop where
  suffix : window <:+ stream
  bounded : window.length ≤ windowSize
  last : ∀ part, part <:+ stream → StatusLine.lineFeed ∉ part →
    stream.length < windowSize ∨ part.length ≤ keptOnOverflow → part <:+ window

namespace Kept

theorem all (h : window.length ≤ windowSize) : Kept window window :=
  ⟨List.suffix_rfl, h, fun _ hpart _ _ => hpart⟩

theorem lt_sizeLimit (h : Kept stream window) : window.length < StatusLine.sizeLimit :=
  Nat.lt_of_le_of_lt h.bounded (by decide)

theorem residue (h : Kept stream window) (hbarren : Barren stream) :
    Kept stream (residue window) := by
  have hsuffix := residue_suffix window
  refine ⟨hsuffix.trans h.suffix, Nat.le_trans hsuffix.length_le h.bounded, ?_⟩
  intro part hpart hfeed hlength
  exact suffix_residue (hbarren.of_infix h.suffix.isInfix) h.lt_sizeLimit
    (h.last part hpart hfeed hlength) hfeed

/-- A window that is full even when it is settled keeps its last bytes. -/
theorem withRoom (h : Kept stream window) :
    Kept stream (withRoom window) ∧ (Reassembly.withRoom window).length < windowSize := by
  by_cases hroom : window.length < windowSize
  · rw [withRoom_of_lt hroom]
    exact ⟨h, hroom⟩
  · have hfull := Nat.le_of_not_lt hroom
    have hstream := h.suffix.length_le
    have hsuffix := List.drop_suffix (window.length - keptOnOverflow) window
    have hkept : (window.drop (window.length - keptOnOverflow)).length = keptOnOverflow := by
      simp only [List.length_drop, keptOnOverflow, Frame.size, windowSize] at hfull ⊢
      omega
    rw [Reassembly.withRoom, if_pos hfull]
    refine ⟨⟨hsuffix.trans h.suffix, ?_, ?_⟩, ?_⟩
    · rw [hkept]
      decide
    · intro part hpart hfeed hlength
      have hshort : part.length ≤ keptOnOverflow := hlength.resolve_left (by omega)
      exact List.suffix_of_suffix_length_le (h.last part hpart hfeed hlength) hsuffix
        (hkept.symm ▸ hshort)
    · rw [hkept]
      decide

theorem concat (h : Kept stream window) (hroom : window.length < windowSize) (b : UInt8) :
    Kept (stream ++ [b]) (window ++ [b]) := by
  refine ⟨List.suffix_append_self_iff.2 h.suffix, ?_, ?_⟩
  · rw [List.length_append]
    exact hroom
  · intro part hpart hfeed hlength
    rcases List.suffix_concat_iff.1 hpart with rfl | ⟨front, rfl, hfront⟩
    · exact List.nil_suffix
    · rw [List.length_append, List.length_append, List.length_singleton] at hlength
      refine List.suffix_append_self_iff.2 (h.last front hfront ?_ (by omega))
      exact fun hmem => hfeed (List.mem_append_left [b] hmem)

end Kept

theorem settle_barren {r : Reassembly} (h : Barren r.window) : r.settle.1 = [] := by
  rw [← List.map_eq_nil_iff, readings_settle, readings_barren h]

/-- Of a barren stream nothing is handed on, and the window holds its end. -/
structure Quiet (stream : Bytes) (o : Progress) : Prop where
  none : o.1 = []
  kept : Kept stream o.2.window

namespace Quiet

variable {o : Progress} {r : Reassembly}

theorem settle (h : Quiet stream o) (hbarren : Barren stream) : Quiet stream o.settle := by
  constructor
  · rw [Progress.settle, h.none, settle_barren (hbarren.of_infix h.kept.suffix.isInfix)]
    rfl
  · rw [Progress.window_settle]
    exact h.kept.residue hbarren

/-- One more byte finds room behind the end of the stream. -/
theorem push (h : Quiet stream o) (hbarren : Barren stream) (b : UInt8) :
    (o.push b).1 = [] ∧ ∃ window, Kept stream window ∧ window.length < windowSize ∧
      (o.push b).2.window = window ++ [b] := by
  by_cases hroom : o.2.window.length < windowSize
  · rw [Progress.push, push_of_lt hroom, h.none]
    exact ⟨rfl, o.2.window, h.kept, hroom, rfl⟩
  · obtain ⟨hfound, hwindow⟩ := push_of_le (Nat.le_of_not_lt hroom) b
    obtain ⟨hkept, hlt⟩ := (h.kept.residue hbarren).withRoom
    rw [Progress.push, hfound, h.none, settle_barren (hbarren.of_infix h.kept.suffix.isInfix)]
    exact ⟨rfl, _, hkept, hlt, hwindow⟩

theorem pushAll (h : Quiet stream ([], r)) {bytes : Bytes} (hbarren : Barren (stream ++ bytes)) :
    Quiet (stream ++ bytes) (r.pushAll bytes) := by
  induction bytes using List.reverseRecOn with
  | nil => rwa [List.append_nil]
  | append_singleton bytes b ih =>
    rw [← List.append_assoc] at hbarren ⊢
    have hbefore := hbarren.of_infix (List.prefix_append _ [b]).isInfix
    obtain ⟨hnone, window, hkept, hroom, hwindow⟩ := (ih hbefore).push hbefore b
    rw [pushAll_concat]
    exact ⟨hnone, hwindow ▸ hkept.concat hroom b⟩

theorem receive (h : Quiet stream ([], r)) {piece : Bytes} (hbarren : Barren (stream ++ piece)) :
    Quiet (stream ++ piece) (r.receive piece) :=
  (h.pushAll hbarren).settle hbarren

end Quiet

/-- An idle window is left alone by pieces without a byte. -/
theorem receiveAll_of_flatten_nil {r : Reassembly} {pieces : List Bytes} (h : Idle r.window)
    (hpieces : pieces.flatten = []) : r.receiveAll pieces = ([], r) := by
  induction pieces with
  | nil => rfl
  | cons piece pieces ih =>
    obtain ⟨rfl, hrest⟩ := List.append_eq_nil_iff.1 (List.flatten_cons ▸ hpieces)
    have hreceive : r.receive [] = ([], r) := by
      rw [Reassembly.receive, pushAll]
      simp only [settle_wait h, List.append_nil]
    rw [receiveAll_cons, hreceive, ih hrest]
    rfl

/-- The first message of a stream is handed on, however the stream is cut, if its last byte
completes it in every window that may hold the end of the barren bytes before. -/
theorem receiveAll_first {r : Reassembly} {rest : Bytes} {b : UInt8} {reading : Reading}
    {pieces : List Bytes} (h : Kept stream r.window) (hbarren : Barren (stream ++ rest))
    (hlast : ∀ window, Kept (stream ++ rest) window → window.length < windowSize →
      readings (window ++ [b]) = [reading] ∧ Reassembly.residue (window ++ [b]) = [])
    (hpieces : pieces.flatten = rest ++ [b]) :
    (r.receiveAll pieces).1.map (fun s => s.reading) = [reading] ∧
      (r.receiveAll pieces).2.window = [] := by
  induction pieces generalizing stream r rest with
  | nil => exact absurd hpieces.symm (List.concat_ne_nil b rest)
  | cons piece pieces ih =>
    rw [List.flatten_cons] at hpieces
    rcases List.eq_nil_or_concat pieces.flatten with hnil | ⟨more, last, hmore⟩
    · -- the byte is the last one of this piece
      rw [hnil, List.append_nil] at hpieces
      subst hpieces
      have hquiet := (Quiet.mk rfl h).pushAll hbarren
      obtain ⟨hnone, window, hkept, hroom, hwindow⟩ := hquiet.push hbarren b
      obtain ⟨hreadings, hresidue⟩ := hlast window hkept hroom
      have hreceive :
          r.receive (rest ++ [b]) = Progress.settle (Progress.push (r.pushAll rest) b) := by
        rw [Reassembly.receive, pushAll_concat]
        rfl
      have hgone : (r.receive (rest ++ [b])).2.window = [] := by
        rw [hreceive, Progress.window_settle, hwindow, hresidue]
      have hidle : Idle (r.receive (rest ++ [b])).2.window := by
        rw [hgone]
        exact idle_of_lt (by decide)
      rw [receiveAll_cons, receiveAll_of_flatten_nil hidle hnil, List.append_nil]
      refine ⟨?_, hgone⟩
      rw [hreceive, Progress.settle, hnone, List.nil_append, readings_settle, hwindow, hreadings]
    · -- this piece ends in front of the byte
      rw [hmore, List.concat_eq_append, ← List.append_assoc] at hpieces
      obtain ⟨rfl, hb⟩ := List.append_inj' hpieces rfl
      obtain rfl := List.singleton_inj.1 hb
      rw [← List.append_assoc] at hbarren hlast
      obtain ⟨hnone, hkept⟩ :=
        (Quiet.mk rfl h).receive (hbarren.of_infix (List.prefix_append _ more).isInfix)
      rw [receiveAll_cons, hnone]
      exact ih hkept hbarren hlast (hmore.trans (List.concat_eq_append ..))

end Reassembly

end BurnerTelemetry.Wire
