import BurnerTelemetry.Proofs.Wire.Accounting
import BurnerTelemetry.Proofs.Wire.Settling
import Mathlib.Data.List.Induction

/-!
Whether it matters how a stream is cut. The end of a piece settles the window, so a cut decides which
bytes are looked at together. That makes a difference exactly where a byte is disputed, and as long
as none is, a stream comes to what its bytes come to when they arrive one by one.
-/
namespace BurnerTelemetry.Wire.Reassembly

/-- What is left of a settled window when room is made in it: all of it, or its last bytes if it is
full. -/
def withRoom (window : Bytes) : Bytes :=
  if windowSize ≤ window.length then window.drop (window.length - keptOnOverflow) else window

theorem withRoom_of_lt {window : Bytes} (h : window.length < windowSize) :
    withRoom window = window := by
  rw [withRoom, if_neg (Nat.not_le_of_lt h)]

theorem concat_lt_sizeLimit {window : Bytes} (h : window.length < windowSize) (b : UInt8) :
    (window ++ [b]).length < StatusLine.sizeLimit := by
  simp only [List.length_append, List.length_singleton, windowSize, StatusLine.sizeLimit] at *
  omega

theorem push_of_lt {r : Reassembly} (h : r.window.length < windowSize) (b : UInt8) :
    r.push b = ([], { r with window := r.window ++ [b] }) := by
  rw [push, makeRoom_of_lt h]

/-- A full window is settled before the byte goes in. -/
theorem push_of_le {r : Reassembly} (h : windowSize ≤ r.window.length) (b : UInt8) :
    (r.push b).1 = r.settle.1 ∧ (r.push b).2.window = withRoom (residue r.window) ++ [b] := by
  rw [withRoom, ← window_settle]
  rcases Nat.lt_or_ge r.settle.2.window.length windowSize with hroom | hstill
  · rw [push, makeRoom_of_settled h hroom, if_neg (Nat.not_le_of_lt hroom)]
    exact ⟨rfl, rfl⟩
  · rw [push, makeRoom_of_full h hstill, if_pos hstill]
    exact ⟨rfl, rfl⟩

theorem window_push_congr {r q : Reassembly} (h : r.window = q.window) (b : UInt8) :
    (r.push b).2.window = (q.push b).2.window := by
  by_cases hroom : r.window.length < windowSize
  · rw [push_of_lt hroom, push_of_lt (h ▸ hroom), h]
  · have hfull := Nat.le_of_not_lt hroom
    rw [(push_of_le hfull b).2, (push_of_le (h ▸ hfull) b).2, h]

theorem window_pushAll_congr {r q : Reassembly} (h : r.window = q.window) (bytes : Bytes) :
    (r.pushAll bytes).2.window = (q.pushAll bytes).2.window := by
  induction bytes generalizing r q with
  | nil => exact h
  | cons b bytes ih => exact ih (window_push_congr h b)

/-- Some readings have been handed on and a window holds what came since. -/
abbrev Progress := List Sighting × Reassembly

namespace Progress

def push (o : Progress) (b : UInt8) : Progress := (o.1 ++ (o.2.push b).1, (o.2.push b).2)

def settle (o : Progress) : Progress := (o.1 ++ o.2.settle.1, o.2.settle.2)

/-- The readings that have been handed on once the window is settled, and what it holds then. -/
def outcome (o : Progress) : List Reading × Bytes :=
  (o.1.map (fun s => s.reading) ++ readings o.2.window, residue o.2.window)

theorem outcome_of_idle {o : Progress} (h : Idle o.2.window) :
    o.outcome = (o.1.map (fun s => s.reading), o.2.window) := by
  rw [outcome, readings_idle h, residue_idle h, List.append_nil]

theorem window_settle (o : Progress) : o.settle.2.window = residue o.2.window :=
  Reassembly.window_settle o.2

theorem outcome_settle (o : Progress) : o.settle.outcome = o.outcome := by
  have hidle : Idle o.settle.2.window := o.window_settle ▸ idle_residue o.2.window
  rw [outcome_of_idle hidle, window_settle, settle, List.map_append, readings_settle]
  rfl

theorem outcome_push_of_lt {o : Progress} (h : o.2.window.length < windowSize) (b : UInt8) :
    (o.push b).outcome = (o.1.map (fun s => s.reading) ++ readings (o.2.window ++ [b]),
      residue (o.2.window ++ [b])) := by
  rw [outcome, push, push_of_lt h, List.append_nil]

/-- A byte arrives at a settled window, which is settled again. -/
def arrive (o : List Reading × Bytes) (b : UInt8) : List Reading × Bytes :=
  (o.1 ++ readings (withRoom o.2 ++ [b]), residue (withRoom o.2 ++ [b]))

/-- A byte that is not disputed comes to the same whether or not the window was settled before. -/
theorem outcome_push {o : Progress} {b : UInt8}
    (h : o.2.window.length < windowSize → ¬ Disputed o.2.window b) :
    (o.push b).outcome = arrive o.outcome b := by
  by_cases hroom : o.2.window.length < windowSize
  · obtain ⟨hreadings, hresidue⟩ := (joins_iff (concat_lt_sizeLimit hroom b)).2 (h hroom)
    have hleft : (residue o.2.window).length < windowSize :=
      Nat.lt_of_le_of_lt (residue_suffix o.2.window).length_le hroom
    rw [outcome_push_of_lt hroom, arrive, outcome, withRoom_of_lt hleft, hreadings, hresidue,
      List.append_assoc]
  · obtain ⟨hfound, hwindow⟩ := push_of_le (Nat.le_of_not_lt hroom) b
    rw [outcome, push, hfound, hwindow, List.map_append, readings_settle]
    rfl

end Progress

theorem pushAll_concat (r : Reassembly) (bytes : Bytes) (b : UInt8) :
    r.pushAll (bytes ++ [b]) = Progress.push (r.pushAll bytes) b := by
  induction bytes generalizing r with
  | nil => simp only [List.nil_append, pushAll, Progress.push, List.append_nil]
  | cons first rest ih =>
    simp only [List.cons_append, pushAll, ih, Progress.push, List.append_assoc]

theorem receiveAll_cons (r : Reassembly) (piece : Bytes) (pieces : List Bytes) :
    r.receiveAll (piece :: pieces) =
      ((r.receive piece).1 ++ ((r.receive piece).2.receiveAll pieces).1,
        ((r.receive piece).2.receiveAll pieces).2) := rfl

theorem receiveAll_concat (r : Reassembly) (pieces : List Bytes) (piece : Bytes) :
    r.receiveAll (pieces ++ [piece]) =
      ((r.receiveAll pieces).1 ++ ((r.receiveAll pieces).2.receive piece).1,
        ((r.receiveAll pieces).2.receive piece).2) := by
  rw [receiveAll_append]
  simp only [receiveAll, List.append_nil]

/-- After some pieces, and the bytes of one more that has not come to its end. -/
def partway (pieces : List Bytes) (piece : Bytes) : Progress :=
  ((empty.receiveAll pieces).1 ++ ((empty.receiveAll pieces).2.pushAll piece).1,
    ((empty.receiveAll pieces).2.pushAll piece).2)

theorem partway_nil (pieces : List Bytes) : partway pieces [] = empty.receiveAll pieces := by
  simp only [partway, pushAll, List.append_nil]

theorem partway_byte (pieces : List Bytes) (piece : Bytes) (b : UInt8) :
    partway pieces (piece ++ [b]) = (partway pieces piece).push b := by
  simp only [partway, pushAll_concat, Progress.push, List.append_assoc]

theorem partway_piece (pieces : List Bytes) (piece : Bytes) :
    partway (pieces ++ [piece]) [] = (partway pieces piece).settle := by
  rw [partway_nil, receiveAll_concat]
  simp only [partway, receive, Progress.settle, List.append_assoc]

theorem idle_receiveAll (pieces : List Bytes) : Idle (empty.receiveAll pieces).2.window := by
  induction pieces using List.reverseRecOn with
  | nil => exact idle_of_lt (by decide)
  | append_singleton pieces piece _ =>
    rw [← partway_nil, partway_piece, Progress.window_settle]
    exact idle_residue _

/-- The cut that leaves one byte to a piece. -/
def singly (bytes : Bytes) : List Bytes := bytes.map (fun b => [b])

@[simp] theorem flatten_singly (bytes : Bytes) : (singly bytes).flatten = bytes :=
  List.flatMap_singleton' bytes

theorem outcome_singly (bytes : Bytes) :
    Progress.outcome (empty.receiveAll (singly bytes)) = bytes.foldl Progress.arrive ([], []) := by
  induction bytes using List.reverseRecOn with
  | nil => exact Progress.outcome_of_idle (idle_receiveAll [])
  | append_singleton bytes b ih =>
    have hidle : Idle (partway (singly bytes) []).2.window := by
      rw [partway_nil]
      exact idle_receiveAll (singly bytes)
    have hcut : singly (bytes ++ [b]) = singly bytes ++ [[] ++ [b]] := by
      simp only [singly, List.map_append, List.map_singleton, List.nil_append]
    rw [hcut, ← partway_nil, partway_piece, Progress.outcome_settle, partway_byte,
      Progress.outcome_push (fun _ h => h.not_idle hidle), partway_nil, ih, List.foldl_append]
    rfl

/-- No byte of the stream is disputed: not in any window that holds some bytes since the ones before
them arrived one by one. -/
def Undisputed (stream : Bytes) : Prop :=
  ∀ early late b, early ++ late ++ [b] <+: stream →
    (partway (singly early) late).2.window.length < windowSize →
      ¬ Disputed (partway (singly early) late).2.window b

section Undisputed

variable {stream : Bytes} {pieces : List Bytes}

/-- The bytes of a piece come to what they come to one by one, if this holds for those in front. -/
theorem Undisputed.outcome_partway (h : Undisputed stream)
    (hbefore : Progress.outcome (empty.receiveAll pieces) =
      pieces.flatten.foldl Progress.arrive ([], []))
    {piece : Bytes} (hpart : pieces.flatten ++ piece <+: stream) :
    (partway pieces piece).outcome = (pieces.flatten ++ piece).foldl Progress.arrive ([], []) := by
  -- the piece meets the window that the bytes in front of it leave one by one, and `Undisputed`
  -- speaks of that window only
  have hwindow : (empty.receiveAll pieces).2.window =
      (empty.receiveAll (singly pieces.flatten)).2.window := by
    have hsame := hbefore.trans (outcome_singly pieces.flatten).symm
    rw [Progress.outcome_of_idle (idle_receiveAll pieces),
      Progress.outcome_of_idle (idle_receiveAll (singly pieces.flatten))] at hsame
    exact (Prod.mk.inj hsame).2
  induction piece using List.reverseRecOn with
  | nil => rw [partway_nil, List.append_nil, hbefore]
  | append_singleton piece b ih =>
    rw [← List.append_assoc] at hpart ⊢
    have hsame : (partway pieces piece).2.window =
        (partway (singly pieces.flatten) piece).2.window := window_pushAll_congr hwindow piece
    have hbyte : (partway pieces piece).2.window.length < windowSize →
        ¬ Disputed (partway pieces piece).2.window b := by
      rw [hsame]
      exact h pieces.flatten piece b hpart
    rw [partway_byte, Progress.outcome_push hbyte, ih ((List.prefix_append _ [b]).trans hpart)]
    exact (List.foldl_concat ..).symm

/-- What has come of an undisputed stream depends on its bytes alone. -/
theorem Undisputed.outcome_receiveAll (h : Undisputed stream) (hpart : pieces.flatten <+: stream) :
    Progress.outcome (empty.receiveAll pieces) = pieces.flatten.foldl Progress.arrive ([], []) := by
  induction pieces using List.reverseRecOn with
  | nil => exact Progress.outcome_of_idle (idle_receiveAll [])
  | append_singleton pieces piece ih =>
    simp only [List.flatten_append, List.flatten_singleton] at hpart ⊢
    have hbefore := ih ((List.prefix_append _ piece).trans hpart)
    rw [← partway_nil, partway_piece, Progress.outcome_settle, h.outcome_partway hbefore hpart]

end Undisputed

/-- Two cuts of the same bytes hand on the same readings and keep the same window. -/
def Agree (pieces others : List Bytes) : Prop :=
  (empty.receiveAll pieces).1.map (fun s => s.reading) =
      (empty.receiveAll others).1.map (fun s => s.reading) ∧
    (empty.receiveAll pieces).2.window = (empty.receiveAll others).2.window

theorem agree_iff (pieces others : List Bytes) : Agree pieces others ↔
    Progress.outcome (empty.receiveAll pieces) = Progress.outcome (empty.receiveAll others) := by
  rw [Progress.outcome_of_idle (idle_receiveAll pieces),
    Progress.outcome_of_idle (idle_receiveAll others), Prod.mk.injEq]
  rfl

/-- A piece that ends with a byte, and one that ends in front of it: the two show whether settling
the window in between makes a difference. -/
theorem joins_of_agree {pieces : List Bytes} {piece : Bytes} {b : UInt8}
    (hroom : (partway pieces piece).2.window.length < windowSize)
    (h : Agree (pieces ++ [piece ++ [b]]) (pieces ++ [piece] ++ [[] ++ [b]])) :
    Joins (partway pieces piece).2.window b := by
  have hleft : (partway pieces piece).settle.2.window.length < windowSize := by
    rw [Progress.window_settle]
    exact Nat.lt_of_le_of_lt (residue_suffix _).length_le hroom
  rw [agree_iff, ← partway_nil, ← partway_nil, partway_piece, partway_piece,
    Progress.outcome_settle, Progress.outcome_settle, partway_byte, partway_byte, partway_piece,
    Progress.outcome_push_of_lt hroom, Progress.outcome_push_of_lt hleft, Progress.window_settle,
    Progress.settle, List.map_append, readings_settle, List.append_assoc, Prod.mk.injEq,
    List.append_right_inj] at h
  exact h

/-- Every two cuts of a stream, and of each part of it that has arrived, agree exactly if no byte of
the stream is disputed. -/
theorem receiveAll_agree_iff (stream : Bytes) :
    (∀ pieces others : List Bytes, pieces.flatten = others.flatten → pieces.flatten <+: stream →
      Agree pieces others) ↔ Undisputed stream := by
  constructor
  · -- two cuts that differ in nothing but an end in front of the byte
    intro hagree early late b hpart hroom
    apply (joins_iff (concat_lt_sizeLimit hroom b)).1
    apply joins_of_agree hroom
    apply hagree
    · simp
    · simpa using hpart
  · intro h pieces others hsame hpart
    rw [agree_iff, h.outcome_receiveAll hpart, h.outcome_receiveAll (hsame ▸ hpart), hsame]

/-- A bad line, a good one and a good frame. In one piece the frame is accepted over both lines; when
a piece ends with the bad line, the good one is handed on too. -/
theorem receiveAll_hides_line :
    let bad : Bytes := [70, 58, 49, 44, 83, 58, 53, 48, 48, 44, 84, 58, 55, 53, 10]
    let good : Bytes := [70, 58, 48, 44, 83, 58, 53, 44, 84, 58, 54, 10]
    let frame : Bytes := [0xAA, 0x01, 0x32, 0x00, 0x3C, 0x55]
    [bad ++ good ++ frame].flatten = [bad, good ++ frame].flatten ∧
      (empty.receiveAll [bad ++ good ++ frame]).1.map (fun s => s.reading) =
        [⟨true, 50, 60, 0, true⟩] ∧
      (empty.receiveAll [bad, good ++ frame]).1.map (fun s => s.reading) =
        [⟨false, 5, 6, 0, true⟩, ⟨true, 50, 60, 0, true⟩] := by
  decide +kernel

-- The other way in which a byte is disputed: the bad line reaches into the frame.
example :
    (empty.receiveAll [[70, 58, 0xAA, 10, 0, 0, 0, 0x55]]).1.map (fun s => s.reading) =
        [⟨false, 0, 0, 5, true⟩] ∧
      (empty.receiveAll [[70, 58, 0xAA, 10, 0, 0], [0, 0x55]]).1.map (fun s => s.reading) = [] := by
  decide +kernel

theorem traced_partway (pieces : List Bytes) (piece : Bytes) :
    Traced (pieces.flatten ++ piece) (partway pieces piece).1 (partway pieces piece).2 :=
  (traced_receiveAll pieces).pushAll piece

/-- The window is part of what has arrived. -/
theorem window_partway_suffix (pieces : List Bytes) (piece : Bytes) :
    (partway pieces piece).2.window <:+ pieces.flatten ++ piece :=
  (traced_partway pieces piece).suffix

/-- It does not matter how a stream is cut that holds no good frame. -/
theorem undisputed_of_no_frame {stream : Bytes} (h : Frame.NoneIn stream) :
    Undisputed stream := by
  intro early late b hpart _ hdisputed
  have harrived := window_partway_suffix (singly early) late
  rw [flatten_singly] at harrived
  have hno : Frame.NoneIn (early ++ late ++ [b]) := h.of_prefix hpart
  exact hdisputed.not_noneIn (hno.of_suffix (List.suffix_append_self_iff.2 harrived))

/-- It does not matter how a stream is cut in which no line begins. -/
theorem undisputed_of_no_line {stream : Bytes} (h : ¬ [70, 58] <:+: stream) :
    Undisputed stream := by
  intro early late b hpart hroom hdisputed
  have hsize : (partway (singly early) late).2.window.length < StatusLine.sizeLimit :=
    Nat.lt_trans hroom (by decide)
  have harrived := window_partway_suffix (singly early) late
  rw [flatten_singly] at harrived
  have hbefore : early ++ late <:+: stream := ((List.prefix_append _ [b]).trans hpart).isInfix
  exact h ((hdisputed.exists_line hsize).trans (harrived.isInfix.trans hbefore))

end BurnerTelemetry.Wire.Reassembly
