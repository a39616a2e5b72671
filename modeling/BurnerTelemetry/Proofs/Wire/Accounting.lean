import BurnerTelemetry.Proofs.Wire.NextStep

/-!
What becomes of the bytes of a stream. Whatever has been received is a part that is gone and the
window behind it. The readings that were handed on are those of messages in the part that is gone,
one behind the other, and each byte of that part went with one of them or is counted as lost.
-/
namespace BurnerTelemetry.Wire

namespace Sighting

/-- The bytes of the message, out of the bytes that hold it. -/
def cut (s : Sighting) (bytes : Bytes) : Bytes := (bytes.take s.stop).drop s.start

/-- The same message with `count` more bytes in front. -/
def behind (s : Sighting) (count : Nat) : Sighting := ⟨s.reading, count + s.start, count + s.stop⟩

theorem cut_behind (s : Sighting) (front bytes : Bytes) :
    (s.behind front.length).cut (front ++ bytes) = s.cut bytes := by
  simp only [cut, behind, List.take_length_add_append, List.drop_length_add_append]

theorem cut_append {s : Sighting} {bytes : Bytes} (h : s.stop ≤ bytes.length) (rest : Bytes) :
    s.cut (bytes ++ rest) = s.cut bytes := by
  simp only [cut, List.take_append_of_le_length h]

theorem cut_infix (s : Sighting) (bytes : Bytes) : s.cut bytes <:+: bytes :=
  (List.drop_suffix _ _).isInfix.trans (List.take_prefix _ _).isInfix

end Sighting

/-- Bytes that are one message of the reading and nothing else: a frame whose fields are in range,
or a line that reads as it, with no line feed but its last byte. -/
inductive Message.Exact : Bytes → Reading → Prop where
  | frame {f : Frame} {r : Reading} (fan : f.fan.toNat ≤ Reading.fanLimit)
      (temperature : f.temperature.toNat ≤ Reading.temperatureLimit) (reading : f.toReading = .ok r) :
      Exact f.toBytes r
  | line {body : Bytes} {r : Reading} (inner : StatusLine.lineFeed ∉ body)
      (reading : StatusLine.read (70 :: 58 :: body ++ [StatusLine.lineFeed]) = .ok r) :
      Exact (70 :: 58 :: body ++ [StatusLine.lineFeed]) r

theorem Message.Exact.size_le {bytes : Bytes} {r : Reading} (h : Message.Exact bytes r) :
    Frame.size ≤ bytes.length := by
  cases h with
  | frame _ _ _ => exact Nat.le_refl _
  | @line body _ _ hreading =>
    cases hlocate : StatusLine.locate (70 :: 58 :: body ++ [StatusLine.lineFeed]) with
    | error e =>
      rw [StatusLine.read, hlocate] at hreading
      cases hreading
    | ok s =>
      have hlong := StatusLine.locate_stop_gt hlocate
      have hstop := (StatusLine.locate_bounds hlocate).2
      omega

namespace Frame

theorem limits_of_toReading {f : Frame} {r : Reading} (h : f.toReading = .ok r) :
    f.fan.toNat ≤ Reading.fanLimit ∧ f.temperature.toNat ≤ Reading.temperatureLimit := by
  unfold toReading at h
  split at h
  · cases h
  · split at h
    · cases h
    · omega

theorem exact_of_locate {bytes : Bytes} {s : Sighting} (h : locate bytes = .ok s) :
    Message.Exact (s.cut bytes) s.reading := by
  obtain ⟨hstop, ⟨f, hreading, rest, hrest⟩, _⟩ := locate_ok_iff.1 h
  have hcut : s.cut bytes = f.toBytes := by
    rw [Sighting.cut, hstop, List.drop_take, ← hrest, Nat.add_sub_cancel_left, ← length_toBytes f,
      List.take_left]
  obtain ⟨hfan, htemperature⟩ := limits_of_toReading hreading
  exact hcut ▸ .frame hfan htemperature hreading

end Frame

namespace StatusLine

/-- What stands around the first line, and that its line feed is the only one in it. -/
theorem FirstLine.split {bytes : Bytes} {start stop : Nat} (h : FirstLine bytes start stop) :
    ∃ front body rest, bytes = front ++ (70 :: 58 :: body ++ [lineFeed] ++ rest) ∧
      front.length = start ∧ start + (70 :: 58 :: body).length = stop ∧ lineFeed ∉ body := by
  obtain ⟨hle, hlt⟩ := h.bounds
  obtain ⟨_, hfeed, hbefore⟩ := endIndex?_eq_some_iff.1 h.2
  obtain ⟨more, hmore⟩ := (Bytes.pairIndex?_eq_some_iff.1 h.1).1
  obtain ⟨k, rfl⟩ := Nat.exists_eq_add_of_le hle
  have hat : ∀ j, more[j]? = bytes[start + 2 + j]? := by
    intro j
    rw [Nat.add_assoc, ← List.getElem?_drop, ← hmore, List.getElem?_append_right (by simp)]
    simp
  rw [← hat] at hfeed
  obtain ⟨hk, hbyte⟩ := List.getElem?_eq_some_iff.1 hfeed
  refine ⟨bytes.take start, more.take k, more.drop (k + 1), ?_, ?_, ?_, ?_⟩
  · have hmid : more.take k ++ lineFeed :: more.drop (k + 1) = more := by
      rw [← hbyte, List.getElem_cons_drop, List.take_append_drop]
    calc bytes = bytes.take start ++ bytes.drop start := (List.take_append_drop start bytes).symm
      _ = bytes.take start ++ (70 :: 58 :: (more.take k ++ lineFeed :: more.drop (k + 1))) := by
        rw [← hmore, hmid]
        rfl
      _ = _ := by simp
  · rw [List.length_take]
    omega
  · simp only [List.length_cons, List.length_take]
    omega
  · intro hmem
    obtain ⟨j, hj, hjbyte⟩ := List.getElem_of_mem hmem
    rw [List.length_take] at hj
    refine hbefore (start + 2 + j) (by omega) (by omega) ?_
    rw [← hat, List.getElem?_eq_getElem (by omega), ← hjbyte, List.getElem_take]

theorem firstLine_front {body : Bytes} (h : lineFeed ∉ body) :
    FirstLine (70 :: 58 :: body ++ [lineFeed]) 0 (70 :: 58 :: body).length := by
  have hfront : lineFeed ∉ 70 :: 58 :: body := by
    simpa [lineFeed] using h
  exact ⟨rfl, endIndex?_append hfront []⟩

theorem between_middle (front line rest : Bytes) :
    between (front ++ (line ++ rest)) front.length (front.length + line.length) =
      between line 0 line.length := by
  simp only [between, List.take_length_add_append, List.take_left, List.drop_left, List.take_length,
    List.drop_zero]

theorem exact_of_locate {bytes : Bytes} {s : Sighting} (h : locate bytes = .ok s) :
    Message.Exact (s.cut bytes) s.reading := by
  have hsize : bytes.length < sizeLimit := by
    by_contra hbig
    rw [locate, if_pos (Nat.le_of_not_lt hbig)] at h
    cases h
  obtain ⟨stop, hstop, hline, hreading⟩ := (locate_ok_iff hsize).1 h
  obtain ⟨front, body, rest, rfl, hfront, hlength, hinner⟩ := hline.split
  have hcut : s.cut (front ++ (70 :: 58 :: body ++ [lineFeed] ++ rest)) =
      70 :: 58 :: body ++ [lineFeed] := by
    have hend : s.stop = front.length + (70 :: 58 :: body ++ [lineFeed]).length := by
      rw [List.length_append, List.length_singleton]
      omega
    rw [Sighting.cut, hend, ← hfront, List.take_length_add_append, List.take_left, List.drop_left]
  have hread : read (70 :: 58 :: body ++ [lineFeed]) = .ok s.reading := by
    have hshort : (70 :: 58 :: body ++ [lineFeed]).length < sizeLimit := by
      simp only [List.length_append] at hsize ⊢
      omega
    rw [← hlength, ← hfront, List.append_assoc, between_middle] at hreading
    have hwhole := between_middle [] (70 :: 58 :: body) [lineFeed]
    simp only [List.nil_append, List.length_nil, Nat.zero_add] at hwhole
    have hfound : locate (70 :: 58 :: body ++ [lineFeed]) =
        .ok ⟨s.reading, 0, (70 :: 58 :: body).length + 1⟩ :=
      (locate_ok_iff hshort).2 ⟨_, rfl, firstLine_front hinner, (congrArg ofLine hwhole).trans hreading⟩
    rw [read, hfound]
    rfl
  rw [hcut]
  exact .line hinner hread

end StatusLine

namespace Reassembly

theorem exact_of_accept {window : Bytes} {s : Sighting} (h : nextStep window = .accept s) :
    Message.Exact (s.cut window) s.reading := by
  rcases nextStep_accept_iff.1 h with ⟨hframe, _⟩ | ⟨hline, _⟩
  · exact Frame.exact_of_locate hframe
  · exact StatusLine.exact_of_locate hline

/-- Messages of a stream, one behind the other and all in front of `limit`. -/
structure Placed (stream : Bytes) (limit : Nat) (places : List Sighting) : Prop where
  apart : places.Pairwise (fun a b => a.stop ≤ b.start)
  within : ∀ p ∈ places, p.stop ≤ limit
  exact : ∀ p ∈ places, Message.Exact (p.cut stream) p.reading

namespace Placed

variable {stream : Bytes} {limit : Nat} {places : List Sighting}

theorem nil (stream : Bytes) (limit : Nat) : Placed stream limit [] :=
  ⟨List.Pairwise.nil, fun _ h => absurd h List.not_mem_nil, fun _ h => absurd h List.not_mem_nil⟩

theorem mono (h : Placed stream limit places) {further : Nat} (hle : limit ≤ further) :
    Placed stream further places :=
  ⟨h.apart, fun p hp => Nat.le_trans (h.within p hp) hle, h.exact⟩

theorem append (h : Placed stream limit places) (hle : limit ≤ stream.length) (rest : Bytes) :
    Placed (stream ++ rest) limit places := by
  refine ⟨h.apart, h.within, fun p hp => ?_⟩
  rw [Sighting.cut_append (Nat.le_trans (h.within p hp) hle)]
  exact h.exact p hp

theorem concat (h : Placed stream limit places) {p : Sighting} (hstart : limit ≤ p.start)
    (hstop : p.start ≤ p.stop) (hexact : Message.Exact (p.cut stream) p.reading) :
    Placed stream p.stop (places ++ [p]) := by
  constructor
  · apply List.pairwise_append.2
    refine ⟨h.apart, List.pairwise_singleton _ p, ?_⟩
    intro a ha b hb
    rw [List.mem_singleton.1 hb]
    exact Nat.le_trans (h.within a ha) hstart
  · intro a ha
    rcases List.mem_append.1 ha with ha | ha
    · exact Nat.le_trans (h.within a ha) (Nat.le_trans hstart hstop)
    · exact Nat.le_of_eq (congrArg Sighting.stop (List.mem_singleton.1 ha))
  · intro a ha
    rcases List.mem_append.1 ha with ha | ha
    · exact h.exact a ha
    · rw [List.mem_singleton.1 ha]
      exact hexact

end Placed

/-- The window is the end of the stream, and the messages that were found stand in front of it. Each
other byte is counted as lost, or went when one of them was taken off the window. -/
structure Traced (stream : Bytes) (found : List Sighting) (r : Reassembly) : Prop where
  suffix : r.window <:+ stream
  bounded : r.window.length ≤ windowSize
  counted : r.decoded = found.length
  balanced : stream.length = r.window.length + r.lost + (found.map (fun s => s.stop)).sum
  placed : ∃ places, places.map (fun p => (p.reading, p.length)) =
      found.map (fun s => (s.reading, s.length)) ∧
    Placed stream (stream.length - r.window.length) places

namespace Traced

variable {stream : Bytes} {found : List Sighting} {r : Reassembly}

theorem initial : Traced [] [] empty :=
  ⟨List.nil_suffix, Nat.zero_le _, rfl, rfl, [], rfl, Placed.nil _ _⟩

theorem push (h : Traced stream found r) (hroom : r.window.length < windowSize) (b : UInt8) :
    Traced (stream ++ [b]) found { r with window := r.window ++ [b] } := by
  obtain ⟨places, hplaced, hplaces⟩ := h.placed
  obtain ⟨gone, hgone⟩ := h.suffix
  constructor
  · exact ⟨gone, by rw [← List.append_assoc, hgone]⟩
  · simp only [List.length_append, List.length_singleton]
    exact hroom
  · exact h.counted
  · simp only [List.length_append, List.length_singleton]
    have := h.balanced
    omega
  · refine ⟨places, hplaced, ?_⟩
    have hlimit : (stream ++ [b]).length - (r.window ++ [b]).length =
        stream.length - r.window.length := by
      simp only [List.length_append, List.length_singleton]
      omega
    rw [hlimit]
    exact hplaces.append (Nat.sub_le _ _) [b]

/-- Bytes that are thrown away are counted as lost. -/
theorem discard (h : Traced stream found r) {next : Reassembly} {count : Nat}
    (hcount : count ≤ r.window.length) (hwindow : next.window = r.window.drop count)
    (hlost : next.lost = r.lost + count) (hdecoded : next.decoded = r.decoded) :
    Traced stream found next := by
  obtain ⟨places, hplaced, hplaces⟩ := h.placed
  have hlength : next.window.length = r.window.length - count := by
    rw [hwindow, List.length_drop]
  constructor
  · rw [hwindow]
    exact (List.drop_suffix count r.window).trans h.suffix
  · have := h.bounded
    omega
  · exact hdecoded.trans h.counted
  · have := h.balanced
    omega
  · exact ⟨places, hplaced, hplaces.mono (by omega)⟩

/-- The message that is taken off the window stands behind those that were found before. -/
theorem accept (h : Traced stream found r) {s : Sighting} (hstep : nextStep r.window = .accept s) :
    Traced stream (found ++ [s]) (r.accept s) := by
  obtain ⟨places, hplaced, hplaces⟩ := h.placed
  obtain ⟨gone, hgone⟩ := h.suffix
  obtain ⟨hstart, hstop⟩ := accept_bounds hstep
  have hlength : (r.accept s).window.length = r.window.length - s.stop := by
    rw [window_accept, List.length_drop]
  have htotal : stream.length = gone.length + r.window.length := by
    rw [← hgone, List.length_append]
  have hbounded := h.bounded
  constructor
  · exact (List.drop_suffix s.stop r.window).trans h.suffix
  · omega
  · rw [List.length_append, ← h.counted]
    rfl
  · have := h.balanced
    have hlost : (r.accept s).lost = r.lost := rfl
    simp only [List.map_append, List.map_singleton, List.sum_append, List.sum_singleton]
    omega
  · -- offsets in the window count from its front, those in the stream from behind what is gone
    have hexact : Message.Exact ((s.behind gone.length).cut stream) s.reading := by
      rw [← hgone, Sighting.cut_behind]
      exact exact_of_accept hstep
    have hsame : (s.behind gone.length).length = s.length := Nat.add_sub_add_left _ _ _
    refine ⟨places ++ [s.behind gone.length], ?_, ?_⟩
    · rw [List.map_append, List.map_append, hplaced, List.map_singleton, List.map_singleton, hsame]
      rfl
    · have hlimit : stream.length - (r.accept s).window.length = (s.behind gone.length).stop := by
        simp only [Sighting.behind]
        omega
      rw [hlimit]
      apply hplaces.concat
      · simp only [Sighting.behind]
        omega
      · simp only [Sighting.behind]
        omega
      · exact hexact

theorem settle (h : Traced stream found r) :
    Traced stream (found ++ r.settle.1) r.settle.2 := by
  fun_induction Reassembly.settle r generalizing found with
  | case1 r _ s hstep later final hlater ih =>
    have hnext := ih (h.accept hstep)
    rw [hlater, List.append_assoc] at hnext
    exact hnext
  | case2 r _ count hstep ih =>
    exact ih (h.discard (nextStep_refuse hstep).2 rfl rfl rfl)
  | case3 r _ _ =>
    rw [List.append_nil]
    exact h
  | case4 r _ =>
    rw [List.append_nil]
    exact h

theorem makeRoom (h : Traced stream found r) :
    Traced stream (found ++ r.makeRoom.1) r.makeRoom.2 := by
  obtain ⟨_, heq⟩ | ⟨_, heq⟩ | ⟨_, heq⟩ := makeRoom_cases r
  · rwa [heq, List.append_nil]
  · rw [heq]
    exact h.settle
  · rw [heq]
    exact h.settle.discard (Nat.sub_le _ _) rfl rfl rfl

theorem pushAll (h : Traced stream found r) (bytes : Bytes) :
    Traced (stream ++ bytes) (found ++ (r.pushAll bytes).1) (r.pushAll bytes).2 := by
  induction bytes generalizing stream found r with
  | nil => simpa only [Reassembly.pushAll, List.append_nil] using h
  | cons b bytes ih =>
    have hlater := ih (h.makeRoom.push (length_makeRoom_lt r) b)
    rw [List.append_assoc, List.append_assoc] at hlater
    exact hlater

theorem receive (h : Traced stream found r) (piece : Bytes) :
    Traced (stream ++ piece) (found ++ (r.receive piece).1) (r.receive piece).2 := by
  have hsettled := (h.pushAll piece).settle
  rw [List.append_assoc] at hsettled
  exact hsettled

theorem receiveAll (h : Traced stream found r) (pieces : List Bytes) :
    Traced (stream ++ pieces.flatten) (found ++ (r.receiveAll pieces).1)
      (r.receiveAll pieces).2 := by
  induction pieces generalizing stream found r with
  | nil => simpa only [Reassembly.receiveAll, List.flatten_nil, List.append_nil] using h
  | cons piece pieces ih =>
    have hlater := ih (h.receive piece)
    rw [List.append_assoc, List.append_assoc] at hlater
    exact hlater

end Traced

theorem receiveAll_append (r : Reassembly) (front back : List Bytes) :
    r.receiveAll (front ++ back) =
      ((r.receiveAll front).1 ++ ((r.receiveAll front).2.receiveAll back).1,
        ((r.receiveAll front).2.receiveAll back).2) := by
  induction front generalizing r with
  | nil => simp only [List.nil_append, receiveAll]
  | cons piece rest ih => simp only [List.cons_append, receiveAll, ih, List.append_assoc]

/-- Every stream is traced, however it is cut. -/
theorem traced_receiveAll (pieces : List Bytes) :
    Traced pieces.flatten (empty.receiveAll pieces).1 (empty.receiveAll pieces).2 :=
  Traced.initial.receiveAll pieces

/-- Where each byte of the stream is that has been received: in the window, lost, or taken off the
window with one of the messages that were found. -/
structure Accounted (stream : Bytes) (found : List Sighting) (r : Reassembly) : Prop where
  suffix : r.window <:+ stream
  bounded : r.window.length ≤ windowSize
  counted : r.decoded = found.length
  balanced : stream.length = r.window.length + r.lost + (found.map (fun s => s.stop)).sum
  placed : ∃ places, places.map (fun p => p.reading) = found.map (fun s => s.reading) ∧
    Placed stream (stream.length - r.window.length) places

theorem Traced.accounted {stream : Bytes} {found : List Sighting} {r : Reassembly}
    (h : Traced stream found r) : Accounted stream found r := by
  obtain ⟨places, hplaced, hplaces⟩ := h.placed
  refine ⟨h.suffix, h.bounded, h.counted, h.balanced, places, ?_, hplaces⟩
  have hreadings := congrArg (List.map Prod.fst) hplaced
  rwa [List.map_map, List.map_map] at hreadings

/-- However a stream is cut, the window is its last bytes, the readings are those of messages in
front of the window, one behind the other, and every other byte is counted as lost or went with one
of them. -/
theorem receiveAll_accounted (pieces : List Bytes) :
    Accounted pieces.flatten (empty.receiveAll pieces).1 (empty.receiveAll pieces).2 :=
  (traced_receiveAll pieces).accounted

end Reassembly

end BurnerTelemetry.Wire
