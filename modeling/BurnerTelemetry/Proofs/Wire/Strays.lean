import BurnerTelemetry.Proofs.Wire.Accounting

/-!
Bytes that belong to no message. What has left the window are the messages that were found and the
strays between them. A stray is counted as lost when it was refused or shed, but not when it went
together with the message behind it. Main statement: the count of lost bytes is the number of strays
exactly when no message was accepted over bytes in front of it.
-/
namespace BurnerTelemetry.Wire

/-- The byte at the offset belongs to none of the messages. -/
def IsStray (places : List Sighting) (i : Nat) : Prop := ∀ p ∈ places, i < p.start ∨ p.stop ≤ i

instance (places : List Sighting) (i : Nat) : Decidable (IsStray places i) :=
  inferInstanceAs (Decidable (∀ p ∈ places, i < p.start ∨ p.stop ≤ i))

/-- The number of strays in front of `limit`. -/
def strays (places : List Sighting) (limit : Nat) : Nat :=
  (List.range limit).countP (fun i => decide (IsStray places i))

section Counting

variable {places : List Sighting} {limit : Nat}

theorem strays_succ (places : List Sighting) (limit : Nat) :
    strays places (limit + 1) = strays places limit + if IsStray places limit then 1 else 0 := by
  rw [strays, List.range_succ, List.countP_append, List.countP_singleton]
  simp only [decide_eq_true_eq]
  rfl

theorem strays_over_message {count : Nat}
    (h : ∀ i, limit ≤ i → i < limit + count → ¬ IsStray places i) :
    strays places (limit + count) = strays places limit := by
  induction count with
  | zero => rfl
  | succ count ih =>
    have hlast := h (limit + count) (Nat.le_add_right _ _) (Nat.lt_succ_self _)
    rw [← Nat.add_assoc, strays_succ, if_neg hlast, Nat.add_zero]
    exact ih (fun i hi hlt => h i hi (Nat.lt_succ_of_lt hlt))

theorem strays_over_strays {count : Nat}
    (h : ∀ i, limit ≤ i → i < limit + count → IsStray places i) :
    strays places (limit + count) = strays places limit + count := by
  induction count with
  | zero => rfl
  | succ count ih =>
    have hlast := h (limit + count) (Nat.le_add_right _ _) (Nat.lt_succ_self _)
    rw [← Nat.add_assoc, strays_succ, if_pos hlast,
      ih (fun i hi hlt => h i hi (Nat.lt_succ_of_lt hlt))]
    rfl

/-- A message does not matter in front of its start. -/
theorem strays_concat_start (places : List Sighting) (p : Sighting) :
    strays (places ++ [p]) p.start = strays places p.start := by
  apply List.countP_congr
  intro i hi
  have hlt := List.mem_range.1 hi
  rw [decide_eq_true_iff, decide_eq_true_iff]
  constructor
  · exact fun h q hq => h q (List.mem_append_left _ hq)
  · intro h q hq
    rcases List.mem_append.1 hq with hq | hq
    · exact h q hq
    · rw [List.mem_singleton.1 hq]
      exact .inl hlt

/-- The strays and the messages together are all the bytes, as no two messages overlap. -/
theorem strays_add_lengths (hapart : places.Pairwise (fun a b => a.stop ≤ b.start))
    (hwithin : ∀ p ∈ places, p.stop ≤ limit) (hle : ∀ p ∈ places, p.start ≤ p.stop) :
    strays places limit + (places.map Sighting.length).sum = limit := by
  induction places using List.reverseRecOn generalizing limit with
  | nil => simp [strays, IsStray]
  | append_singleton places p ih =>
    obtain ⟨hearlier, _, hbefore⟩ := List.pairwise_append.1 hapart
    have hp : p ∈ places ++ [p] := List.mem_append_right _ (List.mem_singleton.2 rfl)
    have hstart : ∀ q ∈ places, q.stop ≤ p.start :=
      fun q hq => hbefore q hq p (List.mem_singleton.2 rfl)
    obtain ⟨length, hlength⟩ := Nat.exists_eq_add_of_le (hle p hp)
    obtain ⟨count, rfl⟩ := Nat.exists_eq_add_of_le (hwithin p hp)
    have hfront := ih hearlier hstart (fun q hq => hle q (List.mem_append_left _ hq))
    have hbehind : strays (places ++ [p]) (p.stop + count) =
        strays (places ++ [p]) p.stop + count := by
      apply strays_over_strays
      intro i hi _ q hq
      right
      rcases List.mem_append.1 hq with hq | hq
      · have := hstart q hq
        omega
      · rw [List.mem_singleton.1 hq]
        exact hi
    have hown : strays (places ++ [p]) (p.start + length) = strays (places ++ [p]) p.start := by
      apply strays_over_message
      intro i hi hlt hstray
      have := hstray p hp
      omega
    rw [← hlength, strays_concat_start] at hown
    have hsize : p.length = length := by
      rw [Sighting.length]
      omega
    rw [hbehind, hown, List.map_append, List.sum_append, List.map_singleton, List.sum_singleton,
      hsize]
    omega

end Counting

namespace Reassembly

variable {stream : Bytes} {limit : Nat} {places found : List Sighting} {r : Reassembly}

theorem Placed.start_lt_stop (h : Placed stream limit places) : ∀ p ∈ places, p.start < p.stop := by
  intro p hp
  have hsize := (h.exact p hp).size_le
  rw [Sighting.cut, List.length_drop, List.length_take, Frame.size] at hsize
  omega

/-- A message that stands in the stream is as long as its part of the stream. -/
theorem Placed.length_cut (h : Placed stream limit places) (hle : limit ≤ stream.length) :
    ∀ p ∈ places, (p.cut stream).length = p.length := by
  intro p hp
  have hstop := h.within p hp
  rw [Sighting.cut, List.length_drop, List.length_take_of_le (Nat.le_trans hstop hle),
    Sighting.length]

theorem Placed.strays_add_lengths (h : Placed stream limit places) :
    strays places limit + (places.map Sighting.length).sum = limit :=
  Wire.strays_add_lengths h.apart h.within (fun p hp => Nat.le_of_lt (h.start_lt_stop p hp))

/-- What goes with a message is the message and what stands in front of it in the window. -/
theorem sum_stop_eq (h : ∀ s ∈ found, s.start ≤ s.stop) :
    (found.map (fun s => s.stop)).sum =
      (found.map (fun s => s.start)).sum + (found.map Sighting.length).sum := by
  induction found with
  | nil => rfl
  | cons s rest ih =>
    have hrest := ih (fun t ht => h t (List.mem_cons_of_mem s ht))
    have hs := h s List.mem_cons_self
    simp only [List.map_cons, List.sum_cons, hrest, Sighting.length]
    omega

theorem sum_start_eq_zero_iff :
    (found.map (fun s => s.start)).sum = 0 ↔ ∀ s ∈ found, s.start = 0 := by
  induction found with
  | nil => simp
  | cons s rest ih => rw [List.map_cons, List.sum_cons, Nat.add_eq_zero_iff, ih, List.forall_mem_cons]

/-- The messages that were found are those of the stream, so none of them is empty. -/
theorem Placed.start_lt_stop_found (h : Placed stream limit places)
    (hfound : places.map (fun p => (p.reading, p.length)) =
      found.map (fun s => (s.reading, s.length))) : ∀ s ∈ found, s.start < s.stop := by
  intro s hs
  have hmem : (s.reading, s.length) ∈ places.map (fun p => (p.reading, p.length)) := by
    rw [hfound]
    exact List.mem_map_of_mem hs
  obtain ⟨p, hp, hsame⟩ := List.mem_map.1 hmem
  have hlt := h.start_lt_stop p hp
  have hlength : p.length = s.length := congrArg Prod.snd hsame
  simp only [Sighting.length] at hlength
  omega

/-- However a stream is cut, the bytes that have left the window are the messages that were found and
strays; of the strays those are not counted as lost that stood in the window in front of a message
when it was accepted. So the count of lost bytes is the number of strays, and with the window and the
messages it makes up the stream, exactly when each message was at the front of the window. -/
theorem receiveAll_lost_iff (pieces : List Bytes) :
    let stream := pieces.flatten
    let found := (empty.receiveAll pieces).1
    let r := (empty.receiveAll pieces).2
    let gone := stream.length - r.window.length
    r.window <:+ stream ∧
    ∃ places, Placed stream gone places ∧
      places.map (fun p => (p.reading, p.length)) = found.map (fun s => (s.reading, s.length)) ∧
      (∀ p ∈ places, (p.cut stream).length = p.length) ∧
      strays places gone = r.lost + (found.map (fun s => s.start)).sum ∧
      (r.lost = strays places gone ↔ ∀ s ∈ found, s.start = 0) ∧
      (stream.length = r.window.length + r.lost + (places.map Sighting.length).sum ↔
        ∀ s ∈ found, s.start = 0) := by
  intro stream found r gone
  have htraced : Traced stream found r := traced_receiveAll pieces
  obtain ⟨places, hfound, hplaces⟩ := htraced.placed
  have hbalanced := htraced.balanced
  have hall : strays places gone + (places.map Sighting.length).sum = gone :=
    hplaces.strays_add_lengths
  have hlengths : (places.map Sighting.length).sum = (found.map Sighting.length).sum := by
    have hsame := congrArg (List.map Prod.snd) hfound
    rw [List.map_map, List.map_map] at hsame
    exact congrArg List.sum hsame
  have hstops := sum_stop_eq (fun s hs => Nat.le_of_lt (hplaces.start_lt_stop_found hfound s hs))
  have hwindow : r.window.length + gone = stream.length :=
    Nat.add_sub_of_le htraced.suffix.length_le
  have hstrays : strays places gone = r.lost + (found.map (fun s => s.start)).sum := by
    omega
  refine ⟨htraced.suffix, places, hplaces, hfound, hplaces.length_cut (Nat.sub_le _ _), hstrays,
    ?_, ?_⟩
  · rw [← sum_start_eq_zero_iff]
    omega
  · rw [← sum_start_eq_zero_iff]
    omega

/-- A byte of noise in front of a good frame goes with the frame, and nothing counts it. -/
theorem receiveAll_skips_uncounted :
    let stream : Bytes := [0x00, 0xAA, 0x01, 0x32, 0x00, 0x3C, 0x55]
    let frame : Sighting := ⟨⟨true, 50, 60, 0, true⟩, 1, 7⟩
    let after := empty.receiveAll [stream]
    after = ([frame], ⟨[], 0, 1, 0⟩) ∧
      frame.cut stream = (Frame.ofStatus true 0 50 60).toBytes ∧
      ¬ after.2.lost = strays [frame] (stream.length - after.2.window.length) ∧
      ¬ stream.length = after.2.window.length + after.2.lost + (after.1.map Sighting.length).sum := by
  decide +kernel

end Reassembly

end BurnerTelemetry.Wire
