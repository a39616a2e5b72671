import BurnerTelemetry.ByteRing
import BurnerTelemetry.Proofs.Fifo.Around

/-!
The byte ring as a queue. The bytes that it holds lie around its slots from the tail on, a byte
that finds room joins them at the end, and reading in pieces takes all of them out in order.
-/
namespace BurnerTelemetry.ByteRing

open Fifo (Around)

/-- The bytes in the ring, oldest first. -/
structure Holds (r : ByteRing) (bytes : Bytes) : Prop where
  count : r.count = bytes.length
  length_le : bytes.length ≤ capacity
  tail_lt : r.tail < capacity
  head : r.head = (r.tail + bytes.length) % capacity
  around : Around capacity r.slot r.tail bytes

theorem holds_empty : empty.Holds [] :=
  ⟨rfl, Nat.zero_le _, by decide, rfl, trivial⟩

variable {r : ByteRing} {bytes : Bytes}

theorem Holds.toList_eq (h : r.Holds bytes) : r.toList = bytes := by
  rw [toList, h.count]
  exact h.around.map_range

theorem slot_set (r : ByteRing) (b : UInt8) {head i : Nat} (hhead : head < capacity) :
    (r.slots.setIfInBounds head b)[i]?.getD 0 = if i = head then b else r.slot i := by
  rw [Vector.getElem?_setIfInBounds]
  by_cases hi : i = head
  · have hbound : head < 256 := hhead
    rw [if_pos hi.symm, if_pos hi, if_pos hbound]
    rfl
  · rw [if_neg (Ne.symm hi), if_neg hi]
    rfl

/-- A byte finds room exactly when the ring is not full, and then joins the others. -/
theorem Holds.store? (h : r.Holds bytes) (hroom : bytes.length < capacity) (b : UInt8) :
    ∃ next, r.store? b = some next ∧ next.Holds (bytes ++ [b]) := by
  have hnotFull : ¬ r.isFull = true := by
    simp only [isFull, h.count, beq_iff_eq]
    exact Nat.ne_of_lt hroom
  have hhead : r.head < capacity := by
    rw [h.head]
    exact Nat.mod_lt _ (by decide)
  refine ⟨_, if_neg hnotFull, ?_⟩
  constructor
  · simp only [h.count, List.length_append, List.length_singleton]
  · rw [List.length_append, List.length_singleton]
    exact hroom
  · exact h.tail_lt
  · simp only [following, h.head, List.length_append, List.length_singleton, Nat.mod_add_mod,
      Nat.add_assoc]
  · apply h.around.push hroom
    · simp only [slot, slot_set r b hhead, ← h.head, if_true]
    · intro i hi
      rw [← h.head] at hi
      simp only [slot, slot_set r b hhead, if_neg hi]

theorem store?_full (h : r.Holds bytes) (hfull : bytes.length = capacity) (b : UInt8) :
    r.store? b = none := by
  have hisFull : r.isFull = true := by
    simp only [isFull, h.count, beq_iff_eq]
    exact hfull
  rw [ByteRing.store?, if_pos hisFull]

theorem storeAll_full (h : r.Holds bytes) (hfull : bytes.length = capacity) (block : Bytes) :
    r.storeAll block = (0, r) := by
  induction block with
  | nil => rfl
  | cons b rest ih =>
    rw [ByteRing.storeAll, store?_full h hfull]
    exact ih

/-- Of a block the first bytes find room, as many as there are free slots. -/
theorem Holds.storeAll (h : r.Holds bytes) (block : Bytes) :
    (r.storeAll block).1 = min block.length (capacity - bytes.length) ∧
      (r.storeAll block).2.Holds (bytes ++ block.take (capacity - bytes.length)) := by
  induction block generalizing r bytes with
  | nil =>
    rw [List.take_nil, List.append_nil]
    exact ⟨(Nat.zero_min _).symm, h⟩
  | cons b rest ih =>
    have hle := h.length_le
    by_cases hroom : bytes.length < capacity
    · obtain ⟨next, hstore, hnext⟩ := h.store? hroom b
      obtain ⟨hcount, hholds⟩ := ih hnext
      have hleft : capacity - bytes.length = capacity - (bytes ++ [b]).length + 1 := by
        rw [List.length_append, List.length_singleton]
        omega
      rw [ByteRing.storeAll, hstore, hleft, List.take_succ_cons,
        List.append_cons bytes b (rest.take _)]
      simp only [List.length_cons, hcount]
      exact ⟨by omega, hholds⟩
    · have hfull : bytes.length = capacity := by omega
      rw [storeAll_full h hfull, hfull, Nat.sub_self, Nat.min_zero, List.take_zero,
        List.append_nil]
      exact ⟨rfl, h⟩

theorem Holds.pushAll (h : r.Holds bytes) (block : Bytes) :
    (r.pushAll block).Holds (bytes ++ block.take (capacity - bytes.length)) := by
  have hstored := (h.storeAll block).2
  exact ⟨hstored.count, hstored.length_le, hstored.tail_lt, hstored.head, hstored.around⟩

/-- A block of which every byte was stored joins the ring whole. -/
theorem Holds.pushAll_whole (h : r.Holds bytes) {block : Bytes}
    (hwhole : (r.storeAll block).1 = block.length) : (r.pushAll block).Holds (bytes ++ block) := by
  have hpush := h.pushAll block
  rw [(h.storeAll block).1] at hwhole
  rw [List.take_of_length_le (by omega)] at hpush
  exact hpush

theorem Holds.tail {b : UInt8} (h : r.Holds (b :: bytes)) :
    r.slot r.tail = b ∧ Holds { r with tail := following r.tail, count := r.count - 1 } bytes := by
  obtain ⟨hfirst, hrest⟩ := h.around
  have hle := h.length_le
  rw [Nat.mod_eq_of_lt h.tail_lt] at hfirst
  refine ⟨hfirst, ?_⟩
  constructor
  · simp only [h.count, List.length_cons, Nat.add_sub_cancel]
  · rw [List.length_cons] at hle
    exact Nat.le_of_succ_le hle
  · exact Nat.mod_lt _ (by decide)
  · simp only [h.head, following, List.length_cons, Nat.mod_add_mod]
    rw [Nat.add_assoc, Nat.add_comm 1]
  · exact hrest.of_modEq (Nat.mod_mod _ _).symm

theorem Holds.takeOut {front : Bytes} (h : r.Holds (front ++ bytes)) :
    (r.takeOut front.length).1 = front ∧ (r.takeOut front.length).2.Holds bytes := by
  induction front generalizing r with
  | nil => exact ⟨rfl, h⟩
  | cons b rest ih =>
    obtain ⟨hfirst, hrest⟩ := h.tail
    obtain ⟨htaken, hleft⟩ := ih hrest
    simp only [List.length_cons, ByteRing.takeOut, hfirst, htaken]
    exact ⟨trivial, hleft⟩

theorem Holds.read (h : r.Holds bytes) (limit : Nat) :
    (r.read limit).1 = bytes.take limit ∧ (r.read limit).2.Holds (bytes.drop limit) := by
  have hsplit := h
  rw [← List.take_append_drop limit bytes] at hsplit
  have htaken := hsplit.takeOut
  rw [List.length_take, ← h.count] at htaken
  exact htaken

/-- Reading in pieces empties the ring; the pieces are its bytes in order. -/
theorem Holds.readPieces (h : r.Holds bytes) {size : Nat} (hsize : 0 < size) :
    (r.readPieces size).1.flatten = bytes ∧ (r.readPieces size).2.Holds [] := by
  fun_induction ByteRing.readPieces r size generalizing bytes with
  | case1 r hmore pieces final hpieces ih =>
    obtain ⟨hfront, hrest⟩ := h.read size
    obtain ⟨hflatten, hfinal⟩ := ih hrest
    rw [hpieces] at hflatten hfinal
    rw [List.flatten_cons, hfront, hflatten]
    exact ⟨List.take_append_drop size bytes, hfinal⟩
  | case2 r hnone =>
    have hcount := h.count
    have hempty : bytes = [] := List.eq_nil_of_length_eq_zero (by omega)
    subst hempty
    exact ⟨rfl, h⟩

end BurnerTelemetry.ByteRing
