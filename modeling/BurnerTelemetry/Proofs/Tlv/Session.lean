import BurnerTelemetry.Proofs.Tlv.Stream

/-!
Items offered to an encoder. They are offered one after another, and an item that is refused is
passed over. At every moment the bytes in use are the written forms of the items taken so far, so a
cursor that starts in front of them reads these items and no others.
-/
namespace BurnerTelemetry.Tlv

namespace Encoder

/-- Offers items one after another: those that were taken, and the encoder behind them. A narrow
number is offered as the word to which it widens. -/
def offerAll (e : Encoder) : List Item → List Item × Encoder
  | [] => ([], e)
  | item :: rest =>
    match e.put item with
    | .ok next => (item :: (next.offerAll rest).1, (next.offerAll rest).2)
    | .error _ => e.offerAll rest

/-- The bytes in use are the written forms of these items, which a reader accepts. -/
structure Holds (e : Encoder) (items : List Item) : Prop where
  used_le : e.used ≤ e.buffer.length
  written : e.written = items.flatMap Item.toBytes
  fit : AllFit 0 items
  depth : e.depth = depthThrough 0 items

theorem holds_ofBuffer (buffer : Bytes) : (ofBuffer buffer).Holds [] :=
  ⟨Nat.zero_le _, rfl, trivial, rfl⟩

theorem length_written {e : Encoder} (h : e.used ≤ e.buffer.length) :
    e.written.length = e.used := by
  simp [written, h]

@[simp] theorem used_write (e : Encoder) (item : Item) :
    (e.write item).used = e.used + item.size := rfl

@[simp] theorem depth_write (e : Encoder) (item : Item) :
    (e.write item).depth = item.depthAfter e.depth := by
  cases item <;> simp [write, depth, containersAfter, Item.depthAfter]

theorem written_write {e : Encoder} (h : e.used ≤ e.buffer.length) (item : Item) :
    (e.write item).written = e.written ++ item.toBytes := by
  have hlen : (e.buffer.take e.used ++ item.toBytes).length = e.used + item.size := by
    simp [Item.size, h]
  change (e.buffer.take e.used ++ item.toBytes ++ _).take (e.used + item.size) = _
  rw [List.take_left' hlen]
  rfl

/-- What the writer allows at its place, the reader accepts there. -/
theorem fits_of_placeFault? {e : Encoder} {item : Item} (h : e.placeFault? item = none) :
    item.Fits e.depth := by
  cases item with
  | text tag s =>
    simp only [placeFault?] at h
    split at h
    · cases h
    · exact Nat.le_of_not_lt ‹_›
  | start tag container =>
    simp only [placeFault?] at h
    split at h
    · cases h
    · exact Nat.lt_of_not_le ‹_›
  | stop =>
    simp only [placeFault?] at h
    split at h
    · cases h
    · exact Nat.pos_of_ne_zero ‹_›
  | _ => trivial

theorem Holds.put {e next : Encoder} {items : List Item} {item : Item} (h : e.Holds items)
    (hput : e.put item = .ok next) : next.Holds (items ++ [item]) := by
  obtain ⟨hplace, hroom, rfl⟩ := put_ok_iff.1 hput
  have hused := h.used_le
  have hend : e.used + item.size ≤ e.buffer.length := by
    simp only [remaining] at hroom
    omega
  constructor
  · rw [length_buffer_write hend, used_write]
    exact hend
  · rw [written_write hused, h.written, List.flatMap_append, List.flatMap_singleton]
  · have hitem : AllFit e.depth [item] := ⟨fits_of_placeFault? hplace, trivial⟩
    rw [h.depth] at hitem
    exact (allFit_append 0 items [item]).2 ⟨h.fit, hitem⟩
  · rw [depth_write, h.depth, depthThrough_append]
    rfl

theorem Holds.offerAll {e : Encoder} {items : List Item} (h : e.Holds items)
    (calls : List Item) : (e.offerAll calls).2.Holds (items ++ (e.offerAll calls).1) := by
  induction calls generalizing e items with
  | nil => simpa [Encoder.offerAll] using h
  | cons item rest ih =>
    unfold Encoder.offerAll
    cases hput : e.put item with
    | error fault => exact ih h
    | ok next => simpa using ih (h.put hput)

/-- A fresh cursor over the bytes in use answers the items, then that there are no more. -/
theorem Holds.reads_back {e : Encoder} {items : List Item} (h : e.Holds items) :
    (Cursor.start e.written).nexts items.length =
      (items.map (fun i => .ok (some i)), ⟨e.written, e.used, e.depth, false⟩) := by
  have hsteps := Cursor.nexts_items h.fit [] []
  simp only [List.nil_append, List.append_nil, List.length_nil] at hsteps
  rw [← h.written, length_written h.used_le, ← h.depth] at hsteps
  exact hsteps

theorem finish_ok_iff {e : Encoder} {bytes : Bytes} :
    e.finish = .ok bytes ↔ e.depth = 0 ∧ bytes = e.written := by
  unfold finish
  split <;> simp_all [eq_comm]

/-- Whatever the buffer held before, the bytes in use read back as the items that were taken, each
one whole, and then as nothing more. The stream can be finished when as many containers were stopped
as were started, and at no other time. -/
theorem offerAll_reads_back (buffer : Bytes) (calls : List Item) :
    let taken := ((ofBuffer buffer).offerAll calls).1
    let e := ((ofBuffer buffer).offerAll calls).2
    let last : Cursor := ⟨e.written, e.used, e.depth, false⟩
    e.written.length = e.used ∧
      (Cursor.start e.written).nexts taken.length =
        (taken.map (fun i => .ok (some i)), last) ∧
      last.next = (.ok none, last) ∧
      e.depth + taken.count .stop = taken.countP Item.isStart ∧
      ∀ bytes, e.finish = .ok bytes ↔
        taken.count .stop = taken.countP Item.isStart ∧ bytes = e.written := by
  intro taken e last
  have h : e.Holds taken := (holds_ofBuffer buffer).offerAll calls
  have hlen : e.written.length = e.used := length_written h.used_le
  have hcount := depthThrough_add_stops h.fit
  rw [← h.depth, Nat.zero_add] at hcount
  refine ⟨hlen, h.reads_back, Cursor.next_of_isEnd ?_, hcount, ?_⟩
  · simp [last, Cursor.isEnd, hlen]
  · intro bytes
    rw [finish_ok_iff]
    constructor
    · rintro ⟨hdepth, hbytes⟩
      exact ⟨by omega, hbytes⟩
    · rintro ⟨hstops, hbytes⟩
      exact ⟨by omega, hbytes⟩

end Encoder

end BurnerTelemetry.Tlv
