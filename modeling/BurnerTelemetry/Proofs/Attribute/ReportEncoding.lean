import BurnerTelemetry.Proofs.Attribute.Field
import BurnerTelemetry.Proofs.Tlv.Placement

/-!
Writing a report where an encoder stands. The report is written if its array may start there, if
there are levels of nesting left for the structures inside it, and if there is room for its bytes;
then these bytes are all that is new, and the open containers are as before.
-/
namespace BurnerTelemetry.Attribute.Report

open Tlv (Container Encoder Item)
open Tlv.Encoder (Placed containersThrough totalSize)

/-- The bytes of the report of the named attributes. -/
def bytes (s : Snapshot) (changes : Changes) : Bytes :=
  (items (entries s changes)).flatMap Item.toBytes

/-- The levels of nesting that a report takes: its array, and in it three for an entry. -/
def levels (es : List Entry) : Nat := if es.isEmpty then 1 else 4

/-- A report has one entry for each of the named attributes. -/
theorem entries_eq_map (s : Snapshot) (changes : Changes) :
    entries s changes =
      (Field.all.filter (fun f => f.isIn changes)).map (fun f => f.entry s) := by
  obtain ⟨flame, fan, temperature⟩ := changes
  cases flame <;> cases fan <;> cases temperature <;> rfl

theorem levels_entries (s : Snapshot) (changes : Changes) :
    levels (entries s changes) = if changes.isEmpty then 1 else 4 := by
  obtain ⟨flame, fan, temperature⟩ := changes
  cases flame <;> cases fan <;> cases temperature <;> rfl

theorem containersThrough_entryItems (containers : List Container) (e : Entry) :
    containersThrough containers (entryItems e) = containers := by
  cases hv : e.value <;> simp [entryItems, hv, Value.item, Encoder.containersAfter]

theorem containersThrough_entries (containers : List Container) (es : List Entry) :
    containersThrough containers (es.flatMap entryItems) = containers := by
  induction es with
  | nil => rfl
  | cons e rest ih =>
    rw [List.flatMap_cons, Encoder.containersThrough_append, containersThrough_entryItems, ih]

/-- A report leaves the open containers as they were. -/
theorem containersThrough_items (containers : List Container) (es : List Entry) :
    containersThrough containers (items es) = containers := by
  rw [items, List.cons_append, Encoder.containersThrough_cons, Encoder.containersThrough_append,
    containersThrough_entries]
  rfl

/-- The innermost structure of an entry stands in its array and two more. -/
theorem placed_entryItems_iff (containers : List Container) (e : Entry) :
    Placed (.array :: containers) (entryItems e) ↔ containers.length + 4 ≤ Tlv.depthLimit := by
  cases hv : e.value <;>
    simp [entryItems, hv, Value.item, Placed, Encoder.placeFault?, Encoder.tagFault?,
      Encoder.depth, Encoder.containersAfter] <;> omega

theorem placed_entries_iff (containers : List Container) (es : List Entry) :
    Placed (.array :: containers) (es.flatMap entryItems) ↔
      (es.isEmpty = false → containers.length + 4 ≤ Tlv.depthLimit) := by
  induction es with
  | nil => simp [Placed]
  | cons e rest ih =>
    rw [List.flatMap_cons, Encoder.placed_append, containersThrough_entryItems,
      placed_entryItems_iff, ih]
    constructor
    · rintro ⟨hdepth, _⟩ _
      exact hdepth
    · intro h
      exact ⟨h rfl, fun _ => h rfl⟩

/-- A report may stand outside of every array, where its levels of nesting are left. -/
theorem placed_items_iff (containers : List Container) (es : List Entry) :
    Placed containers (items es) ↔
      containers.head? ≠ some .array ∧ containers.length + levels es ≤ Tlv.depthLimit := by
  have hstart : Encoder.placeFault? ⟨[], 0, containers⟩ (.start 1 .array) = none ↔
      containers.head? ≠ some .array ∧ containers.length + 1 ≤ Tlv.depthLimit := by
    by_cases hdepth : Tlv.depthLimit ≤ containers.length
    · have hnot : ¬ containers.length + 1 ≤ Tlv.depthLimit := by omega
      simp [Encoder.placeFault?, Encoder.depth, hdepth, hnot]
    · have hroom : containers.length + 1 ≤ Tlv.depthLimit := by omega
      simp [Encoder.placeFault?, Encoder.tagFault?, Encoder.depth, hdepth, hroom]
  have hstop : Placed (.array :: containers) [Item.stop] := ⟨rfl, trivial⟩
  rw [items, List.cons_append, Placed, hstart, Encoder.containersAfter, Encoder.placed_append,
    containersThrough_entries, placed_entries_iff, levels]
  cases es with
  | nil => simp [hstop]
  | cons e rest =>
    simp only [List.isEmpty_cons, forall_const, Bool.false_eq_true, if_false]
    constructor
    · rintro ⟨⟨harray, _⟩, hdepth, _⟩
      exact ⟨harray, hdepth⟩
    · rintro ⟨harray, hdepth⟩
      exact ⟨⟨harray, by omega⟩, hdepth, hstop⟩

/-- The most bytes that the entry of an attribute takes. -/
def sizeLimit : Field → Nat
  | .flame => 26
  | .fan => 27
  | .temperature => 31

theorem size_entryItems_le (s : Snapshot) (f : Field) :
    totalSize (entryItems (f.entry s)) ≤ sizeLimit f := by
  have hversion := (Tlv.Width.ofUnsigned s.version).bytes_le
  have hendpoint : (Tlv.Width.ofUnsigned endpoint.toUInt32).bytes = 1 := by decide
  have hreported : (Tlv.Width.ofUnsigned reportedId).bytes = 1 := by decide
  simp only [entryItems, Field.entry, Encoder.totalSize_cons, Encoder.totalSize_nil,
    Item.size_start, Item.size_unsigned, Item.size_stop, hendpoint, hreported]
  cases f with
  | flame =>
    have hcluster : (Tlv.Width.ofUnsigned onOffCluster).bytes = 1 := by decide
    simp only [Field.cluster, Field.value, Value.item, Item.size_boolean, hcluster, sizeLimit]
    omega
  | fan =>
    have hcluster : (Tlv.Width.ofUnsigned levelCluster).bytes = 1 := by decide
    have hvalue : (Tlv.Width.ofUnsigned s.fan.toUInt32).bytes = 1 := by
      rw [Tlv.Width.ofUnsigned, UInt8.toNat_toUInt32, if_pos s.fan.toNat_lt]
      rfl
    simp only [Field.cluster, Field.value, Value.item, Item.size_unsigned, hcluster, hvalue,
      sizeLimit]
    omega
  | temperature =>
    have hcluster : (Tlv.Width.ofUnsigned temperatureCluster).bytes = 2 := by decide
    have hvalue := (Tlv.Width.ofSigned (Int32.ofNat s.centidegrees)).bytes_le
    simp only [Field.cluster, Field.value, Value.item, Item.size_signed, hcluster, sizeLimit]
    omega

theorem size_entries_le (s : Snapshot) (fields : List Field) :
    totalSize ((fields.map (fun f => f.entry s)).flatMap entryItems) ≤
      (fields.map sizeLimit).sum := by
  induction fields with
  | nil => exact Nat.le_refl 0
  | cons f rest ih =>
    rw [List.map_cons, List.flatMap_cons, Encoder.totalSize_append, List.map_cons, List.sum_cons]
    exact Nat.add_le_add (size_entryItems_le s f) ih

/-- The longest report has 87 bytes. -/
theorem length_bytes_le (s : Snapshot) (changes : Changes) : (bytes s changes).length ≤ 87 := by
  have hentries := size_entries_le s (Field.all.filter (fun f => f.isIn changes))
  have hall : ((Field.all.filter (fun f => f.isIn changes)).map sizeLimit).sum ≤ 84 := by
    obtain ⟨flame, fan, temperature⟩ := changes
    cases flame <;> cases fan <;> cases temperature <;> decide
  rw [bytes, Encoder.length_flatMap_toBytes, items, List.cons_append, Encoder.totalSize_cons,
    Encoder.totalSize_append, entries_eq_map]
  simp only [Item.size_start, Encoder.totalSize_cons, Item.size_stop, Encoder.totalSize_nil]
  omega

example : (bytes ⟨true, 100, 500, 0, 65536⟩ ⟨true, true, true⟩).length = 87 := by decide

/-- A report is written where it may stand and has room, and nowhere else. -/
theorem encode_ok_iff (s : Snapshot) (changes : Changes) (e : Encoder) :
    (encode s changes e).1 = .ok () ↔
      e.containers.head? ≠ some .array ∧
        e.depth + (if changes.isEmpty then 1 else 4) ≤ Tlv.depthLimit ∧
        (bytes s changes).length ≤ e.remaining := by
  rw [encode, Encoder.putAll_ok_iff, placed_items_iff, levels_entries, and_assoc, bytes,
    Encoder.length_flatMap_toBytes]
  rfl

/-- A report that is written stands behind what was written before, in the same containers. -/
theorem encode_ok {s : Snapshot} {changes : Changes} {e final : Encoder}
    (h : encode s changes e = (.ok (), final)) :
    final.written = e.written ++ bytes s changes ∧ final.containers = e.containers := by
  obtain ⟨hwritten, hcontainers⟩ := Encoder.putAll_ok h
  rw [containersThrough_items] at hcontainers
  exact ⟨hwritten, hcontainers⟩

/-- An encoder that starts in a buffer with room for the report gives its bytes. -/
theorem encode_ofBuffer {s : Snapshot} {changes : Changes} {buffer : Bytes}
    (hroom : (bytes s changes).length ≤ buffer.length) :
    ∃ e, encode s changes (Encoder.ofBuffer buffer) = (.ok (), e) ∧
      e.finish = .ok (bytes s changes) := by
  have hlevels : 0 + (if changes.isEmpty then 1 else 4) ≤ Tlv.depthLimit := by
    split <;> decide
  have hok := (encode_ok_iff s changes (Encoder.ofBuffer buffer)).2 ⟨nofun, hlevels, hroom⟩
  have hencode : encode s changes (Encoder.ofBuffer buffer) =
      (.ok (), (encode s changes (Encoder.ofBuffer buffer)).2) := Prod.ext hok rfl
  obtain ⟨hwritten, hcontainers⟩ := encode_ok hencode
  refine ⟨_, hencode, Encoder.finish_ok_iff.2 ⟨?_, hwritten.symm⟩⟩
  exact congrArg List.length hcontainers

end BurnerTelemetry.Attribute.Report
