import BurnerTelemetry.Proofs.Attribute.ReportEncoding
import BurnerTelemetry.Proofs.Attribute.ReportGrammar
import BurnerTelemetry.Proofs.Attribute.Snapshot
import BurnerTelemetry.Reporter

/-!
Reports and what is read from them. The report of any attributes of a snapshot fits into the
buffer that a report is written in, and its decoder gives back one entry for each of them.
-/
namespace BurnerTelemetry.Attribute.Report

open Tlv (Encoder Item)

theorem cluster_of_mem_entries {s : Snapshot} {changes : Changes} {e : Entry}
    (h : e ∈ entries s changes) : e.cluster = e.value.cluster := by
  obtain ⟨v, _, rfl⟩ := List.mem_map.1 h
  rfl

/-- A walk over the bytes of a report yields its items. -/
theorem yields_bytes (s : Snapshot) (changes : Changes) :
    (Tlv.Cursor.start (bytes s changes)).yields = items (entries s changes) := by
  obtain ⟨e, hencode, hfinish⟩ := encode_ofBuffer (Nat.le_refl (bytes s changes).length)
  have hholds := (Encoder.holds_ofBuffer _).putAll hencode
  rw [(Encoder.finish_ok_iff.1 hfinish).2]
  exact Tlv.Cursor.yields_written hholds

/-- The bytes of a report are read as its entries. -/
theorem decode_bytes (s : Snapshot) (changes : Changes) :
    decode (bytes s changes) = .ok (entries s changes) := by
  refine decode_ok_iff.2 ⟨_, lists_entryItems (fun _ => cluster_of_mem_entries), ?_⟩
  rw [yields_bytes]
  exact List.prefix_rfl

/-- The report of any attributes fits the buffer that it is written in, and what the buffer held
before makes no difference to it. -/
theorem payload_eq_bytes (buffer : Reporter.Buffer) (s : Snapshot) (changes : Changes) :
    (Reporter.payload buffer s changes).1 = .ok (bytes s changes) := by
  have hroom : (bytes s changes).length ≤ buffer.val.length := by
    have hlength := length_bytes_le s changes
    rw [buffer.property, Reporter.bufferSize]
    omega
  obtain ⟨e, hencode, hfinish⟩ := encode_ofBuffer hroom
  unfold Reporter.payload
  simp only [hencode]
  exact hfinish

/-- Wherever an encoder stands, the report of some attributes is written if and only if the
innermost container is not an array, the levels of nesting that it takes are left, and there is
room for its bytes, which are at most 87 and are those that an empty encoder writes. They follow
what was written before, and the containers are as before; a report that is refused leaves what
was written before as well. The bytes are read as one entry for each of the attributes, and the
buffer of the reporter has room for them, whatever the reports before left in it. -/
theorem encode_anywhere (s : Snapshot) (changes : Changes) :
    let report := bytes s changes
    (∀ e : Encoder,
      let after := (encode s changes e).2
      ((encode s changes e).1 = .ok () ↔
        e.containers.head? ≠ some .array ∧
          e.depth + (if changes.isEmpty then 1 else 4) ≤ 8 ∧ report.length ≤ e.remaining) ∧
      ((encode s changes e).1 = .ok () →
        after.written = e.written ++ report ∧ after.depth = e.depth ∧
          after.containers = e.containers) ∧
      after.buffer.take e.used = e.written) ∧
    (∀ buffer : Bytes, report.length ≤ buffer.length →
      ∃ after, encode s changes (Encoder.ofBuffer buffer) = (.ok (), after) ∧
        after.finish = .ok report) ∧
    (∃ centidegrees : Int32, centidegrees.toInt = 100 * s.temperature.toNat ∧
      decode report = .ok
        ((if changes.flame then [⟨s.version, 1, 0x0006, 0, .onOff s.flame⟩] else []) ++
          (if changes.fan then [⟨s.version, 1, 0x0008, 0, .level s.fan⟩] else []) ++
          (if changes.temperature then [⟨s.version, 1, 0x0402, 0, .centidegrees centidegrees⟩]
            else []))) ∧
    report.length ≤ 87 ∧ ∀ buffer, (Reporter.payload buffer s changes).1 = .ok report := by
  intro report
  refine ⟨?_, fun buffer hroom => encode_ofBuffer hroom, ?_, length_bytes_le s changes,
    fun buffer => payload_eq_bytes buffer s changes⟩
  · intro e after
    refine ⟨encode_ok_iff s changes e, ?_, (Encoder.extends_putAll e _).2⟩
    intro hok
    have hencode : encode s changes e = (.ok (), after) := Prod.ext hok rfl
    obtain ⟨hwritten, hcontainers⟩ := encode_ok hencode
    exact ⟨hwritten, congrArg List.length hcontainers, hcontainers⟩
  · refine ⟨Int32.ofNat s.centidegrees, s.toInt_centidegrees, ?_⟩
    rw [decode_bytes]
    obtain ⟨flame, fan, temperature⟩ := changes
    cases flame <;> cases fan <;> cases temperature <;> rfl

end BurnerTelemetry.Attribute.Report
