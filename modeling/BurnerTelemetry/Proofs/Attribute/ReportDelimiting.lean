import BurnerTelemetry.Proofs.Attribute.ReportRoundTrip

/-!
Where a report ends. A decoder is done with the stop of the outer array, so bytes behind a report
are not looked at, and a report that is cut short anywhere is no report. Main statement: a report
says by itself where it ends, and what it tells of a cluster is a value of that cluster.
-/
namespace BurnerTelemetry.Attribute.Report

open Tlv (Cursor Encoder)

variable {p : Bytes} {es : List Entry}

/-- Bytes that follow a report change nothing. -/
theorem decode_append (h : decode p = .ok es) (rest : Bytes) : decode (p ++ rest) = .ok es := by
  obtain ⟨items, hlists, hcut⟩ := decode_ok_iff.1 h
  have hmore := Cursor.yields_extend (Cursor.start p) rest
  exact decode_ok_iff.2 ⟨items, hlists, hcut.trans hmore⟩

theorem cluster_of_decode (h : decode p = .ok es) : ∀ e ∈ es, e.cluster = e.value.cluster := by
  obtain ⟨_, hlists, _⟩ := decode_ok_iff.1 h
  exact hlists.cluster_eq

/-- The first bytes of a report are no report, unless they are all of it. -/
theorem eq_bytes_of_front {s : Snapshot} {changes : Changes} (hcut : p <+: bytes s changes)
    (h : decode p = .ok es) : p = bytes s changes := by
  obtain ⟨front, hlists, hyields⟩ := decode_ok_iff.1 h
  have hwhole : Lists ((entries s changes).flatMap entryItems ++ [.stop]) (entries s changes) :=
    lists_entryItems (fun _ => cluster_of_mem_entries)
  have hfront : .start 1 .array :: front <+: items (entries s changes) := by
    obtain ⟨rest, hrest⟩ := hcut
    rw [← yields_bytes, ← hrest]
    exact hyields.trans (Cursor.yields_extend (Cursor.start p) rest)
  -- the items that were read end the outer array, so they are all the items of the report
  have hall : front = (entries s changes).flatMap entryItems ++ [.stop] :=
    hlists.eq_of_front hwhole ((List.prefix_cons_inj _).1 hfront)
  obtain ⟨more, hmore⟩ := hyields
  have hsize : Encoder.totalSize (items (entries s changes)) ≤ p.length := by
    have hread := Cursor.totalSize_yields_le (Cursor.start p)
    rw [← hmore, hall, Encoder.totalSize_append] at hread
    exact Nat.le_trans (Nat.le_add_right _ _) hread
  rw [← Encoder.length_flatMap_toBytes] at hsize
  exact hcut.eq_of_length_le hsize

/-- The report of some attributes is read as their entries, whatever stands behind it, and every
proper part of it that begins where it begins is refused. Whatever bytes are read as a report are
read alike with other bytes behind them, and each entry has a value of the cluster that it names:
flame under 6, fan under 8, temperature under 0x402, and nothing under any other. -/
theorem decode_delimited :
    (∀ (s : Snapshot) (changes : Changes),
      let report := bytes s changes
      (∀ buffer : Bytes, report.length ≤ buffer.length →
        ∃ after, encode s changes (Encoder.ofBuffer buffer) = (.ok (), after) ∧
          after.finish = .ok report) ∧
      (∀ rest, decode (report ++ rest) = .ok (entries s changes)) ∧
      ∀ p, p <+: report → p ≠ report → ∃ fault, decode p = .error fault) ∧
    ∀ (p : Bytes) (es : List Entry), decode p = .ok es →
      (∀ rest, decode (p ++ rest) = .ok es) ∧
      ∀ e ∈ es,
        (∃ on, e.value = .onOff on ∧ e.cluster = 0x0006) ∨
        (∃ percent, e.value = .level percent ∧ e.cluster = 0x0008) ∨
        (∃ centidegrees, e.value = .centidegrees centidegrees ∧ e.cluster = 0x0402) := by
  constructor
  · intro s changes report
    refine ⟨fun buffer hroom => encode_ofBuffer hroom, decode_append (decode_bytes s changes), ?_⟩
    intro p hcut hproper
    cases hdecode : decode p with
    | error fault => exact ⟨fault, rfl⟩
    | ok es => exact absurd (eq_bytes_of_front hcut hdecode) hproper
  · intro p es h
    refine ⟨decode_append h, ?_⟩
    intro e he
    have hcluster := cluster_of_decode h e he
    cases hvalue : e.value with
    | onOff on =>
      rw [hvalue] at hcluster
      exact .inl ⟨on, rfl, hcluster⟩
    | level percent =>
      rw [hvalue] at hcluster
      exact .inr (.inl ⟨percent, rfl, hcluster⟩)
    | centidegrees centidegrees =>
      rw [hvalue] at hcluster
      exact .inr (.inr ⟨centidegrees, rfl, hcluster⟩)

end BurnerTelemetry.Attribute.Report
