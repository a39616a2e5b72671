import BurnerTelemetry.Bytes.Lemmas
import BurnerTelemetry.Tlv.Cursor
import BurnerTelemetry.Tlv.Encoder
import Mathlib.Tactic.IntervalCases

/-!
The written form of an item is read back as that item, whatever bytes follow it. The reader asks
less of an item than the writer does: it knows the number of open containers but not their kinds.
-/
namespace BurnerTelemetry.Tlv

theorem Control.ofByte_toByte (kind : Kind) (tagForm : TagForm) {low : UInt8}
    (h : low.toNat < 8) :
    ofByte (toByte ⟨kind, tagForm, low⟩) = .ok ⟨kind, tagForm, low⟩ := by
  have hlow : low = UInt8.ofNat low.toNat := by simp
  rw [hlow]
  generalize low.toNat = n at h
  interval_cases n <;> cases kind <;> cases tagForm <;> rfl

namespace Width

theorem code_lt (w : Width) : w.code.toNat < 8 := by cases w <;> decide

theorem bytes_le (w : Width) : w.bytes ≤ 4 := by cases w <;> decide

theorem toNat_lt_ofUnsigned (v : UInt32) : v.toNat < 256 ^ (ofUnsigned v).bytes := by
  have := v.toNat_lt
  unfold ofUnsigned
  split
  · simpa [bytes]
  · split <;> simpa [bytes]

/-- A signed value is the balanced remainder of itself at the width that is chosen for it. -/
theorem bmod_ofSigned (v : Int32) : Int.bmod v.toInt (256 ^ (ofSigned v).bytes) = v.toInt := by
  have := v.le_toInt
  have := v.toInt_lt
  apply Int.bmod_eq_of_le_mul_two <;> unfold ofSigned <;> split
  · simp only [bytes]; omega
  · split <;> simp only [bytes] <;> omega
  · simp only [bytes]; omega
  · split <;> simp only [bytes] <;> omega

theorem pow_bytes_dvd (w : Width) : 256 ^ w.bytes ∣ 2 ^ 32 := by cases w <;> decide

end Width

theorem unsigned_of_bytes (v : UInt32) :
    UInt32.ofNat (Bytes.toNatLE (Bytes.ofNatLE (Width.ofUnsigned v).bytes v.toNat)) = v := by
  rw [Bytes.toNatLE_ofNatLE, Nat.mod_eq_of_lt (Width.toNat_lt_ofUnsigned v), UInt32.ofNat_toNat]

/-- The sign survives the cut to a narrow width and the way back. -/
theorem signedOfBytes_ofNatLE (v : Int32) :
    signedOfBytes (Bytes.ofNatLE (Width.ofSigned v).bytes v.toUInt32.toNat) = v := by
  have hsize : 1 <<< (8 * (Width.ofSigned v).bytes) = 256 ^ (Width.ofSigned v).bytes := by
    cases Width.ofSigned v <;> rfl
  have hword : Int.bmod v.toUInt32.toNat (2 ^ 32) = v.toInt := by
    rw [← Int32.toInt_toBitVec, BitVec.toInt_eq_toNat_bmod, Int32.toNat_toBitVec]
  have hbytes : Int.bmod (v.toUInt32.toNat % 256 ^ (Width.ofSigned v).bytes : Nat)
      (256 ^ (Width.ofSigned v).bytes) = v.toInt := by
    rw [Int.natCast_emod, Int.emod_bmod, ← Int.bmod_bmod_of_dvd (Width.pow_bytes_dvd _), hword]
    exact Width.bmod_ofSigned v
  rw [signedOfBytes, Bytes.toNatLE_ofNatLE, Bytes.length_ofNatLE, hsize, hbytes, Int32.ofInt_toInt]

namespace Item

@[simp] theorem size_signed (tag : UInt8) (v : Int32) :
    (signed tag v).size = 2 + (Width.ofSigned v).bytes := by
  simp only [size, toBytes, List.length_cons, Bytes.length_ofNatLE]
  omega

@[simp] theorem size_unsigned (tag : UInt8) (v : UInt32) :
    (unsigned tag v).size = 2 + (Width.ofUnsigned v).bytes := by
  simp only [size, toBytes, List.length_cons, Bytes.length_ofNatLE]
  omega

@[simp] theorem size_boolean (tag : UInt8) (v : Bool) : (boolean tag v).size = 2 := rfl

@[simp] theorem size_text (tag : UInt8) (s : String) :
    (text tag s).size = 3 + s.utf8ByteSize := by
  simp only [size, toBytes, textPayload, List.length_cons, Text.Utf8.length_encode]
  omega

@[simp] theorem size_start (tag : UInt8) (container : Container) :
    (start tag container).size = 2 := rfl

@[simp] theorem size_stop : stop.size = 1 := rfl

/-- What a reader asks of an item that stands inside `depth` open containers. -/
def Fits (depth : Nat) : Item → Prop
  | text _ s => s.utf8ByteSize ≤ textLimit
  | start _ _ => depth < depthLimit
  | stop => 0 < depth
  | _ => True

end Item

@[simp] theorem readWidth_code (raw : UInt8) (kind : Kind) (tagForm : TagForm) (w : Width) :
    readWidth raw ⟨kind, tagForm, w.code⟩ = .ok w := by
  simp [readWidth]

theorem takeBytes_append (offset : Nat) {count : Nat} (front rest : Bytes)
    (h : front.length = count) : takeBytes offset count (front ++ rest) = .ok front := by
  subst h
  simp [takeBytes]

/-- Behind a first byte that announces a tag the reader goes on to the tag and the value. -/
theorem readItem_tagged (offset depth : Nat) (kind : Kind) {low : UInt8} (tag : UInt8)
    (body : Bytes) (hk : kind ≠ .stop) (hl : low.toNat < 8) :
    readItem offset depth (Control.toByte ⟨kind, .context, low⟩ :: tag :: body) =
      (readTagged (Control.toByte ⟨kind, .context, low⟩) ⟨kind, .context, low⟩ offset depth tag
        body).map (fun found => (found.1, 2 + found.2)) := by
  simp only [readItem, Control.ofByte_toByte kind .context hl, bind, Except.bind, hk, if_false,
    ne_eq, not_true_eq_false, pure, Except.pure, Except.map]

theorem readText_textPayload (raw : UInt8) (offset : Nat) (s : String) (rest : Bytes)
    (h : s.utf8ByteSize ≤ textLimit) :
    readText raw ⟨.text, .context, Width.one.code⟩ offset (textPayload s ++ rest) =
      .ok (s, 1 + s.utf8ByteSize) := by
  have hlength : (UInt8.ofNat s.utf8ByteSize).toNat = s.utf8ByteSize :=
    UInt8.toNat_ofNat_of_lt' (Nat.lt_succ_of_le h)
  have hroom : ¬ (Text.Utf8.encode s ++ rest).length < s.utf8ByteSize := by
    simp [Text.Utf8.length_encode]
  have hfront : (Text.Utf8.encode s ++ rest).take s.utf8ByteSize = Text.Utf8.encode s := by
    rw [← Text.Utf8.length_encode, List.take_left]
  simp only [readText, textPayload, List.cons_append, readWidth_code, bind, Except.bind, if_true,
    hlength, hroom, if_false, hfront, Text.Utf8.decode?_encode, pure, Except.pure]

/-- An item that was written is read back, and nothing of what follows it is used. -/
theorem readItem_toBytes {depth : Nat} {item : Item} (h : item.Fits depth) (offset : Nat)
    (rest : Bytes) :
    readItem offset depth (item.toBytes ++ rest) = .ok (item, item.size) := by
  cases item with
  | signed tag v =>
    have hbody := takeBytes_append offset _ rest
      (Bytes.length_ofNatLE (Width.ofSigned v).bytes v.toUInt32.toNat)
    simp only [Item.toBytes, List.cons_append]
    rw [readItem_tagged offset depth .signed tag _ (by decide) (Width.code_lt _)]
    simp only [readTagged, readWidth_code, hbody, bind, Except.bind, pure, Except.pure,
      Except.map, signedOfBytes_ofNatLE, Item.size_signed]
  | unsigned tag v =>
    have hbody := takeBytes_append offset _ rest
      (Bytes.length_ofNatLE (Width.ofUnsigned v).bytes v.toNat)
    simp only [Item.toBytes, List.cons_append]
    rw [readItem_tagged offset depth .unsigned tag _ (by decide) (Width.code_lt _)]
    simp only [readTagged, readWidth_code, hbody, bind, Except.bind, pure, Except.pure,
      Except.map, unsigned_of_bytes, Item.size_unsigned]
  | boolean tag v =>
    simp only [Item.toBytes, List.cons_append, List.nil_append]
    rw [readItem_tagged offset depth .boolean tag _ (by decide) (by cases v <;> decide)]
    cases v <;> rfl
  | text tag s =>
    simp only [Item.toBytes, List.cons_append]
    rw [readItem_tagged offset depth .text tag _ (by decide) (Width.code_lt _)]
    simp only [readTagged, readText_textPayload _ offset s rest h, bind, Except.bind, pure,
      Except.pure, Except.map, Item.size_text]
    rw [← Nat.add_assoc]
  | start tag container =>
    have hd : ¬ depthLimit ≤ depth := Nat.not_le_of_lt h
    simp only [Item.toBytes, List.cons_append, List.nil_append]
    rw [readItem_tagged offset depth container.kind tag _ (by cases container <;> decide)
      (by decide)]
    cases container <;>
      simp only [readTagged, Container.kind, hd, if_false, Except.map, Item.size_start]
  | stop =>
    have hd : depth ≠ 0 := Nat.ne_of_gt h
    have hc : Control.ofByte stopByte = .ok ⟨.stop, .anonymous, 0⟩ :=
      Control.ofByte_toByte .stop .anonymous (by decide)
    simp only [Item.toBytes, List.cons_append, List.nil_append, readItem, hc, bind, Except.bind]
    simp [hd, pure, Except.pure]

end BurnerTelemetry.Tlv
