import BurnerTelemetry.Proofs.Tlv.RoundTrip

/-!
What the reader accepts. The bytes of an item may be longer than its written form: a number may
take a width that it does not need, and the low bits in front of a container mean nothing. Main
statement: the reader answers an item exactly when the bytes begin with one of its spellings.
-/
namespace BurnerTelemetry.Tlv

theorem Control.toByte_of_ofByte {raw : UInt8} {control : Control}
    (h : ofByte raw = .ok control) : control.toByte = raw ∧ control.low.toNat < 8 := by
  have octets : ∀ n : Fin 256, ∀ c ∈ (ofByte (UInt8.ofNat n)).toOption,
      c.toByte = UInt8.ofNat n ∧ c.low.toNat < 8 := by decide +kernel
  have hraw := octets ⟨raw.toNat, raw.toNat_lt⟩ control
  simp only [UInt8.ofNat_toNat, h] at hraw
  exact hraw rfl

namespace Width

/-- No width that holds an unsigned value is narrower than the one chosen for it. -/
theorem ofUnsigned_le {n : Nat} {width : Width} (h : n < 256 ^ width.bytes) :
    (ofUnsigned (UInt32.ofNat n)).bytes ≤ width.bytes := by
  have hvalue : (UInt32.ofNat n).toNat ≤ n := Nat.mod_le n _
  unfold ofUnsigned
  cases width with
  | one =>
    have hone : n < 256 := h
    rw [if_pos (by omega)]
  | two =>
    have htwo : n < 65536 := h
    split
    · decide
    · rw [if_pos (by omega)]
  | four => exact bytes_le _

/-- No width that holds a signed value is narrower than the one chosen for it. -/
theorem ofSigned_le {v : Int32} {width : Width}
    (h : -(256 ^ width.bytes : Int) ≤ 2 * v.toInt ∧ 2 * v.toInt < 256 ^ width.bytes) :
    (ofSigned v).bytes ≤ width.bytes := by
  unfold ofSigned
  cases width with
  | one =>
    have hone : -256 ≤ 2 * v.toInt ∧ 2 * v.toInt < 256 := h
    rw [if_pos (by omega)]
  | two =>
    have htwo : -65536 ≤ 2 * v.toInt ∧ 2 * v.toInt < 65536 := h
    split
    · decide
    · rw [if_pos (by omega)]
  | four => exact bytes_le _

end Width

/-- A number in two's complement stays within its width. -/
theorem signedOfBytes_bounds {value : Bytes} {width : Width} (h : value.length = width.bytes) :
    -(256 ^ width.bytes : Int) ≤ 2 * (signedOfBytes value).toInt ∧
      2 * (signedOfBytes value).toInt < 256 ^ width.bytes := by
  have hsize : (1 <<< (8 * width.bytes) : Nat) = 256 ^ width.bytes := by cases width <;> rfl
  have hpos : 0 < 256 ^ width.bytes := Nat.pow_pos (by decide)
  have heven : 256 ^ width.bytes % 2 = 0 := by cases width <;> decide
  have hlow := Int.le_bmod (x := Bytes.toNatLE value) hpos
  have hhigh := Int.bmod_lt (x := Bytes.toNatLE value) hpos
  have hlimit : 256 ^ width.bytes ≤ 2 ^ 32 := by cases width <;> decide
  rw [signedOfBytes, h, hsize]
  generalize Int.bmod (Bytes.toNatLE value) (256 ^ width.bytes) = i at *
  have hword : (Int32.ofInt i).toInt = i := Int32.toInt_ofInt_of_le (by omega) (by omega)
  rw [hword]
  have hcast : (256 ^ width.bytes : Int) = (256 ^ width.bytes : Nat) := by norm_cast
  rw [hcast]
  omega

/-- The bytes that a reader takes for an item inside `depth` open containers. -/
inductive Spells (depth : Nat) : Bytes → Item → Prop where
  | unsigned (tag : UInt8) (width : Width) (value : Bytes) (h : value.length = width.bytes) :
    Spells depth (Control.toByte ⟨.unsigned, .context, width.code⟩ :: tag :: value)
      (.unsigned tag (UInt32.ofNat (Bytes.toNatLE value)))
  | signed (tag : UInt8) (width : Width) (value : Bytes) (h : value.length = width.bytes) :
    Spells depth (Control.toByte ⟨.signed, .context, width.code⟩ :: tag :: value)
      (.signed tag (signedOfBytes value))
  | boolean (tag : UInt8) (value : Bool) : Spells depth (Item.boolean tag value).toBytes (.boolean tag value)
  | text (tag : UInt8) (s : String) (h : s.utf8ByteSize ≤ textLimit) :
    Spells depth (Item.text tag s).toBytes (.text tag s)
  | start (tag : UInt8) (container : Container) (low : UInt8) (hlow : low.toNat < 8)
      (h : depth < depthLimit) :
    Spells depth [Control.toByte ⟨container.kind, .context, low⟩, tag] (.start tag container)
  | stop (h : 0 < depth) : Spells depth [stopByte] .stop

theorem readWidth_ok {raw : UInt8} {control : Control} {width : Width}
    (h : readWidth raw control = .ok width) : control.low = width.code := by
  unfold readWidth at h
  split at h
  · rename_i found hfound
    cases h
    have hcode := List.find?_some hfound
    exact (beq_iff_eq.1 hcode).symm
  · cases h

theorem takeBytes_ok {offset count : Nat} {bytes value : Bytes}
    (h : takeBytes offset count bytes = .ok value) :
    value.length = count ∧ bytes = value ++ bytes.drop count := by
  unfold takeBytes at h
  split at h
  · cases h
    exact ⟨List.length_take_of_le ‹_›, (List.take_append_drop count bytes).symm⟩
  · cases h

/-- A number is as long as its width says. -/
theorem readNumber_ok {raw : UInt8} {control : Control} {offset : Nat} {bytes : Bytes}
    {answer : Width → Bytes → Item × Nat} {found : Item × Nat}
    (h : (do
      let width ← readWidth raw control
      let value ← takeBytes offset width.bytes bytes
      return answer width value) = .ok found) :
    ∃ width value rest, control.low = Width.code width ∧ value.length = width.bytes ∧
      bytes = value ++ rest ∧ found = answer width value := by
  cases hw : readWidth raw control with
  | error e => rw [hw] at h; cases h
  | ok width =>
    cases hv : takeBytes offset width.bytes bytes with
    | error e => simp only [hw, hv, bind, Except.bind] at h; cases h
    | ok value =>
      simp only [hw, hv, bind, Except.bind, pure, Except.pure] at h
      obtain ⟨hlength, hbytes⟩ := takeBytes_ok hv
      cases h
      exact ⟨width, value, _, readWidth_ok hw, hlength, hbytes, rfl⟩

theorem readText_ok {raw : UInt8} {control : Control} {offset size : Nat} {bytes : Bytes}
    {s : String} (h : readText raw control offset bytes = .ok (s, size)) :
    control.low = Width.one.code ∧ s.utf8ByteSize ≤ textLimit ∧
      ∃ rest, bytes = textPayload s ++ rest ∧ size = (textPayload s).length := by
  unfold readText at h
  cases hw : readWidth raw control with
  | error e => rw [hw] at h; cases h
  | ok width =>
    simp only [hw, bind, Except.bind] at h
    split at h
    · rename_i hone
      split at h
      · cases h
      · rename_i length rest
        split at h
        · cases h
        · rename_i hroom
          split at h
          · rename_i found hfound
            cases h
            have hencode := Text.Utf8.eq_encode_of_decode? hfound
            have hsize : s.utf8ByteSize = length.toNat := by
              have hlength := congrArg List.length hencode
              rw [Text.Utf8.length_encode, List.length_take] at hlength
              omega
            have hbyte : UInt8.ofNat s.utf8ByteSize = length := by
              rw [hsize, UInt8.ofNat_toNat]
            have hlimit := length.toNat_lt
            refine ⟨hone ▸ readWidth_ok hw, ?_, rest.drop length.toNat, ?_, ?_⟩
            · simp only [textLimit]
              omega
            · rw [textPayload, hbyte, ← hencode, List.cons_append, List.take_append_drop]
            · rw [textPayload, List.length_cons, Text.Utf8.length_encode, hsize, Nat.add_comm]
          · cases h
    · cases h

/-- What stands behind a tag belongs to the item with the first byte and the tag. -/
theorem readTagged_ok {control : Control} {offset depth size : Nat} {tag : UInt8} {body : Bytes}
    {item : Item} (hform : control.tagForm = .context) (hlow : control.low.toNat < 8)
    (h : readTagged control.toByte control offset depth tag body = .ok (item, size)) :
    ∃ value rest, body = value ++ rest ∧ Spells depth (control.toByte :: tag :: value) item ∧
      size = value.length := by
  obtain ⟨kind, form, low⟩ := control
  subst hform
  unfold readTagged at h
  cases kind with
  | unsigned =>
    obtain ⟨width, value, rest, rfl, hlength, hbody, hfound⟩ := readNumber_ok h
    cases hfound
    exact ⟨value, rest, hbody, .unsigned tag width value hlength, hlength.symm⟩
  | signed =>
    obtain ⟨width, value, rest, rfl, hlength, hbody, hfound⟩ := readNumber_ok h
    cases hfound
    exact ⟨value, rest, hbody, .signed tag width value hlength, hlength.symm⟩
  | boolean =>
    simp only at h
    split at h
    · cases h
      subst low
      exact ⟨[], body, rfl, .boolean tag false, rfl⟩
    split at h
    · cases h
      subst low
      exact ⟨[], body, rfl, .boolean tag true, rfl⟩
    · cases h
  | text =>
    cases ht : readText (Control.toByte ⟨.text, .context, low⟩) ⟨.text, .context, low⟩ offset body with
    | error e => simp only [ht, bind, Except.bind] at h; cases h
    | ok found =>
      simp only [ht, bind, Except.bind, pure, Except.pure] at h
      cases h
      obtain ⟨hone, hlimit, rest, hbody, hsize⟩ := readText_ok ht
      obtain rfl : low = Width.one.code := hone
      exact ⟨_, rest, hbody, .text tag found.1 hlimit, hsize⟩
  | array =>
    simp only at h
    split at h
    · cases h
    · cases h
      exact ⟨[], body, rfl, .start tag .array low hlow (Nat.lt_of_not_le ‹_›), rfl⟩
  | struct =>
    simp only at h
    split at h
    · cases h
    · cases h
      exact ⟨[], body, rfl, .start tag .struct low hlow (Nat.lt_of_not_le ‹_›), rfl⟩
  | stop => cases h

theorem spells_of_readItem {offset depth size : Nat} {bytes : Bytes} {item : Item}
    (h : readItem offset depth bytes = .ok (item, size)) :
    ∃ front rest, bytes = front ++ rest ∧ Spells depth front item ∧ size = front.length := by
  cases bytes with
  | nil => cases h
  | cons raw rest =>
    simp only [readItem] at h
    cases hc : Control.ofByte raw with
    | error e => rw [hc] at h; cases h
    | ok control =>
      obtain ⟨rfl, hlow⟩ := Control.toByte_of_ofByte hc
      simp only [hc, bind, Except.bind] at h
      split at h
      · rename_i hkind
        split at h
        · cases h
        · rename_i hstop
          split at h
          · cases h
          · cases h
            obtain ⟨kind, form, low⟩ := control
            simp only [ne_eq, not_or, not_not] at hstop hkind
            obtain ⟨rfl, rfl⟩ := hstop
            subst hkind
            exact ⟨_, rest, rfl, .stop (Nat.pos_of_ne_zero ‹_›), rfl⟩
      · split at h
        · cases h
        · rename_i hform
          simp only [ne_eq, not_not] at hform
          split at h
          · cases h
          · rename_i tag body
            cases ht : readTagged control.toByte control offset depth tag body with
            | error e => rw [ht] at h; cases h
            | ok found =>
              rw [ht] at h
              cases h
              obtain ⟨value, rest, rfl, hspells, hsize⟩ := readTagged_ok hform hlow ht
              refine ⟨_, rest, rfl, hspells, ?_⟩
              simp only [List.length_cons]
              omega

namespace Spells

variable {depth : Nat} {bytes : Bytes} {item : Item}

/-- The reader is content with every spelling, whatever stands behind it. -/
theorem readItem (h : Spells depth bytes item) (offset : Nat) (rest : Bytes) :
    Tlv.readItem offset depth (bytes ++ rest) = .ok (item, bytes.length) := by
  cases h with
  | unsigned tag width value hlength =>
    rw [List.cons_append, List.cons_append,
      readItem_tagged offset depth .unsigned tag _ (by decide) width.code_lt]
    simp only [readTagged, readWidth_code, takeBytes_append offset value rest hlength, bind,
      Except.bind, pure, Except.pure, Except.map, List.length_cons, hlength, Nat.add_comm 2]
  | signed tag width value hlength =>
    rw [List.cons_append, List.cons_append,
      readItem_tagged offset depth .signed tag _ (by decide) width.code_lt]
    simp only [readTagged, readWidth_code, takeBytes_append offset value rest hlength, bind,
      Except.bind, pure, Except.pure, Except.map, List.length_cons, hlength, Nat.add_comm 2]
  | boolean tag value => exact @readItem_toBytes depth (.boolean tag value) trivial offset rest
  | text tag s hlimit => exact @readItem_toBytes depth (.text tag s) hlimit offset rest
  | start tag container low hlow hdepth =>
    have hd : ¬ depthLimit ≤ depth := Nat.not_le_of_lt hdepth
    rw [List.cons_append, List.cons_append,
      readItem_tagged offset depth container.kind tag _ (by cases container <;> decide) hlow]
    cases container <;>
      simp only [readTagged, Container.kind, hd, if_false, Except.map, List.length_cons,
        List.length_nil]
  | stop hdepth => exact @readItem_toBytes depth .stop hdepth offset rest

theorem fits (h : Spells depth bytes item) : item.Fits depth := by
  cases h with
  | text tag s hlimit => exact hlimit
  | start tag container low hlow hdepth => exact hdepth
  | stop hdepth => exact hdepth
  | _ => trivial

/-- The written form is the shortest spelling. -/
theorem size_le (h : Spells depth bytes item) : item.size ≤ bytes.length := by
  cases h with
  | unsigned tag width value hlength =>
    have hvalue := Bytes.toNatLE_lt value
    rw [hlength] at hvalue
    have hnarrow := Width.ofUnsigned_le hvalue
    rw [Item.size_unsigned, List.length_cons, List.length_cons, hlength]
    omega
  | signed tag width value hlength =>
    have hnarrow := Width.ofSigned_le (signedOfBytes_bounds hlength)
    rw [Item.size_signed, List.length_cons, List.length_cons, hlength]
    omega
  | start tag container low hlow hdepth => exact Nat.le_refl 2
  | _ => exact Nat.le_refl _

end Spells

theorem readItem_ok_iff {offset depth size : Nat} {bytes : Bytes} {item : Item} :
    readItem offset depth bytes = .ok (item, size) ↔
      ∃ front rest, bytes = front ++ rest ∧ Spells depth front item ∧ size = front.length := by
  constructor
  · exact spells_of_readItem
  · rintro ⟨front, rest, rfl, hspells, rfl⟩
    exact hspells.readItem offset rest

end BurnerTelemetry.Tlv
