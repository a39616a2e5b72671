import BurnerTelemetry.Bytes

/-!
Text as bytes. Main statement: a byte string is the encoding of some text exactly when it decodes
to that text.
-/
namespace BurnerTelemetry.Text.Utf8

def encode (s : String) : Bytes := s.toByteArray.data.toList

/-- The text of a well-formed encoding; overlong forms and surrogates have none. -/
def decode? (bytes : Bytes) : Option String := String.fromUTF8? ⟨bytes.toArray⟩

theorem length_encode (s : String) : (encode s).length = s.utf8ByteSize := by
  rw [← String.size_toByteArray]
  rfl

theorem toArray_encode (s : String) : (⟨(encode s).toArray⟩ : ByteArray) = s.toByteArray := by
  simp [encode]

@[simp] theorem decode?_encode (s : String) : decode? (encode s) = some s := by
  rw [decode?, toArray_encode, String.fromUTF8?, dif_pos s.isValidUTF8]
  rfl

theorem eq_encode_of_decode? {bytes : Bytes} {s : String} (h : decode? bytes = some s) :
    bytes = encode s := by
  simp only [decode?, String.fromUTF8?] at h
  split at h
  · cases h
    simp [encode, String.fromUTF8]
  · cases h

theorem decode?_eq_some_iff {bytes : Bytes} {s : String} :
    decode? bytes = some s ↔ bytes = encode s :=
  ⟨eq_encode_of_decode?, fun h => h ▸ decode?_encode s⟩

end BurnerTelemetry.Text.Utf8
