import BurnerTelemetry.Text.Blank
import BurnerTelemetry.Text.Fields
import BurnerTelemetry.Text.Numeral
import BurnerTelemetry.Text.Utf8
import Mathlib.Algebra.GroupWithZero.Nat
import Mathlib.Data.List.Basic
import Mathlib.Data.List.Induction

/-!
Plain text: ASCII characters as bytes, whole numbers in plain decimal, and fields that are taken
apart where they were joined. A number that was printed in plain decimal is read back, and text that
ends in ASCII bytes ends in the characters that these are.
-/
namespace BurnerTelemetry.Text

namespace Utf8

theorem encode_ofList (s : List Char) :
    encode (String.ofList s) = s.flatMap String.utf8EncodeChar := by
  simp [encode, List.utf8Encode]

theorem utf8EncodeChar_ascii {c : Char} (h : c.toNat < 128) :
    String.utf8EncodeChar c = [UInt8.ofNat c.toNat] := by
  have hc : c.val.toNat ≤ 0x7f := Nat.le_of_lt_succ h
  unfold String.utf8EncodeChar
  exact if_pos hc

/-- An ASCII character is one byte. -/
theorem encode_ascii {s : List Char} (h : ∀ c ∈ s, c.toNat < 128) :
    encode (String.ofList s) = s.map (fun c => UInt8.ofNat c.toNat) := by
  rw [encode_ofList]
  induction s with
  | nil => rfl
  | cons c rest ih =>
    rw [List.flatMap_cons, List.map_cons, utf8EncodeChar_ascii (h c List.mem_cons_self),
      ih (fun d hd => h d (List.mem_cons_of_mem c hd)), List.singleton_append]

/-- No character is written in no bytes. -/
theorem length_le_length_encode (s : String) : s.toList.length ≤ (encode s).length := by
  rw [← String.ofList_toList (s := s), encode_ofList, String.toList_ofList]
  induction s.toList with
  | nil => exact Nat.le_refl 0
  | cons c rest ih =>
    have := c.utf8Size_pos
    simp only [List.flatMap_cons, List.length_append, String.length_utf8EncodeChar,
      List.length_cons]
    omega

/-- A character with an ASCII byte in it is that byte. -/
theorem utf8EncodeChar_of_mem {c : Char} {b : UInt8} (h : b ∈ String.utf8EncodeChar c)
    (hb : b.toNat < 128) : String.utf8EncodeChar c = [b] ∧ c.toNat = b.toNat := by
  have high : ∀ n < 256, 128 ≤ n → b ≠ UInt8.ofNat n := by
    rintro n hlt hle rfl
    rw [UInt8.toNat_ofNat_of_lt' hlt] at hb
    omega
  unfold String.utf8EncodeChar at h ⊢
  simp only at h ⊢
  split at h
  · rename_i hc
    have hbyte : c.val.toNat < UInt8.size := Nat.lt_of_le_of_lt hc (by decide)
    rw [if_pos hc, List.mem_singleton.1 h, UInt8.toNat_ofNat_of_lt' hbyte]
    exact ⟨rfl, rfl⟩
  · -- the first byte of a longer form is 192 or more, those behind it 128 or more
    exfalso
    split at h
    · simp only [List.mem_cons, List.not_mem_nil, or_false] at h
      rcases h with h | h
      · exact high _ (by omega) (by omega) h
      · exact high _ (by omega) (by omega) h
    · split at h
      · simp only [List.mem_cons, List.not_mem_nil, or_false] at h
        rcases h with h | h | h
        · exact high _ (by omega) (by omega) h
        · exact high _ (by omega) (by omega) h
        · exact high _ (by omega) (by omega) h
      · simp only [List.mem_cons, List.not_mem_nil, or_false] at h
        rcases h with h | h | h | h
        · exact high _ (by omega) (by omega) h
        · exact high _ (by omega) (by omega) h
        · exact high _ (by omega) (by omega) h
        · exact high _ (by omega) (by omega) h

theorem utf8EncodeChar_ne_nil (c : Char) : String.utf8EncodeChar c ≠ [] := by
  have hpos := c.utf8Size_pos
  rw [← String.length_utf8EncodeChar] at hpos
  exact List.ne_nil_of_length_pos hpos

/-- Text that ends in ASCII bytes ends in the characters that these are. -/
theorem exists_append_of_flatMap {s back : List Char} {front : Bytes}
    (hback : ∀ c ∈ back, c.toNat < 128)
    (h : s.flatMap String.utf8EncodeChar = front ++ back.map (fun c => UInt8.ofNat c.toNat)) :
    ∃ t, s = t ++ back ∧ t.flatMap String.utf8EncodeChar = front := by
  induction back using List.reverseRecOn generalizing s with
  | nil => exact ⟨s, (List.append_nil s).symm, by simpa using h⟩
  | append_singleton back c ih =>
    have hc : c.toNat < 128 := hback c (by simp)
    have hbyte : (UInt8.ofNat c.toNat).toNat = c.toNat :=
      UInt8.toNat_ofNat_of_lt' (Nat.lt_trans hc (by decide))
    rw [List.map_append, List.map_singleton, ← List.append_assoc] at h
    rcases List.eq_nil_or_concat s with rfl | ⟨rest, last, rfl⟩
    · exact absurd h.symm (List.append_ne_nil_of_right_ne_nil _ (List.cons_ne_nil _ _))
    · rw [List.concat_eq_append, List.flatMap_append, List.flatMap_singleton] at h
      obtain ⟨bytes, b, hlast⟩ := (List.eq_nil_or_concat (String.utf8EncodeChar last)).resolve_left
        (utf8EncodeChar_ne_nil last)
      rw [List.concat_eq_append] at hlast
      have hb : b = UInt8.ofNat c.toNat := by
        rw [hlast, ← List.append_assoc] at h
        exact List.singleton_inj.1 (List.append_inj' h rfl).2
      have hmem : UInt8.ofNat c.toNat ∈ String.utf8EncodeChar last := by
        rw [hlast, ← hb]
        exact List.mem_append_right _ (List.mem_singleton.2 rfl)
      obtain ⟨hone, hnat⟩ := utf8EncodeChar_of_mem hmem (hbyte.symm ▸ hc)
      rw [hone] at h
      obtain ⟨t, rfl, ht⟩ := ih (fun d hd => hback d (List.mem_append_left _ hd))
        (List.append_inj' h rfl).1
      have hchar : last = c := Char.toNat_inj.1 (hnat.trans hbyte)
      exact ⟨t, by rw [hchar, List.concat_eq_append, List.append_assoc], ht⟩

end Utf8

namespace Numeral

theorem value_toDigits (n : Nat) : value (Nat.toDigits 10 n) = n :=
  Nat.ofDigitChars_ten_toDigits

theorem unsigned?_toDigits (n : Nat) : unsigned? (Nat.toDigits 10 n) = some n := by
  have hdigits : (Nat.toDigits 10 n).all Char.isDigit = true :=
    List.all_eq_true.2 (fun c hc => Nat.isDigit_of_mem_toDigits (by decide) (by decide) hc)
  rw [unsigned?, if_pos ⟨Nat.toDigits_ne_nil, hdigits⟩, value_toDigits]

/-- A row of digits starts with no sign. -/
theorem head_toDigits (n : Nat) :
    ∃ c rest, Nat.toDigits 10 n = c :: rest ∧ c.isDigit = true := by
  cases hd : Nat.toDigits 10 n with
  | nil => exact absurd hd Nat.toDigits_ne_nil
  | cons c rest =>
    have hc : c ∈ Nat.toDigits 10 n := by rw [hd]; exact List.mem_cons_self
    exact ⟨c, rest, rfl, Nat.isDigit_of_mem_toDigits (by decide) (by decide) hc⟩

/-- A whole number in plain decimal: no plus sign, no leading zeros. -/
def decimal : Int → List Char
  | .ofNat n => Nat.toDigits 10 n
  | .negSucc n => '-' :: Nat.toDigits 10 (n + 1)

theorem integer?_decimal (i : Int) : integer? (decimal i) = some i := by
  cases i with
  | ofNat n =>
    obtain ⟨c, rest, hd, hc⟩ := head_toDigits n
    have hminus : c ≠ '-' := by rintro rfl; exact absurd hc (by decide)
    have hplus : c ≠ '+' := by rintro rfl; exact absurd hc (by decide)
    have hread : unsigned? (c :: rest) = some n := by rw [← hd, unsigned?_toDigits]
    simp [decimal, hd, integer?, natural?, hminus, hplus, hread]
  | negSucc n =>
    simp only [decimal, integer?, unsigned?_toDigits]
    rfl

theorem integerWithin?_decimal {bound : Nat} {i : Int} (h : -(bound : Int) ≤ i ∧ i < bound) :
    integerWithin? bound (decimal i) = some i := by
  rw [integerWithin?, integer?_decimal, Option.filter_some, if_pos (by simpa using h)]

/-- The characters of a plain decimal. -/
def isDecimal (c : Char) : Bool := c.isDigit || c == '-'

theorem isDecimal_of_mem {i : Int} {c : Char} (h : c ∈ decimal i) : isDecimal c = true := by
  have digits : ∀ n : Nat, c ∈ Nat.toDigits 10 n → isDecimal c = true := by
    intro n hn
    rw [isDecimal, Nat.isDigit_of_mem_toDigits (by decide) (by decide) hn, Bool.true_or]
  cases i with
  | ofNat n => exact digits n h
  | negSucc n =>
    rcases List.mem_cons.1 h with rfl | h
    · rfl
    · exact digits _ h

theorem toNat_of_isDecimal {c : Char} (h : isDecimal c = true) : 45 ≤ c.toNat ∧ c.toNat ≤ 57 := by
  simp only [isDecimal, Bool.or_eq_true, beq_iff_eq] at h
  rcases h with h | rfl
  · have hc : '0'.toNat ≤ c.toNat ∧ c.toNat ≤ '9'.toNat := Char.isDigit_iff_toNat.1 h
    simp only [Char.reduceToNat] at hc
    omega
  · decide

/-- A plain decimal has no blanks. -/
theorem trim_decimal (i : Int) : trim (decimal i) = decimal i := by
  apply trim_eq_self
  rw [List.all_eq_true]
  intro c hc
  have := toNat_of_isDecimal (isDecimal_of_mem hc)
  simp only [isBlank, Bool.not_eq_eq_eq_not, Bool.not_true, Bool.or_eq_false_iff,
    Bool.and_eq_false_iff, decide_eq_false_iff_not, beq_eq_false_iff_ne]
  omega

theorem length_decimal_le {i : Int} (h : -100 < i ∧ i < 1000) : (decimal i).length ≤ 3 := by
  cases i with
  | ofNat n =>
    have hn : n < 1000 := by
      have := h.2
      simp only [Int.ofNat_eq_natCast] at this
      omega
    exact (Nat.length_toDigits_le_iff (by decide) (by decide)).2 hn
  | negSucc n =>
    have hn : n + 1 < 100 := by omega
    have := (Nat.length_toDigits_le_iff (b := 10) (k := 2) (by decide) (by decide)).2 hn
    simp only [decimal, List.length_cons]
    omega

/-- What is read without a sign is a row of digits. -/
theorem unsigned?_ok {s : List Char} {n : Nat} (h : unsigned? s = some n) :
    s ≠ [] ∧ (∀ c ∈ s, c.isDigit = true) ∧ value s = n := by
  unfold unsigned? at h
  split at h
  · rename_i hform
    exact ⟨hform.1, List.all_eq_true.1 hform.2, Option.some.inj h⟩
  · cases h

/-- A whole number has no characters but digits and signs. -/
theorem integer?_ok {s : List Char} {i : Int} (h : integer? s = some i) {c : Char} (hc : c ∈ s) :
    c.isDigit = true ∨ c = '+' ∨ c = '-' := by
  have signed : ∀ (sign : Char) (t : List Char) (n : Nat), unsigned? t = some n → c ∈ sign :: t →
      c.isDigit = true ∨ c = sign := by
    intro sign t n ht hmem
    rcases List.mem_cons.1 hmem with hsign | hdigit
    · exact .inr hsign
    · exact .inl ((unsigned?_ok ht).2.1 c hdigit)
  unfold integer? at h
  split at h
  · rename_i t
    cases ht : unsigned? t with
    | none =>
      rw [ht] at h
      cases h
    | some n => exact (signed '-' t n ht hc).imp_right .inr
  · cases hs : natural? s with
    | none =>
      rw [hs] at h
      cases h
    | some n =>
      unfold natural? at hs
      split at hs
      · exact (signed '+' _ n hs hc).imp_right .inl
      · exact .inl ((unsigned?_ok hs).2.1 c hc)

end Numeral

theorem mem_dropWhile {s : List Char} {c : Char} (h : c ∈ s) (hc : isBlank c = false) :
    c ∈ s.dropWhile isBlank := by
  induction s with
  | nil => exact absurd h List.not_mem_nil
  | cons d rest ih =>
    cases hd : isBlank d with
    | false =>
      rw [List.dropWhile_cons_of_neg (by simp [hd])]
      exact h
    | true =>
      rw [List.dropWhile_cons_of_pos hd]
      rcases List.mem_cons.1 h with rfl | h
      · rw [hc] at hd
        cases hd
      · exact ih h

/-- Only blanks are trimmed. -/
theorem mem_trim {s : List Char} {c : Char} (h : c ∈ s) (hc : isBlank c = false) : c ∈ trim s :=
  List.mem_reverse.2 (mem_dropWhile (List.mem_reverse.2 (mem_dropWhile h hc)) hc)

theorem splitAt_of_not_mem {sep : Char} {s : List Char} (h : sep ∉ s) : splitAt sep s = [s] := by
  induction s with
  | nil => rfl
  | cons c rest ih =>
    have hc : c ≠ sep := fun he => h (he ▸ List.mem_cons_self)
    rw [splitAt, if_neg hc, ih (fun hr => h (List.mem_cons_of_mem c hr))]

/-- The first separator ends the first field. -/
theorem splitAt_append {sep : Char} {field : List Char} (rest : List Char) (h : sep ∉ field) :
    splitAt sep (field ++ sep :: rest) = field :: splitAt sep rest := by
  induction field with
  | nil => simp [splitAt]
  | cons c more ih =>
    have hc : c ≠ sep := fun he => h (he ▸ List.mem_cons_self)
    rw [List.cons_append, splitAt, if_neg hc, ih (fun hr => h (List.mem_cons_of_mem c hr))]

theorem length_splitAt (sep : Char) (s : List Char) :
    (splitAt sep s).length = s.count sep + 1 := by
  induction s with
  | nil => rfl
  | cons c rest ih =>
    rw [splitAt]
    split
    · rename_i hc
      rw [List.length_cons, ih, hc, List.count_cons_self]
    · rename_i hc
      rw [List.count_cons_of_ne hc]
      split
      · rename_i hnil
        exact absurd hnil (splitAt_ne_nil sep rest)
      · rename_i hcons
        rw [hcons] at ih
        exact ih

/-- The fields and the separators between them make up the text. -/
theorem sum_length_splitAt (sep : Char) (s : List Char) :
    ((splitAt sep s).map (fun field => field.length + 1)).sum = s.length + 1 := by
  induction s with
  | nil => rfl
  | cons c rest ih =>
    simp only [splitAt]
    split
    · simp only [List.map_cons, List.sum_cons, ih, List.length_nil, List.length_cons]
      omega
    · cases hs : splitAt sep rest with
      | nil => exact absurd hs (splitAt_ne_nil sep rest)
      | cons first more =>
        rw [hs] at ih
        simp only [List.map_cons, List.sum_cons, List.length_cons] at ih ⊢
        omega

end BurnerTelemetry.Text
