import BurnerTelemetry.Proofs.Text.Plain
import BurnerTelemetry.Text.DottedQuad

/-!
The written form of an address. A row of digits without a leading zero is the plain decimal of its
value, so an address is read from its written form and from no other text.
-/
namespace BurnerTelemetry.Text

namespace Numeral

theorem digitChar_digitValue {c : Char} (h : c.isDigit = true) :
    (digitValue c).digitChar = c ∧ digitValue c < 10 := by
  have hc : 48 ≤ c.toNat ∧ c.toNat ≤ 57 := Char.isDigit_iff_toNat.1 h
  have hten : ∀ n < 10, n.digitChar = Char.ofNat (48 + n) := by decide
  have hlt : c.toNat - 48 < 10 := by omega
  refine ⟨?_, hlt⟩
  change (c.toNat - 48).digitChar = c
  rw [hten _ hlt, Nat.add_sub_cancel' hc.1, Char.ofNat_toNat]

/-- Digits behind a number that is not zero continue its decimal. -/
theorem toDigits_append {n : Nat} (hn : 0 < n) {digits : List Char}
    (h : ∀ c ∈ digits, c.isDigit = true) :
    Nat.toDigits 10 n ++ digits =
      Nat.toDigits 10 (digits.foldl (fun n c => 10 * n + digitValue c) n) := by
  induction digits generalizing n with
  | nil => rw [List.append_nil, List.foldl_nil]
  | cons c rest ih =>
    obtain ⟨hchar, hlt⟩ := digitChar_digitValue (h c List.mem_cons_self)
    have hfirst : Nat.toDigits 10 n ++ [c] = Nat.toDigits 10 (10 * n + digitValue c) := by
      rw [← Nat.toDigits_append_toDigits (by decide) hn hlt, Nat.toDigits_of_lt_base hlt, hchar]
    rw [List.append_cons, hfirst, List.foldl_cons]
    exact ih (by omega) (fun d hd => h d (List.mem_cons_of_mem c hd))

/-- A row of digits without a leading zero is the decimal of its value. -/
theorem toDigits_value {digits : List Char} (h : ∀ c ∈ digits, c.isDigit = true)
    (hne : digits ≠ []) (hzero : digits.length = 1 ∨ digits.head? ≠ some '0') :
    Nat.toDigits 10 (value digits) = digits := by
  cases digits with
  | nil => exact absurd rfl hne
  | cons c rest =>
    obtain ⟨hchar, hlt⟩ := digitChar_digitValue (h c List.mem_cons_self)
    have hrest : ∀ d ∈ rest, d.isDigit = true := fun d hd => h d (List.mem_cons_of_mem c hd)
    have hvalue : value (c :: rest) =
        rest.foldl (fun n c => 10 * n + digitValue c) (digitValue c) := by
      rw [value, List.foldl_cons, Nat.mul_zero, Nat.zero_add]
    have hfirst : Nat.toDigits 10 (digitValue c) = [c] := by
      rw [Nat.toDigits_of_lt_base hlt, hchar]
    rw [hvalue]
    by_cases hpos : 0 < digitValue c
    · rw [← toDigits_append hpos hrest, hfirst, List.singleton_append]
    · have hc : c = '0' := by
        rw [← hchar, Nat.eq_zero_of_not_pos hpos]
        rfl
      have hnil : rest = [] := by
        rcases hzero with hone | hhead
        · exact List.eq_nil_of_length_eq_zero (Nat.succ.inj hone)
        · exact absurd (congrArg some hc) hhead
      subst hnil
      exact hfirst

/-- The decimal of a number that is not zero has no leading zero. -/
theorem head_toDigits_ne_zero {n : Nat} (hn : 0 < n) : (Nat.toDigits 10 n).head? ≠ some '0' := by
  induction n using Nat.strongRecOn with
  | ind n ih =>
    by_cases hsmall : n < 10
    · have hten : ∀ m < 10, 0 < m → [m.digitChar].head? ≠ some '0' := by decide
      rw [Nat.toDigits_of_lt_base hsmall]
      exact hten n hsmall hn
    · rw [Nat.toDigits_of_base_le (by decide) (Nat.le_of_not_lt hsmall),
        List.head?_append_of_ne_nil _ Nat.toDigits_ne_nil]
      exact ih (n / 10) (by omega) (by omega)

end Numeral

namespace DottedQuad

open Numeral (toDigits_value head_toDigits_ne_zero)

/-- The decimal of a byte. -/
def digits (b : UInt8) : List Char := Nat.toDigits 10 b.toNat

theorem dot_not_mem_digits (b : UInt8) : '.' ∉ digits b := by
  intro h
  exact absurd (Nat.isDigit_of_mem_toDigits (by decide) (by decide) h) (by decide)

/-- A byte is read from its decimal and from no other text. -/
theorem byte?_eq_some_iff {s : List Char} {b : UInt8} : byte? s = some b ↔ s = digits b := by
  constructor
  · intro h
    unfold byte? at h
    split at h
    · rename_i hform
      split at h
      · rename_i n hn
        obtain ⟨hne, hdigits, rfl⟩ := Numeral.unsigned?_ok hn
        split at h
        · rename_i hlt
          cases h
          rw [digits, UInt8.toNat_ofNat_of_lt' hlt]
          exact (toDigits_value hdigits hne hform.2).symm
        · cases h
      · cases h
    · cases h
  · rintro rfl
    have hlength : (digits b).length ≤ 3 :=
      (Nat.length_toDigits_le_iff (by decide) (by decide)).2 (Nat.lt_trans b.toNat_lt (by decide))
    have hzero : (digits b).length = 1 ∨ (digits b).head? ≠ some '0' := by
      by_cases hpos : 0 < b.toNat
      · exact .inr (head_toDigits_ne_zero hpos)
      · rw [digits, Nat.eq_zero_of_not_pos hpos]
        exact .inl rfl
    rw [byte?, if_pos ⟨hlength, hzero⟩, digits, Numeral.unsigned?_toDigits]
    simp [b.toNat_lt]

theorem toList_render (q : DottedQuad) :
    q.render.toList =
      digits q.a ++ '.' :: (digits q.b ++ '.' :: (digits q.c ++ '.' :: digits q.d)) := by
  have hdot : (toString ".").toList = ['.'] := rfl
  simp [render, digits, hdot]

/-- An address is read from its written form and from no other text. -/
theorem ofChars?_eq_some_iff {s : List Char} {q : DottedQuad} :
    ofChars? s = some q ↔ s = q.render.toList := by
  constructor
  · intro h
    unfold ofChars? at h
    split at h
    · rename_i a b c d hparts
      cases h
      obtain ⟨_, _, hsplit, ha, hparts⟩ := List.map_eq_cons_iff.1 hparts
      obtain ⟨_, _, rfl, hb, hparts⟩ := List.map_eq_cons_iff.1 hparts
      obtain ⟨_, _, rfl, hc, hparts⟩ := List.map_eq_cons_iff.1 hparts
      obtain ⟨_, _, rfl, hd, hparts⟩ := List.map_eq_cons_iff.1 hparts
      rw [List.map_eq_nil_iff.1 hparts, byte?_eq_some_iff.1 ha, byte?_eq_some_iff.1 hb,
        byte?_eq_some_iff.1 hc, byte?_eq_some_iff.1 hd] at hsplit
      rw [← intercalate_splitAt '.' s, hsplit, toList_render]
      simp [List.intercalate]
    · cases h
  · rintro rfl
    have hparts : splitAt '.' q.render.toList =
        [digits q.a, digits q.b, digits q.c, digits q.d] := by
      rw [toList_render, splitAt_append _ (dot_not_mem_digits _),
        splitAt_append _ (dot_not_mem_digits _), splitAt_append _ (dot_not_mem_digits _),
        splitAt_of_not_mem (dot_not_mem_digits _)]
    simp only [ofChars?, hparts, List.map_cons, List.map_nil, byte?_eq_some_iff.2 rfl]

end DottedQuad

end BurnerTelemetry.Text
