import BurnerTelemetry.Bytes
import Mathlib.Algebra.Group.Nat.Defs
import Mathlib.Data.Nat.Find

/-!
Numbers and the bytes they are written in. Main statements: bytes written and read again give the
number modulo a power of 256, and no number that is read exceeds the number of its bytes. A word is made
of its two halves. A pair of bytes is found where it first stands, and bytes that follow do not
move it. The last pair is found where its first byte stands for the last time.
-/
namespace BurnerTelemetry.Bytes

theorem toNatLE_ofNatLE (count n : Nat) : toNatLE (ofNatLE count n) = n % 256 ^ count := by
  induction count generalizing n with
  | zero => simp [ofNatLE, toNatLE, Nat.mod_one]
  | succ count ih =>
    have h := Nat.mod_mul (x := n) (a := 256) (b := 256 ^ count)
    rw [Nat.pow_succ', h]
    simp [ofNatLE, toNatLE, ih]

/-- The first few of many bytes of a number are its few bytes. -/
theorem take_ofNatLE {few many : Nat} (h : few ≤ many) (n : Nat) :
    (ofNatLE many n).take few = ofNatLE few n := by
  induction few generalizing many n with
  | zero => rfl
  | succ few ih =>
    cases many with
    | zero => exact absurd h (Nat.not_succ_le_zero few)
    | succ many => rw [ofNatLE, List.take_succ_cons, ih (Nat.le_of_succ_le_succ h), ofNatLE]

theorem toNatLE_lt (bytes : Bytes) : toNatLE bytes < 256 ^ bytes.length := by
  induction bytes with
  | nil => decide
  | cons b rest ih =>
    have := b.toNat_lt
    simp only [toNatLE, List.length_cons, Nat.pow_succ']
    omega

theorem joinHalves_halves (w : UInt16) : joinHalves (highHalf w) (lowHalf w) = w := by
  have hw : w.toNat < 65536 := w.toNat_lt
  have hhigh : (w.toNat >>> 8 % 256) <<< 8 % 65536 = (w.toNat / 256) <<< 8 := by
    rw [Nat.shiftRight_eq_div_pow, Nat.shiftLeft_eq, Nat.shiftLeft_eq]
    omega
  have hlow : w.toNat % 256 < 2 ^ 8 := Nat.mod_lt _ (by decide)
  have hsum : (w.toNat / 256) <<< 8 ||| w.toNat % 256 = w.toNat := by
    rw [← Nat.shiftLeft_add_eq_or_of_lt hlow, Nat.shiftLeft_eq]
    omega
  apply UInt16.toNat_inj.1
  simp only [joinHalves, highHalf, lowHalf, UInt16.toNat_or, UInt16.toNat_shiftLeft,
    UInt8.toNat_toUInt16, UInt16.toNat_toUInt8, UInt16.toNat_shiftRight]
  exact (congrArg (fun n => n ||| w.toNat % 256) hhigh).trans hsum

theorem toNat_joinHalves (high low : UInt8) :
    (joinHalves high low).toNat = 256 * high.toNat + low.toNat := by
  have hhigh := high.toNat_lt
  have hlow := low.toNat_lt
  have hshift : high.toNat <<< 8 % 65536 = high.toNat <<< 8 := by
    rw [Nat.shiftLeft_eq]
    omega
  have hsum : high.toNat <<< 8 ||| low.toNat = 256 * high.toNat + low.toNat := by
    rw [← Nat.shiftLeft_add_eq_or_of_lt hlow, Nat.shiftLeft_eq]
    omega
  simp only [joinHalves, UInt16.toNat_or, UInt16.toNat_shiftLeft, UInt8.toNat_toUInt16]
  exact (congrArg (fun n => n ||| low.toNat) hshift).trans hsum

theorem halves_joinHalves (high low : UInt8) :
    highHalf (joinHalves high low) = high ∧ lowHalf (joinHalves high low) = low := by
  have hhigh := high.toNat_lt
  have hlow := low.toNat_lt
  constructor
  · apply UInt8.toNat_inj.1
    simp only [highHalf, UInt16.toNat_toUInt8, UInt16.toNat_shiftRight, toNat_joinHalves]
    change (256 * high.toNat + low.toNat) >>> 8 % 256 = high.toNat
    rw [Nat.shiftRight_eq_div_pow]
    omega
  · apply UInt8.toNat_inj.1
    simp only [lowHalf, UInt16.toNat_toUInt8, toNat_joinHalves]
    omega

/-- Whether something stands at an offset does not depend on the bytes behind it. -/
theorem isPrefix_drop_append {part bytes : Bytes} {i : Nat} (h : i + part.length ≤ bytes.length)
    (rest : Bytes) : part <+: (bytes ++ rest).drop i ↔ part <+: bytes.drop i := by
  rw [List.drop_append_of_le_length (by omega)]
  constructor
  · intro hpart
    refine List.prefix_of_prefix_length_le hpart (List.prefix_append _ _) ?_
    rw [List.length_drop]
    omega
  · exact fun hpart => hpart.trans (List.prefix_append _ _)

theorem add_length_le_of_isPrefix_drop {part bytes : Bytes} {i : Nat} (hpart : 0 < part.length)
    (h : part <+: bytes.drop i) : i + part.length ≤ bytes.length := by
  have := h.length_le
  rw [List.length_drop] at this
  omega

/-- The pair stands at the offset that is found and at none before it. -/
theorem pairIndex?_eq_some_iff {first second : UInt8} {bytes : Bytes} {i : Nat} :
    pairIndex? first second bytes = some i ↔
      [first, second] <+: bytes.drop i ∧ ∀ j < i, ¬ [first, second] <+: bytes.drop j := by
  fun_induction pairIndex? first second bytes generalizing i with
  | case1 a b rest hab =>
    obtain ⟨rfl, rfl⟩ := hab
    have hfront : [a, b] <+: a :: b :: rest := List.prefix_append [a, b] rest
    constructor
    · intro h
      cases h
      exact ⟨hfront, fun j hj => absurd hj (Nat.not_lt_zero j)⟩
    · rintro ⟨_, hfirst⟩
      cases i with
      | zero => rfl
      | succ i => exact absurd hfront (hfirst 0 (Nat.succ_pos i))
  | case2 a b rest hab ih =>
    have hfront : ¬ [first, second] <+: a :: b :: rest := by
      intro h
      obtain ⟨ha, htail⟩ := List.cons_prefix_cons.1 h
      exact hab ⟨ha.symm, (List.cons_prefix_cons.1 htail).1.symm⟩
    cases i with
    | zero =>
      constructor
      · simp
      · exact fun h => absurd h.1 hfront
    | succ i =>
      simp only [Option.map_eq_some_iff, Nat.add_right_cancel_iff, exists_eq_right, ih,
        List.drop_succ_cons]
      constructor
      · rintro ⟨hpair, hfirst⟩
        refine ⟨hpair, ?_⟩
        intro j hj
        cases j with
        | zero => exact hfront
        | succ j => exact hfirst j (Nat.lt_of_succ_lt_succ hj)
      · rintro ⟨hpair, hfirst⟩
        exact ⟨hpair, fun j hj => hfirst (j + 1) (Nat.succ_lt_succ hj)⟩
  | case3 bytes hshort =>
    constructor
    · simp
    · rintro ⟨hpair, _⟩
      have hlength : i + 2 ≤ bytes.length := add_length_le_of_isPrefix_drop (by simp) hpair
      match bytes with
      | [] => exact absurd hlength (by simp)
      | [_] => exact absurd hlength (by simp)
      | a :: b :: rest => exact absurd rfl (hshort a b rest)

/-- A pair that stands somewhere is found there or before. -/
theorem pairIndex?_le {first second : UInt8} {bytes : Bytes} {i : Nat}
    (h : [first, second] <+: bytes.drop i) : ∃ j ≤ i, pairIndex? first second bytes = some j := by
  have hsome : ∃ j, [first, second] <+: bytes.drop j := ⟨i, h⟩
  refine ⟨Nat.find hsome, Nat.find_min' hsome h, pairIndex?_eq_some_iff.2 ⟨Nat.find_spec hsome, ?_⟩⟩
  exact fun j hj => Nat.find_min hsome hj

theorem lastPairIndex?_of_not_mem {first second : UInt8} {bytes : Bytes} (h : first ∉ bytes) :
    lastPairIndex? first second bytes = none := by
  fun_induction lastPairIndex? first second bytes with
  | case1 a b rest i hi ih =>
    rw [ih (fun hmem => h (List.mem_cons_of_mem a hmem))] at hi
    cases hi
  | case2 a b rest _ hab => exact absurd (hab.1 ▸ List.mem_cons_self) h
  | case3 => rfl
  | case4 => rfl

/-- A pair whose first byte does not come again is the last one. -/
theorem lastPairIndex?_append {first second : UInt8} {rest : Bytes} (h : first ∉ second :: rest)
    (front : Bytes) :
    lastPairIndex? first second (front ++ first :: second :: rest) = some front.length := by
  induction front with
  | nil => simp [lastPairIndex?, lastPairIndex?_of_not_mem h]
  | cons b more ih =>
    cases more with
    | nil =>
      simp only [List.nil_append, List.cons_append] at ih ⊢
      rw [lastPairIndex?, ih]
      rfl
    | cons c more =>
      simp only [List.cons_append] at ih ⊢
      rw [lastPairIndex?, ih]
      rfl

end BurnerTelemetry.Bytes
