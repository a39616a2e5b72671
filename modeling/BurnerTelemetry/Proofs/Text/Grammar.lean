import BurnerTelemetry.Proofs.Text.Plain
import Mathlib.Data.List.TakeWhile

/-!
What the readers of text accept, said without them. A numeral is an optional sign and at least one
digit. Trimming takes off blanks and nothing else. Text is taken apart into the fields that hold no
separator and that the separator joins to that text.
-/
namespace BurnerTelemetry.Text

namespace Numeral

/-- At least one digit, and the number that the digits write in base ten. -/
def Row (s : List Char) (n : Nat) : Prop :=
  s ≠ [] ∧ (∀ c ∈ s, c.isDigit = true) ∧ Nat.ofDigitChars 10 s 0 = n

/-- A row of digits, which may have a sign in front, and the number that this is. -/
inductive Denotes : List Char → Int → Prop where
  | unsigned {s : List Char} {n : Nat} (h : Row s n) : Denotes s n
  | plus {s : List Char} {n : Nat} (h : Row s n) : Denotes ('+' :: s) n
  | minus {s : List Char} {n : Nat} (h : Row s n) : Denotes ('-' :: s) (-n)

theorem unsigned?_eq_some_iff {s : List Char} {n : Nat} : unsigned? s = some n ↔ Row s n := by
  constructor
  · exact unsigned?_ok
  · rintro ⟨hne, hdigits, hvalue⟩
    rw [unsigned?, if_pos ⟨hne, List.all_eq_true.2 hdigits⟩]
    exact congrArg some hvalue

/-- No row of digits starts with a sign. -/
theorem not_row_of_sign {sign : Char} (hsign : sign.isDigit = false) (s : List Char) (n : Nat) :
    ¬ Row (sign :: s) n := by
  intro h
  rw [h.2.1 sign List.mem_cons_self] at hsign
  cases hsign

theorem natural?_eq_some_iff {s : List Char} {n : Nat} :
    natural? s = some n ↔ Row s n ∨ ∃ t, s = '+' :: t ∧ Row t n := by
  unfold natural?
  split
  · rename_i t
    rw [unsigned?_eq_some_iff]
    constructor
    · exact fun h => .inr ⟨t, rfl, h⟩
    · rintro (h | ⟨_, heq, h⟩)
      · exact absurd h (not_row_of_sign (by decide) t n)
      · cases heq
        exact h
  · rename_i hplus
    rw [unsigned?_eq_some_iff]
    constructor
    · exact .inl
    · rintro (h | ⟨t, rfl, _⟩)
      · exact h
      · exact absurd rfl (hplus t)

/-- The reader accepts the numerals, and reads what they denote. -/
theorem integer?_eq_some_iff {s : List Char} {i : Int} : integer? s = some i ↔ Denotes s i := by
  unfold integer?
  split
  · rename_i t
    simp only [Option.map_eq_some_iff, bind, Option.bind_eq_some_iff, pure, Option.some.injEq,
      unsigned?_eq_some_iff]
    constructor
    · rintro ⟨_, ⟨n, h, rfl⟩, rfl⟩
      exact .minus h
    · intro h
      cases h with
      | unsigned h => exact absurd h (not_row_of_sign (by decide) t _)
      | minus h => exact ⟨_, ⟨_, h, rfl⟩, rfl⟩
  · rename_i hminus
    simp only [Option.map_eq_some_iff, bind, Option.bind_eq_some_iff, pure, Option.some.injEq,
      natural?_eq_some_iff]
    constructor
    · rintro ⟨_, ⟨n, h | ⟨t, rfl, h⟩, rfl⟩, rfl⟩
      · exact .unsigned h
      · exact .plus h
    · intro h
      cases h with
      | unsigned h => exact ⟨_, ⟨_, .inl h, rfl⟩, rfl⟩
      | plus h => exact ⟨_, ⟨_, .inr ⟨_, rfl, h⟩, rfl⟩, rfl⟩
      | minus h => exact absurd rfl (hminus _)

theorem integerWithin?_eq_some_iff {bound : Nat} {s : List Char} {i : Int} :
    integerWithin? bound s = some i ↔ Denotes s i ∧ -(bound : Int) ≤ i ∧ i < bound := by
  rw [integerWithin?, Option.filter_eq_some_iff, integer?_eq_some_iff, decide_eq_true_iff]

/-- A numeral has characters, and none of them is blank. -/
theorem Denotes.solid {s : List Char} {i : Int} (h : Denotes s i) :
    s.all (fun c => !isBlank c) = true := by
  have hsolid : ∀ c : Char, c.isDigit = true ∨ c = '+' ∨ c = '-' → isBlank c = false := by
    rintro c (hdigit | rfl | rfl)
    · have hc : '0'.toNat ≤ c.toNat ∧ c.toNat ≤ '9'.toNat := Char.isDigit_iff_toNat.1 hdigit
      simp only [Char.reduceToNat] at hc
      simp only [isBlank, Bool.or_eq_false_iff, Bool.and_eq_false_iff, decide_eq_false_iff_not,
        beq_eq_false_iff_ne]
      omega
    · decide
    · decide
  rw [List.all_eq_true]
  intro c hc
  rw [hsolid c (integer?_ok (integer?_eq_some_iff.2 h) hc), Bool.not_false]

end Numeral

/-- Blanks around text without any are taken off. -/
theorem trim_append {front core back : List Char} (hfront : ∀ c ∈ front, isBlank c = true)
    (hcore : core.all (fun c => !isBlank c) = true) (hback : ∀ c ∈ back, isBlank c = true) :
    trim (front ++ (core ++ back)) = core := by
  have hreverse : ∀ c ∈ back.reverse, isBlank c = true := fun c hc =>
    hback c (List.mem_reverse.1 hc)
  rw [trim, List.dropWhile_append_of_pos hfront]
  cases core with
  | nil =>
    have hgone : ([] ++ back).dropWhile isBlank = [] := List.dropWhile_eq_nil_iff.2 hback
    rw [hgone]
    rfl
  | cons c rest =>
    have hc : isBlank c = false := by
      simpa using List.all_eq_true.1 hcore c List.mem_cons_self
    have hkept := trim_eq_self hcore
    rw [trim, List.dropWhile_cons_of_neg (by simp [hc])] at hkept
    rw [List.cons_append, List.dropWhile_cons_of_neg (by simp [hc]), ← List.cons_append,
      List.reverse_append, List.dropWhile_append_of_pos hreverse]
    exact hkept

/-- Only blanks are taken off. -/
theorem exists_append_trim (s : List Char) : ∃ front back, s = front ++ (trim s ++ back) ∧
    (∀ c ∈ front, isBlank c = true) ∧ ∀ c ∈ back, isBlank c = true := by
  have hends : ∀ (t : List Char), ∀ c ∈ t.takeWhile isBlank, isBlank c = true :=
    fun t c hc => List.mem_takeWhile_imp hc
  refine ⟨s.takeWhile isBlank, ((s.dropWhile isBlank).reverse.takeWhile isBlank).reverse, ?_,
    hends s, fun c hc => hends _ c (List.mem_reverse.1 hc)⟩
  rw [trim, ← List.reverse_append, List.takeWhile_append_dropWhile, List.reverse_reverse,
    List.takeWhile_append_dropWhile]

theorem not_mem_of_mem_splitAt {sep : Char} {s field : List Char} (h : field ∈ splitAt sep s) :
    sep ∉ field := by
  induction s generalizing field with
  | nil =>
    rw [splitAt, List.mem_singleton] at h
    rw [h]
    exact List.not_mem_nil
  | cons c rest ih =>
    rw [splitAt] at h
    split at h
    · rcases List.mem_cons.1 h with rfl | hrest
      · exact List.not_mem_nil
      · exact ih hrest
    · rename_i hc
      split at h
      · rw [List.mem_singleton.1 h, List.mem_singleton]
        exact fun he => hc he.symm
      · rename_i first more hsplit
        rcases List.mem_cons.1 h with rfl | hmore
        · rw [List.mem_cons]
          exact not_or_intro (fun he => hc he.symm) (ih (hsplit ▸ List.mem_cons_self))
        · exact ih (hsplit ▸ List.mem_cons_of_mem first hmore)

/-- There is one way to take text apart. -/
theorem splitAt_eq_iff {sep : Char} {s : List Char} {fields : List (List Char)} :
    splitAt sep s = fields ↔
      fields ≠ [] ∧ (∀ field ∈ fields, sep ∉ field) ∧ [sep].intercalate fields = s := by
  constructor
  · rintro rfl
    exact ⟨splitAt_ne_nil sep s, fun field h => not_mem_of_mem_splitAt h, intercalate_splitAt sep s⟩
  · rintro ⟨hne, hfields, rfl⟩
    induction fields with
    | nil => exact absurd rfl hne
    | cons field rest ih =>
      have hfield : sep ∉ field := hfields field List.mem_cons_self
      cases rest with
      | nil => rw [List.intercalate_singleton, splitAt_of_not_mem hfield]
      | cons next more =>
        have hrest := ih (List.cons_ne_nil next more)
          (fun other h => hfields other (List.mem_cons_of_mem field h))
        rw [List.intercalate_cons_cons, List.append_assoc, List.singleton_append,
          splitAt_append _ hfield, hrest]

end BurnerTelemetry.Text
