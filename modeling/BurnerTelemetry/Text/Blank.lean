/-!
Blank space: the characters with the `White_Space` property, and text cut free of them at both
ends.
-/
namespace BurnerTelemetry.Text

/-- The `White_Space` property, twenty-five characters in all. -/
def isBlank (c : Char) : Bool :=
  let n := c.toNat
  (9 ≤ n && n ≤ 13) || n == 0x20 || n == 0x85 || n == 0xA0 || n == 0x1680 ||
    (0x2000 ≤ n && n ≤ 0x200A) || n == 0x2028 || n == 0x2029 || n == 0x202F ||
    n == 0x205F || n == 0x3000

/-- The text without the blanks in front of it and behind it. -/
def trim (s : List Char) : List Char :=
  ((s.dropWhile isBlank).reverse.dropWhile isBlank).reverse

@[simp] theorem trim_nil : trim [] = [] := rfl

theorem trim_eq_self {s : List Char} (h : s.all (fun c => !isBlank c) = true) : trim s = s := by
  have drop : ∀ t : List Char, t.all (fun c => !isBlank c) = true → t.dropWhile isBlank = t := by
    intro t ht
    cases t with
    | nil => rfl
    | cons c t => simp_all [List.dropWhile]
  rw [trim, drop s h, drop s.reverse (by simpa using h), List.reverse_reverse]

end BurnerTelemetry.Text
