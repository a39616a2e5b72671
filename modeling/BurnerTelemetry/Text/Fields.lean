/-!
Text between separators. Main statement: joining the fields with the separator gives the text
back.
-/
namespace BurnerTelemetry.Text

/-- The pieces of the text between one separator and the next; a text without it is one piece. -/
def splitAt (sep : Char) : List Char → List (List Char)
  | [] => [[]]
  | c :: rest =>
    if c = sep then [] :: splitAt sep rest
    else
      match splitAt sep rest with
      | [] => [[c]]
      | first :: more => (c :: first) :: more

theorem splitAt_ne_nil (sep : Char) (s : List Char) : splitAt sep s ≠ [] := by
  cases s with
  | nil => simp [splitAt]
  | cons c rest =>
    simp only [splitAt]
    split
    · simp
    · split <;> simp

theorem intercalate_splitAt (sep : Char) (s : List Char) :
    [sep].intercalate (splitAt sep s) = s := by
  induction s with
  | nil => rfl
  | cons c rest ih =>
    simp only [splitAt]
    cases hs : splitAt sep rest with
    | nil => exact absurd hs (splitAt_ne_nil sep rest)
    | cons first more =>
      rw [hs] at ih
      split
      · rename_i hc
        rw [List.intercalate, List.intersperse_cons_cons, List.flatten_cons, List.flatten_cons]
        simpa [List.intercalate, hc] using ih
      · cases more with
        | nil => simpa [List.intercalate] using ih
        | cons second more => simpa [List.intercalate] using ih

end BurnerTelemetry.Text
