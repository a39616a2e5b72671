import BurnerTelemetry.Proofs.Wire.Accounting
import BurnerTelemetry.Proofs.Wire.Status

/-!
A good line behind something else. Where no line feed comes between them the two are one line, and
that line is never good: its first field would have a colon in its number, or there would be a
fourth field. The last `F:` of such a line is where the good line starts.
-/
namespace BurnerTelemetry.Wire.StatusLine

section Text

variable {flame fan temperature : Int}

/-- Whatever stands in front of the text goes into its first field or makes more fields. -/
theorem numbers_behind {front : List Char} {values : Int × Int × Int}
    (h : numbers (front ++ text flame fan temperature) = .ok values) : front = [] := by
  obtain ⟨first, second, third, hfields, hflame, _, _⟩ := numbers_ok h
  have hcomma : ',' ∉ front := by
    have hall := Text.length_splitAt ',' (front ++ text flame fan temperature)
    have hown := Text.length_splitAt ',' (text flame fan temperature)
    rw [hfields, List.count_append] at hall
    rw [splitAt_text] at hown
    simp only [List.length_cons, List.length_nil] at hall hown
    exact List.count_eq_zero.1 (by omega)
  have hfirst : front ++ 'F' :: ':' :: Text.Numeral.decimal flame = first := by
    have hfield : ',' ∉ front ++ 'F' :: ':' :: Text.Numeral.decimal flame := by
      rw [List.mem_append]
      exact not_or_intro hcomma (not_mem_field (by decide) flame)
    rw [text, ← List.append_assoc, Text.splitAt_append _ hfield] at hfields
    exact (List.cons.inj hfields).1
  obtain ⟨number, rfl, hvalue⟩ := fieldValue_ok hflame
  -- with anything in front, the colon of the text comes after that of the field
  rcases front with _ | ⟨c, _ | ⟨d, more⟩⟩
  · rfl
  · exact absurd (List.cons.inj (List.cons.inj hfirst).2).1 (by decide)
  · have hnumber : more ++ 'F' :: ':' :: Text.Numeral.decimal flame = number :=
      (List.cons.inj (List.cons.inj hfirst).2).2
    have hcolon : ':' ∈ Text.trim number := Text.mem_trim (by simp [← hnumber]) rfl
    exact absurd (Text.Numeral.integer?_ok hvalue hcolon) (by decide)

theorem ofLine_behind {front : Bytes} {r : Reading}
    (h : ofLine (front ++ Text.Utf8.encode (String.ofList (text flame fan temperature))) = .ok r) :
    front = [] := by
  unfold ofLine at h
  split at h
  · cases h
  · rename_i s hs
    split at h
    · cases h
    · rename_i hnumbers
      have hbytes := Text.Utf8.eq_encode_of_decode? hs
      rw [encode_text, ← String.ofList_toList (s := s), Text.Utf8.encode_ofList]
        at hbytes
      obtain ⟨chars, hchars, hfront⟩ :=
        Text.Utf8.exists_append_of_flatMap (ascii_text flame fan temperature) hbytes.symm
      rw [hchars] at hnumbers
      rw [← hfront, numbers_behind hnumbers, List.flatMap_nil]

end Text

/-- The bytes of a line in front of its line feed. -/
def unended (flame fan temperature : Int) (hasReturn : Bool) : Bytes :=
  Text.Utf8.encode (String.ofList (text flame fan temperature)) ++ optionalReturn hasReturn

section Behind

variable {flame fan temperature : Int} {hasReturn : Bool} {front : Bytes} {start stop : Nat}

theorem unended_start (flame fan temperature : Int) (hasReturn : Bool) :
    ∃ rest, unended flame fan temperature hasReturn = 70 :: 58 :: rest ∧ 70 ∉ rest := by
  obtain ⟨rest, hrest, hletter⟩ := encode_text_start flame fan temperature
  refine ⟨rest ++ optionalReturn hasReturn, by rw [unended, hrest]; rfl, ?_⟩
  rw [List.mem_append]
  exact not_or_intro hletter (by cases hasReturn <;> decide)

theorem lineFeed_not_mem_unended : lineFeed ∉ unended flame fan temperature hasReturn :=
  fun hmem => absurd (toNat_of_mem_front hmem).1 (by decide)

theorem endMark_not_mem_unended : Frame.endMark ∉ unended flame fan temperature hasReturn :=
  fun hmem => absurd (toNat_of_mem_front hmem).2 (by decide)

theorem pair_behind (flame fan temperature : Int) (hasReturn : Bool) (front : Bytes) :
    [70, 58] <+:
      (front ++ (unended flame fan temperature hasReturn ++ [lineFeed])).drop front.length := by
  obtain ⟨rest, hrest, _⟩ := unended_start flame fan temperature hasReturn
  rw [List.drop_left, hrest]
  exact List.prefix_append [70, 58] _

theorem exists_firstLine_behind (flame fan temperature : Int) (hasReturn : Bool) (front : Bytes) :
    ∃ start stop,
      FirstLine (front ++ (unended flame fan temperature hasReturn ++ [lineFeed])) start stop :=
  exists_firstLine (pair_behind flame fan temperature hasReturn front)
    (by rw [List.drop_left]; simp)

/-- The line that is looked at is over before the good line starts, or ends with it. -/
theorem firstLine_behind
    (h : FirstLine (front ++ (unended flame fan temperature hasReturn ++ [lineFeed])) start stop) :
    start ≤ front.length ∧ (stop < front.length ∨
      stop = front.length + (unended flame fan temperature hasReturn).length) := by
  constructor
  · exact h.start_le (pair_behind flame fan temperature hasReturn front)
  · obtain ⟨_, hbyte, _⟩ := endIndex?_eq_some_iff.1 h.2
    have hlt := h.bounds.2
    simp only [List.length_append, List.length_singleton] at hlt
    by_contra hinside
    rw [List.getElem?_append_right (by omega), List.getElem?_append_left (by omega)] at hbyte
    exact lineFeed_not_mem_unended (List.mem_of_getElem? hbyte)

/-- The carriage return of the good line is taken off, whatever stands in front of the line. -/
theorem between_behind (hstart : start ≤ front.length) :
    between (front ++ (unended flame fan temperature hasReturn ++ [lineFeed])) start
      (front.length + (unended flame fan temperature hasReturn).length) =
        front.drop start ++ Text.Utf8.encode (String.ofList (text flame fan temperature)) := by
  have hlast : (front.drop start ++ Text.Utf8.encode (String.ofList
      (text flame fan temperature))).getLast? ≠ some carriageReturn := by
    intro he
    obtain ⟨rest, hrest, _⟩ := encode_text_start flame fan temperature
    rw [List.getLast?_append_of_ne_nil _ (hrest ▸ List.cons_ne_nil _ _)] at he
    exact absurd (toNat_of_mem_encode_text (List.mem_of_getLast? he)).1 (by decide)
  obtain ⟨gone, more, rfl, rfl⟩ : ∃ gone more, gone ++ more = front ∧ gone.length = start :=
    ⟨front.take start, front.drop start, List.take_append_drop start front,
      List.length_take_of_le hstart⟩
  have hline := between_front hlast hasReturn []
  rw [List.drop_left, List.append_nil, List.append_assoc] at hline
  rw [List.drop_left, List.append_assoc, ← List.append_assoc more, List.length_append,
    Nat.add_assoc, ← List.length_append, between_middle]
  exact hline

end Behind

end BurnerTelemetry.Wire.StatusLine
