import BurnerTelemetry.Proofs.Text.Plain
import BurnerTelemetry.Wire.Message

/-!
Status lines in plain decimal. Such a line at the front of some bytes is found there, whatever
follows it; without its line feed it is unterminated. No line is as short as a frame.
-/
namespace BurnerTelemetry.Wire

theorem Quantity.check_ok {quantity : Quantity} {low high value : Int} (hlow : low ≤ value)
    (hhigh : value ≤ high) : quantity.check low high value = .ok () :=
  if_pos ⟨hlow, hhigh⟩

namespace StatusLine

/-- The text of a line without its end. -/
def text (flame fan temperature : Int) : List Char :=
  'F' :: ':' :: Text.Numeral.decimal flame ++ ',' ::
    ('S' :: ':' :: Text.Numeral.decimal fan ++ ',' ::
      ('T' :: ':' :: Text.Numeral.decimal temperature))

/-- The carriage return of a line, which may be left out. -/
def optionalReturn (hasReturn : Bool) : Bytes := if hasReturn then [carriageReturn] else []

theorem toNat_of_mem_text {flame fan temperature : Int} {c : Char}
    (h : c ∈ text flame fan temperature) : 44 ≤ c.toNat ∧ c.toNat ≤ 84 := by
  have number : ∀ i : Int, c ∈ Text.Numeral.decimal i → 44 ≤ c.toNat ∧ c.toNat ≤ 84 := by
    intro i hi
    have := Text.Numeral.toNat_of_isDecimal (Text.Numeral.isDecimal_of_mem hi)
    omega
  simp only [text, List.cons_append, List.mem_cons, List.mem_append] at h
  rcases h with rfl | rfl | h | rfl | rfl | rfl | h | rfl | rfl | rfl | h
  · decide
  · decide
  · exact number _ h
  · decide
  · decide
  · decide
  · exact number _ h
  · decide
  · decide
  · decide
  · exact number _ h

theorem ascii_text (flame fan temperature : Int) :
    ∀ c ∈ text flame fan temperature, c.toNat < 128 := by
  intro c hc
  have := toNat_of_mem_text hc
  omega

/-- Every character of the text is one byte. -/
theorem encode_text (flame fan temperature : Int) :
    Text.Utf8.encode (String.ofList (text flame fan temperature)) =
      (text flame fan temperature).map (fun c => UInt8.ofNat c.toNat) :=
  Text.Utf8.encode_ascii (ascii_text flame fan temperature)

/-- The bytes of the text lie between the comma and the letter T. -/
theorem toNat_of_mem_encode_text {flame fan temperature : Int} {b : UInt8}
    (h : b ∈ Text.Utf8.encode (String.ofList (text flame fan temperature))) :
    44 ≤ b.toNat ∧ b.toNat ≤ 84 := by
  rw [encode_text, List.mem_map] at h
  obtain ⟨c, hc, rfl⟩ := h
  have hbounds := toNat_of_mem_text hc
  have hmod : (UInt8.ofNat c.toNat).toNat = c.toNat := UInt8.toNat_ofNat_of_lt' (by
    simp only [UInt8.size]
    omega)
  rw [hmod]
  exact hbounds

/-- The bytes in front of the line feed lie between the carriage return and the letter T. -/
theorem toNat_of_mem_front {flame fan temperature : Int} {hasReturn : Bool} {b : UInt8}
    (h : b ∈ Text.Utf8.encode (String.ofList (text flame fan temperature)) ++
      optionalReturn hasReturn) : 13 ≤ b.toNat ∧ b.toNat ≤ 84 := by
  rcases List.mem_append.1 h with h | h
  · have := toNat_of_mem_encode_text h
    omega
  · cases hasReturn
    · exact absurd h List.not_mem_nil
    · rw [List.mem_singleton.1 h]
      decide

/-- The letter F stands at the front of the text and nowhere else. -/
theorem encode_text_start (flame fan temperature : Int) :
    ∃ rest, Text.Utf8.encode (String.ofList (text flame fan temperature)) = 70 :: 58 :: rest ∧
      70 ∉ rest := by
  have hdecimal : ∀ i : Int, 'F' ∉ Text.Numeral.decimal i :=
    fun i hi => absurd (Text.Numeral.isDecimal_of_mem hi) (by decide)
  have hletter : 'F' ∉ (text flame fan temperature).tail := by
    simp [text, hdecimal]
  rw [encode_text]
  refine ⟨(text flame fan temperature).tail.tail.map (fun c => UInt8.ofNat c.toNat), rfl, ?_⟩
  intro hmem
  obtain ⟨c, hc, hbyte⟩ := List.mem_map.1 hmem
  have hmore : c ∈ (text flame fan temperature).tail := List.mem_of_mem_tail hc
  have hlow := toNat_of_mem_text (List.mem_of_mem_tail hmore)
  have hcode : c.toNat = 'F'.toNat := by
    have hmod := congrArg UInt8.toNat hbyte
    rwa [UInt8.toNat_ofNat_of_lt' (by simp only [UInt8.size]; omega)] at hmod
  exact hletter (Char.toNat_inj.1 hcode ▸ hmore)

theorem length_text_le {flame fan temperature : Int} (hflame : 0 ≤ flame ∧ flame ≤ 1)
    (hfan : 0 ≤ fan ∧ fan ≤ 100) (htemp : -50 ≤ temperature ∧ temperature ≤ 500) :
    (text flame fan temperature).length ≤ 17 := by
  have := Text.Numeral.length_decimal_le (i := flame) (by omega)
  have := Text.Numeral.length_decimal_le (i := fan) (by omega)
  have := Text.Numeral.length_decimal_le (i := temperature) (by omega)
  simp only [text, List.cons_append, List.length_cons, List.length_append]
  omega

theorem fieldValue_decimal (name : Char) {i : Int} (h : -2147483648 ≤ i ∧ i < 2147483648) :
    fieldValue name (name :: ':' :: Text.Numeral.decimal i) = .ok i := by
  have hi : Text.Numeral.integerWithin? (UInt32.size / 2) (Text.Numeral.decimal i) = some i :=
    Text.Numeral.integerWithin?_decimal h
  rw [fieldValue, if_pos rfl, Text.Numeral.trim_decimal, hi]

theorem not_mem_field {name : Char} (hname : name ≠ ',') (i : Int) :
    ',' ∉ name :: ':' :: Text.Numeral.decimal i := by
  intro h
  rcases List.mem_cons.1 h with h | h
  · exact hname h.symm
  rcases List.mem_cons.1 h with h | h
  · exact absurd h (by decide)
  · exact absurd (Text.Numeral.isDecimal_of_mem h) (by decide)

theorem splitAt_text (flame fan temperature : Int) :
    Text.splitAt ',' (text flame fan temperature) =
      ['F' :: ':' :: Text.Numeral.decimal flame, 'S' :: ':' :: Text.Numeral.decimal fan,
        'T' :: ':' :: Text.Numeral.decimal temperature] := by
  rw [text, Text.splitAt_append _ (not_mem_field (by decide) flame),
    Text.splitAt_append _ (not_mem_field (by decide) fan),
    Text.splitAt_of_not_mem (not_mem_field (by decide) temperature)]

theorem numbers_text {flame fan temperature : Int}
    (hflame : -2147483648 ≤ flame ∧ flame < 2147483648)
    (hfan : -2147483648 ≤ fan ∧ fan < 2147483648)
    (htemp : -2147483648 ≤ temperature ∧ temperature < 2147483648) :
    numbers (text flame fan temperature) = .ok (flame, fan, temperature) := by
  simp only [numbers, splitAt_text, takeField, fieldValue_decimal _ hflame,
    fieldValue_decimal _ hfan, fieldValue_decimal _ htemp, Except.map, bind, Except.bind]
  rfl

theorem ofNumbers_ok {flame : Bool} {fan : Nat} {temperature : Int} (hfan : fan ≤ 100)
    (htemp : -50 ≤ temperature ∧ temperature ≤ 500) :
    ofNumbers (if flame then 1 else 0) fan temperature =
      .ok ⟨flame, UInt8.ofNat fan, Int16.ofInt temperature, 0, true⟩ := by
  have hflame : Quantity.flame.check 0 1 (if flame then 1 else 0) = .ok () := by
    cases flame <;> rfl
  have hspeed : Quantity.fan.check 0 Reading.fanLimit fan = .ok () :=
    Quantity.check_ok (Int.natCast_nonneg fan) (Int.ofNat_le.2 hfan)
  have hdegrees : Quantity.temperature.check Reading.lineTemperatureFloor
      Reading.temperatureLimit temperature = .ok () := Quantity.check_ok htemp.1 htemp.2
  have hbool : ((if flame then 1 else 0 : Int) == 1) = flame := by cases flame <;> rfl
  have hbyte : UInt8.ofInt fan = UInt8.ofNat fan := by
    have hmod : ((fan : Int) % 2 ^ 8).toNat = fan := by omega
    rw [UInt8.ofInt, hmod]
  simp only [ofNumbers, hflame, hspeed, hdegrees, hbool, hbyte, bind, Except.bind, pure,
    Except.pure]

/-- The text of a status line is decoded to its record. -/
theorem ofLine_text {flame : Bool} {fan : Nat} {temperature : Int} (hfan : fan ≤ 100)
    (htemp : -50 ≤ temperature ∧ temperature ≤ 500) :
    ofLine (Text.Utf8.encode (String.ofList (text (if flame then 1 else 0) fan temperature))) =
      .ok ⟨flame, UInt8.ofNat fan, Int16.ofInt temperature, 0, true⟩ := by
  have hnumbers : numbers (text (if flame then 1 else 0) fan temperature) =
      .ok (if flame then 1 else 0, fan, temperature) :=
    numbers_text (by cases flame <;> decide) (by omega) (by omega)
  rw [ofLine, Text.Utf8.decode?_encode]
  simp only [String.toList_ofList, hnumbers]
  exact ofNumbers_ok hfan htemp

/-- The first line feed ends the line. -/
theorem endIndex?_append {front : Bytes} (h : lineFeed ∉ front) (rest : Bytes) :
    endIndex? (front ++ lineFeed :: rest) 0 = some front.length := by
  have hfind : (front ++ lineFeed :: rest).findIdx? (fun b => b == lineFeed) =
      some front.length := by
    rw [List.findIdx?_append, List.findIdx?_eq_none_iff.2 (fun b hb => ?_), Option.none_or]
    · simp [List.findIdx?_cons]
    · exact beq_eq_false_iff_ne.2 (fun he => h (he ▸ hb))
  rw [endIndex?, List.drop_zero, hfind, Option.map_some, Nat.zero_add]

theorem endIndex?_of_not_mem {bytes : Bytes} (h : lineFeed ∉ bytes) (start : Nat) :
    endIndex? bytes start = none := by
  rw [endIndex?, Option.map_eq_none_iff, List.findIdx?_eq_none_iff]
  intro b hb
  exact beq_eq_false_iff_ne.2 (fun he => h (he ▸ List.mem_of_mem_drop hb))

/-- Only a carriage return at the very end is taken off a line. -/
theorem between_front {line : Bytes} (h : line.getLast? ≠ some carriageReturn) (hasReturn : Bool)
    (rest : Bytes) :
    between (line ++ optionalReturn hasReturn ++ rest) 0
      (line ++ optionalReturn hasReturn).length = line := by
  simp only [between, List.take_left, List.drop_zero, optionalReturn]
  cases hasReturn with
  | false => simp [h]
  | true => simp

theorem startIndex?_of_prefix {bytes rest : Bytes} (h : bytes <+: 70 :: 58 :: rest)
    (hsize : 2 ≤ bytes.length) : startIndex? bytes = some 0 := by
  match bytes with
  | [] => cases hsize
  | [_] => exact absurd hsize (Nat.not_le_of_lt (Nat.lt_succ_self 1))
  | first :: second :: more =>
    obtain ⟨hfirst, htail⟩ := List.cons_prefix_cons.1 h
    obtain ⟨hsecond, _⟩ := List.cons_prefix_cons.1 htail
    rw [hfirst, hsecond]
    rfl

/-- A line is not complete before its line feed. -/
theorem locate_unterminated {flame fan temperature : Int} {hasReturn : Bool} {bytes : Bytes}
    (h : bytes <+: Text.Utf8.encode (String.ofList (text flame fan temperature)) ++
      optionalReturn hasReturn) (hmin : 2 ≤ bytes.length) (hmax : bytes.length < sizeLimit) :
    locate bytes = .error (.malformedLine .unterminated) := by
  have hstart : startIndex? bytes = some 0 := by
    obtain ⟨more, hmore, _⟩ := encode_text_start flame fan temperature
    rw [hmore] at h
    exact startIndex?_of_prefix h hmin
  have hnoFeed : lineFeed ∉ bytes := by
    intro hm
    exact absurd (toNat_of_mem_front (h.subset hm)).1 (by decide)
  rw [locate, if_neg (Nat.not_le_of_lt hmax), hstart]
  simp only [endIndex?_of_not_mem hnoFeed]

/-- A good line at the front is the one that is found. -/
theorem locate_text {flame : Bool} {fan : Nat} {temperature : Int} (hasReturn : Bool)
    (hfan : fan ≤ 100) (htemp : -50 ≤ temperature ∧ temperature ≤ 500) {front rest : Bytes}
    (hfront : front = Text.Utf8.encode (String.ofList
      (text (if flame then 1 else 0) fan temperature)) ++ optionalReturn hasReturn)
    (hsize : (front ++ lineFeed :: rest).length < sizeLimit) :
    locate (front ++ lineFeed :: rest) =
      .ok ⟨⟨flame, UInt8.ofNat fan, Int16.ofInt temperature, 0, true⟩, 0, front.length + 1⟩ := by
  have hline : ofLine (Text.Utf8.encode (String.ofList
      (text (if flame then 1 else 0) fan temperature))) =
        .ok ⟨flame, UInt8.ofNat fan, Int16.ofInt temperature, 0, true⟩ := ofLine_text hfan htemp
  have hnoFeed : lineFeed ∉ front := by
    intro hm
    exact absurd (toNat_of_mem_front (hfront ▸ hm)).1 (by decide)
  have hnoReturn : carriageReturn ∉ Text.Utf8.encode (String.ofList
      (text (if flame then 1 else 0) fan temperature)) := by
    intro hm
    exact absurd (toNat_of_mem_encode_text hm).1 (by decide)
  have hstart : startIndex? (front ++ lineFeed :: rest) = some 0 := by
    obtain ⟨more, hmore, _⟩ := encode_text_start (if flame then 1 else 0) fan temperature
    rw [hfront, hmore]
    rfl
  have hbetween :=
    between_front (fun he => hnoReturn (List.mem_of_getLast? he)) hasReturn (lineFeed :: rest)
  rw [← hfront] at hbetween
  rw [locate, if_neg (Nat.not_le_of_lt hsize), hstart]
  simp only [endIndex?_append hnoFeed rest, hbetween, hline, Except.map]

/-- A field is its name, a colon, and a number. -/
theorem fieldValue_ok {name : Char} {field : List Char} {i : Int}
    (h : fieldValue name field = .ok i) : ∃ number, field = name :: ':' :: number ∧
      Text.Numeral.integer? (Text.trim number) = some i := by
  unfold fieldValue at h
  split at h
  · rename_i letter number
    split at h
    · rename_i hname
      split at h
      · rename_i hvalue
        cases h
        exact ⟨number, by rw [hname], (Option.filter_eq_some_iff.1 hvalue).1⟩
      · cases h
    · cases h
  · cases h

theorem takeField_ok {name : Char} {fields rest : List (List Char)} {i : Int}
    (h : takeField name fields = .ok (i, rest)) :
    ∃ field, fields = field :: rest ∧ fieldValue name field = .ok i := by
  cases fields with
  | nil => cases h
  | cons field more =>
    cases hv : fieldValue name field with
    | error e => rw [takeField, hv] at h; cases h
    | ok v =>
      rw [takeField, hv] at h
      cases h
      exact ⟨field, rfl, hv⟩

/-- Three numbers are the values of three fields, and there is no fourth. -/
theorem numbers_ok {line : List Char} {flame fan temperature : Int}
    (h : numbers line = .ok (flame, fan, temperature)) : ∃ first second third,
      Text.splitAt ',' line = [first, second, third] ∧ fieldValue 'F' first = .ok flame ∧
        fieldValue 'S' second = .ok fan ∧ fieldValue 'T' third = .ok temperature := by
  unfold numbers at h
  cases hflame : takeField 'F' (Text.splitAt ',' line) with
  | error e => rw [hflame] at h; cases h
  | ok flame =>
    cases hfan : takeField 'S' flame.2 with
    | error e => simp only [hflame, bind, Except.bind, hfan] at h; cases h
    | ok fan =>
      cases htemp : takeField 'T' fan.2 with
      | error e => simp only [hflame, bind, Except.bind, hfan, htemp] at h; cases h
      | ok temperature =>
        simp only [hflame, bind, Except.bind, hfan, htemp] at h
        split at h
        · rename_i hrest
          cases h
          obtain ⟨first, hfirst, hflame⟩ := takeField_ok hflame
          obtain ⟨second, hsecond, hfan⟩ := takeField_ok hfan
          obtain ⟨third, hthird, htemp⟩ := takeField_ok htemp
          rw [hsecond, hthird, List.isEmpty_iff.1 hrest] at hfirst
          exact ⟨first, second, third, hfirst, hflame, hfan, htemp⟩
        · cases h

/-- Three numbers need their names, colons and commas. -/
theorem length_of_numbers {line : List Char} {values : Int × Int × Int}
    (h : numbers line = .ok values) : 8 ≤ line.length := by
  have hsum := Text.sum_length_splitAt ',' line
  obtain ⟨first, second, third, hfields, hflame, hfan, htemp⟩ := numbers_ok h
  obtain ⟨_, rfl, _⟩ := fieldValue_ok hflame
  obtain ⟨_, rfl, _⟩ := fieldValue_ok hfan
  obtain ⟨_, rfl, _⟩ := fieldValue_ok htemp
  rw [hfields] at hsum
  simp only [List.map_cons, List.sum_cons, List.length_cons] at hsum
  omega

theorem length_of_ofLine {line : Bytes} {r : Reading} (h : ofLine line = .ok r) :
    8 ≤ line.length := by
  unfold ofLine at h
  split at h
  · cases h
  · rename_i text htext
    split at h
    · cases h
    · rename_i hnumbers
      have := length_of_numbers hnumbers
      have := Text.Utf8.length_le_length_encode text
      rw [Text.Utf8.eq_encode_of_decode? htext]
      omega

theorem length_between_le (bytes : Bytes) (start stop : Nat) :
    (between bytes start stop).length ≤ stop - start := by
  simp only [between]
  split
  · simp only [List.length_dropLast, List.length_drop, List.length_take]
    omega
  · simp only [List.length_drop, List.length_take]
    omega

/-- Every line that is found is longer than a frame. -/
theorem locate_stop_gt {bytes : Bytes} {s : Sighting} (h : locate bytes = .ok s) :
    s.start + Frame.size < s.stop := by
  unfold locate at h
  split at h
  · cases h
  split at h
  · cases h
  split at h
  · cases h
  · rename_i start _ _ stop _
    cases hr : ofLine (between bytes start stop) with
    | error e => rw [hr] at h; cases h
    | ok r =>
      have := length_of_ofLine hr
      have := length_between_le bytes start stop
      rw [hr] at h
      cases h
      simp only [Frame.size]
      omega

end StatusLine

end BurnerTelemetry.Wire
