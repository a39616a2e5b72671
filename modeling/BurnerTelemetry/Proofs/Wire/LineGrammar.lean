import BurnerTelemetry.Proofs.Text.Grammar
import BurnerTelemetry.Proofs.Wire.Locality

/-!
The grammar of the status line. Main statement: the first line of some bytes is a good one exactly
when it is made of the three fields, each a numeral between blanks and each number in its range, and
a line that is refused is refused for the first thing in it that breaks the grammar.
-/
namespace BurnerTelemetry.Wire.StatusLine

/-- The number behind the name of a field: a numeral between blanks that fits into 32 bits. -/
def Number (s : List Char) (i : Int) : Prop :=
  ∃ front numeral back, s = front ++ (numeral ++ back) ∧
    (∀ c ∈ front, Text.isBlank c = true) ∧ (∀ c ∈ back, Text.isBlank c = true) ∧
      Text.Numeral.Denotes numeral i ∧ -2147483648 ≤ i ∧ i < 2147483648

/-- Three fields, each with its name, a colon and a number, and commas between them. -/
def Says (line : Bytes) (flame fan temperature : Int) : Prop :=
  ∃ x y z : List Char, (',' ∉ x ∧ ',' ∉ y ∧ ',' ∉ z) ∧
    line = Text.Utf8.encode (String.ofList ('F' :: ':' :: x ++ ',' ::
      ('S' :: ':' :: y ++ ',' :: ('T' :: ':' :: z)))) ∧
      Number x flame ∧ Number y fan ∧ Number z temperature

/-- The first thing that is wrong with the fields of a line, for the names they should have. -/
inductive Flawed : List Char → List (List Char) → LineFault → Prop where
  | missing {name : Char} {names : List Char} : Flawed (name :: names) [] .missingField
  | misnamed {name : Char} {names field : List Char} {rest : List (List Char)}
    (h : ¬ [name, ':'] <+: field) : Flawed (name :: names) (field :: rest) .misnamedField
  | notANumber {name : Char} {names s : List Char} {rest : List (List Char)}
    (h : ∀ i, ¬ Number s i) : Flawed (name :: names) ((name :: ':' :: s) :: rest) .notANumber
  | later {name : Char} {names s : List Char} {rest : List (List Char)} {i : Int}
    {fault : LineFault} (h : Number s i) (hrest : Flawed names rest fault) :
    Flawed (name :: names) ((name :: ':' :: s) :: rest) fault
  | trailing {field : List Char} {rest : List (List Char)} :
    Flawed [] (field :: rest) .trailingFields

/-- The three numbers are in range. -/
def InRange (flame fan temperature : Int) : Prop :=
  (0 ≤ flame ∧ flame ≤ 1) ∧ (0 ≤ fan ∧ fan ≤ 100) ∧ -50 ≤ temperature ∧ temperature ≤ 500

/-- The first of the three numbers that is not in range, with its range. -/
inductive OutOfRange (flame fan temperature : Int) : Quantity → Int → Int → Int → Prop where
  | flame (h : ¬ (0 ≤ flame ∧ flame ≤ 1)) : OutOfRange flame fan temperature .flame flame 0 1
  | fan (hflame : 0 ≤ flame ∧ flame ≤ 1) (h : ¬ (0 ≤ fan ∧ fan ≤ 100)) :
    OutOfRange flame fan temperature .fan fan 0 100
  | temperature (hflame : 0 ≤ flame ∧ flame ≤ 1) (hfan : 0 ≤ fan ∧ fan ≤ 100)
    (h : ¬ (-50 ≤ temperature ∧ temperature ≤ 500)) :
    OutOfRange flame fan temperature .temperature temperature (-50) 500

/-- The record of three numbers. A line has no error code. -/
structure Reports (r : Reading) (flame fan temperature : Int) : Prop where
  flame : r.flame = true ↔ flame = 1
  fan : (r.fan.toNat : Int) = fan
  temperature : r.temperature.toInt = temperature
  errorCode : r.errorCode = 0
  valid : r.valid = true

/-- The line that is looked at: it starts at the first `F:` and stops at the first line feed behind
that, and one carriage return at its end is no part of it. -/
structure LineOf (bytes : Bytes) (start stop : Nat) (line : Bytes) : Prop where
  starts : [70, 58] <+: bytes.drop start ∧ ∀ i < start, ¬ [70, 58] <+: bytes.drop i
  stops : start ≤ stop ∧ bytes[stop]? = some lineFeed ∧
    ∀ i, start ≤ i → i < stop → bytes[i]? ≠ some lineFeed
  content : (bytes.take stop).drop start = line ++ [carriageReturn] ∨
    (bytes.take stop).drop start = line ∧ line.getLast? ≠ some carriageReturn

/-- The first line says three numbers in range, and this is their record and where the line stands,
its line feed included. -/
def Found (bytes : Bytes) (s : Sighting) : Prop :=
  bytes.length < 256 ∧ ∃ stop line flame fan temperature, LineOf bytes s.start stop line ∧
    Says line flame fan temperature ∧ InRange flame fan temperature ∧
      Reports s.reading flame fan temperature ∧ s.stop = stop + 1

/-- What is to be said of bytes whose first line is not good or that have none. -/
inductive Fault (bytes : Bytes) : DecodeError → Prop where
  | tooLong (h : 256 ≤ bytes.length) : Fault bytes (.lineTooLong bytes.length)
  | noLine (hsize : bytes.length < 256) (h : ∀ i, ¬ [70, 58] <+: bytes.drop i) :
    Fault bytes .noLine
  | unterminated {start : Nat} (hsize : bytes.length < 256)
    (hstart : [70, 58] <+: bytes.drop start ∧ ∀ i < start, ¬ [70, 58] <+: bytes.drop i)
    (h : ∀ i, start ≤ i → bytes[i]? ≠ some lineFeed) : Fault bytes (.malformedLine .unterminated)
  | notText {start stop : Nat} {line : Bytes} (hsize : bytes.length < 256)
    (hline : LineOf bytes start stop line) (h : ∀ text, line ≠ Text.Utf8.encode text) :
    Fault bytes (.malformedLine .notText)
  | flawed {start stop : Nat} {fields : List (List Char)} {fault : LineFault}
    (hsize : bytes.length < 256)
    (hline : LineOf bytes start stop (Text.Utf8.encode (String.ofList ([','].intercalate fields))))
    (hfields : fields ≠ [] ∧ ∀ field ∈ fields, ',' ∉ field)
    (h : Flawed ['F', 'S', 'T'] fields fault) : Fault bytes (.malformedLine fault)
  | outOfRange {start stop : Nat} {line : Bytes} {flame fan temperature : Int}
    {quantity : Quantity} {value low high : Int} (hsize : bytes.length < 256)
    (hline : LineOf bytes start stop line) (h : Says line flame fan temperature)
    (hrange : OutOfRange flame fan temperature quantity value low high) :
    Fault bytes (.outOfRange quantity value low high)

section Fields

variable {name : Char} {names s field : List Char} {fields rest : List (List Char)} {i : Int}
  {fault : LineFault}

theorem integerWithin?_trim_iff :
    Text.Numeral.integerWithin? (UInt32.size / 2) (Text.trim s) = some i ↔ Number s i := by
  have hbound : ((UInt32.size / 2 : Nat) : Int) = 2147483648 := rfl
  rw [Text.Numeral.integerWithin?_eq_some_iff, hbound]
  constructor
  · intro h
    obtain ⟨front, back, hs, hfront, hback⟩ := Text.exists_append_trim s
    exact ⟨front, Text.trim s, back, hs, hfront, hback, h⟩
  · rintro ⟨front, numeral, back, rfl, hfront, hback, h⟩
    rw [Text.trim_append hfront h.1.solid hback]
    exact h

theorem takeField_number (name : Char) (h : Number s i) (rest : List (List Char)) :
    takeField name ((name :: ':' :: s) :: rest) = .ok (i, rest) := by
  simp [takeField, fieldValue, integerWithin?_trim_iff.2 h, Except.map]

theorem takeField_notANumber (name : Char) (h : ∀ i, ¬ Number s i) (rest : List (List Char)) :
    takeField name ((name :: ':' :: s) :: rest) = .error .notANumber := by
  have hnone : Text.Numeral.integerWithin? (UInt32.size / 2) (Text.trim s) = none :=
    Option.eq_none_iff_forall_ne_some.2 (fun i hi => h i (integerWithin?_trim_iff.1 hi))
  simp [takeField, fieldValue, hnone, Except.map]

theorem takeField_misnamed (h : ¬ [name, ':'] <+: field) (rest : List (List Char)) :
    takeField name (field :: rest) = .error .misnamedField := by
  have hvalue : fieldValue name field = .error .misnamedField := by
    unfold fieldValue
    split
    · rename_i letter number
      rw [if_neg]
      rintro rfl
      exact h (List.prefix_append [letter, ':'] number)
    · rfl
  rw [takeField, hvalue]
  rfl

/-- A field is taken with its number, or it is flawed whatever is behind it. -/
theorem takeField_cases (name : Char) (fields : List (List Char)) :
    (∃ s i rest, fields = (name :: ':' :: s) :: rest ∧ Number s i ∧
      takeField name fields = .ok (i, rest)) ∨
    ∃ fault, takeField name fields = .error fault ∧
      ∀ names, Flawed (name :: names) fields fault := by
  cases fields with
  | nil => exact .inr ⟨_, rfl, fun names => .missing⟩
  | cons field rest =>
    by_cases hname : [name, ':'] <+: field
    · obtain ⟨s, rfl⟩ := hname
      by_cases hnumber : ∃ i, Number s i
      · obtain ⟨i, hi⟩ := hnumber
        exact .inl ⟨s, i, rest, rfl, hi, takeField_number name hi rest⟩
      · have hnone : ∀ i, ¬ Number s i := not_exists.1 hnumber
        exact .inr ⟨_, takeField_notANumber name hnone rest, fun names => .notANumber hnone⟩
    · exact .inr ⟨_, takeField_misnamed hname rest, fun names => .misnamed hname⟩

theorem takeField_ok_iff : takeField name fields = .ok (i, rest) ↔
    ∃ s, fields = (name :: ':' :: s) :: rest ∧ Number s i := by
  constructor
  · intro h
    obtain ⟨s, j, more, hfields, hnumber, hok⟩ | ⟨_, herror, _⟩ := takeField_cases name fields
    · rw [hok] at h
      cases h
      exact ⟨s, hfields, hnumber⟩
    · rw [herror] at h
      cases h
  · rintro ⟨s, rfl, hnumber⟩
    exact takeField_number name hnumber rest

/-- Fields are flawed in the first of them, or behind it. -/
theorem flawed_cons_iff : Flawed (name :: names) fields fault ↔
    takeField name fields = .error fault ∨
      ∃ i rest, takeField name fields = .ok (i, rest) ∧ Flawed names rest fault := by
  constructor
  · intro h
    cases h with
    | missing => exact .inl rfl
    | misnamed h => exact .inl (takeField_misnamed h _)
    | notANumber h => exact .inl (takeField_notANumber name h _)
    | later hnumber hrest => exact .inr ⟨_, _, takeField_number name hnumber _, hrest⟩
  · rintro (herror | ⟨i, rest, hok, hrest⟩)
    · obtain ⟨_, _, _, _, _, hok⟩ | ⟨e, he, hflawed⟩ := takeField_cases name fields
      · rw [hok] at herror
        cases herror
      · rw [herror] at he
        cases he
        exact hflawed names
    · obtain ⟨s, rfl, hnumber⟩ := takeField_ok_iff.1 hok
      exact .later hnumber hrest

theorem flawed_nil_iff : Flawed [] fields fault ↔ fields ≠ [] ∧ fault = .trailingFields := by
  constructor
  · intro h
    cases h
    exact ⟨List.cons_ne_nil _ _, rfl⟩
  · rintro ⟨hne, rfl⟩
    obtain ⟨field, rest, rfl⟩ := List.exists_cons_of_ne_nil hne
    exact .trailing

/-- What is done with a number fails if there is no number or it fails with it. -/
theorem bind_takeField_error_iff {α : Type} {k : Int × List (List Char) → Except LineFault α} :
    (takeField name fields >>= k) = .error fault ↔ takeField name fields = .error fault ∨
      ∃ i rest, takeField name fields = .ok (i, rest) ∧ k (i, rest) = .error fault := by
  cases takeField name fields with
  | error e => simp [bind, Except.bind]
  | ok found =>
    obtain ⟨i, rest⟩ := found
    simp [bind, Except.bind]

theorem bind_takeField_ok_iff {α : Type} {k : Int × List (List Char) → Except LineFault α} {a : α} :
    (takeField name fields >>= k) = .ok a ↔
      ∃ i rest, takeField name fields = .ok (i, rest) ∧ k (i, rest) = .ok a := by
  cases takeField name fields with
  | error e => simp [bind, Except.bind]
  | ok found =>
    obtain ⟨i, rest⟩ := found
    simp [bind, Except.bind]

/-- Behind the third number there must be no field. -/
theorem noneLeft_error_iff {values : Int × Int × Int} :
    (if rest.isEmpty then pure values else throw .trailingFields : Except LineFault _) =
      .error fault ↔ rest ≠ [] ∧ fault = .trailingFields := by
  cases rest with
  | nil => simp [pure, Except.pure]
  | cons field rest => simp [throw, throwThe, MonadExceptOf.throw, eq_comm]

theorem noneLeft_ok_iff {values found : Int × Int × Int} :
    (if rest.isEmpty then pure values else throw .trailingFields : Except LineFault _) =
      .ok found ↔ rest = [] ∧ values = found := by
  cases rest with
  | nil => simp [pure, Except.pure]
  | cons field rest => simp [throw, throwThe, MonadExceptOf.throw]

/-- Numbers are refused for the first flaw of the fields. -/
theorem numbers_error_iff {line : List Char} : numbers line = .error fault ↔
    Flawed ['F', 'S', 'T'] (Text.splitAt ',' line) fault := by
  simp only [numbers, bind_takeField_error_iff, noneLeft_error_iff, flawed_cons_iff, flawed_nil_iff]

theorem numbers_ok_iff {line : List Char} {flame fan temperature : Int} :
    numbers line = .ok (flame, fan, temperature) ↔ ∃ x y z : List Char,
      Text.splitAt ',' line = ['F' :: ':' :: x, 'S' :: ':' :: y, 'T' :: ':' :: z] ∧
        Number x flame ∧ Number y fan ∧ Number z temperature := by
  simp only [numbers, bind_takeField_ok_iff, noneLeft_ok_iff, takeField_ok_iff]
  constructor
  · rintro ⟨_, _, ⟨x, hx, hflame⟩, _, _, ⟨y, rfl, hfan⟩, _, _, ⟨z, rfl, htemp⟩, rfl, hvalues⟩
    cases hvalues
    exact ⟨x, y, z, hx, hflame, hfan, htemp⟩
  · rintro ⟨x, y, z, hx, hflame, hfan, htemp⟩
    exact ⟨_, _, ⟨x, hx, hflame⟩, _, _, ⟨y, rfl, hfan⟩, _, _, ⟨z, rfl, htemp⟩, rfl, rfl⟩

end Fields

section Line

variable {line : Bytes} {flame fan temperature : Int} {r : Reading} {quantity : Quantity}
  {value low high : Int}

/-- A line says three numbers if it is the text of three fields with these numbers. -/
theorem says_iff : Says line flame fan temperature ↔
    ∃ text, line = Text.Utf8.encode text ∧ numbers text.toList = .ok (flame, fan, temperature) := by
  simp only [numbers_ok_iff, Text.splitAt_eq_iff]
  constructor
  · rintro ⟨x, y, z, ⟨hx, hy, hz⟩, rfl, hnumbers⟩
    refine ⟨_, rfl, x, y, z, ⟨List.cons_ne_nil _ _, ?_, ?_⟩, hnumbers⟩
    · simp [hx, hy, hz]
    · simp [List.intercalate_cons_cons]
  · rintro ⟨text, rfl, x, y, z, ⟨_, hcommas, htext⟩, hnumbers⟩
    refine ⟨x, y, z, ?_, ?_, hnumbers⟩
    · simpa using hcommas
    · rw [← String.ofList_toList (s := text), ← htext]
      simp [List.intercalate_cons_cons]

theorem check_bind_eq (low high value : Int) (quantity : Quantity)
    (k : Except DecodeError Reading) :
    (quantity.check low high value >>= fun _ => k) =
      if low ≤ value ∧ value ≤ high then k else .error (.outOfRange quantity value low high) := by
  rw [Quantity.check]
  split <;> rfl

theorem ofNumbers_eq (flame fan temperature : Int) : ofNumbers flame fan temperature =
    if 0 ≤ flame ∧ flame ≤ 1 then
      if 0 ≤ fan ∧ fan ≤ 100 then
        if -50 ≤ temperature ∧ temperature ≤ 500 then
          .ok ⟨flame == 1, UInt8.ofInt fan, Int16.ofInt temperature, 0, true⟩
        else .error (.outOfRange .temperature temperature (-50) 500)
      else .error (.outOfRange .fan fan 0 100)
    else .error (.outOfRange .flame flame 0 1) := by
  simp only [ofNumbers, check_bind_eq]
  rfl

/-- The record of numbers in range is the one that reports them. -/
theorem reports_iff (h : InRange flame fan temperature) : Reports r flame fan temperature ↔
    r = ⟨flame == 1, UInt8.ofInt fan, Int16.ofInt temperature, 0, true⟩ := by
  obtain ⟨_, hfan, htemp⟩ := h
  have hbyte : ((UInt8.ofInt fan).toNat : Int) = fan := by
    have hmod : ((fan % 2 ^ 8).toNat : Int) = fan := by omega
    have hlt : (fan % 2 ^ 8).toNat < UInt8.size := by
      simp only [UInt8.size]
      omega
    rw [UInt8.ofInt, UInt8.toNat_ofNat_of_lt' hlt, hmod]
  have hword : (Int16.ofInt temperature).toInt = temperature :=
    Int16.toInt_ofInt_of_le (by omega) (by omega)
  constructor
  · rintro ⟨hflame, hspeed, hdegrees, hcode, hvalid⟩
    obtain ⟨flag, speed, degrees, code, valid⟩ := r
    simp only at hflame hspeed hdegrees hcode hvalid
    have hflag : flag = (flame == 1) := Bool.eq_iff_iff.2 (hflame.trans beq_iff_eq.symm)
    have hsame : speed = UInt8.ofInt fan :=
      UInt8.toNat_inj.1 (Int.ofNat_inj.1 (hspeed.trans hbyte.symm))
    have hdegree : degrees = Int16.ofInt temperature :=
      Int16.toInt_inj.1 (hdegrees.trans hword.symm)
    rw [hflag, hsame, hdegree, hcode, hvalid]
  · rintro rfl
    exact ⟨beq_iff_eq, hbyte, hword, rfl, rfl⟩

theorem ofNumbers_ok_iff : ofNumbers flame fan temperature = .ok r ↔
    InRange flame fan temperature ∧ Reports r flame fan temperature := by
  rw [ofNumbers_eq]
  by_cases hrange : InRange flame fan temperature
  · rw [if_pos hrange.1, if_pos hrange.2.1, if_pos hrange.2.2, reports_iff hrange]
    exact ⟨fun h => ⟨hrange, (Except.ok.inj h).symm⟩, fun h => congrArg Except.ok h.2.symm⟩
  · constructor
    · intro h
      split at h
      · split at h
        · split at h
          · exact absurd ⟨‹_›, ‹_›, ‹_›⟩ hrange
          · cases h
        · cases h
      · cases h
    · exact fun h => absurd h.1 hrange

theorem ofNumbers_error_iff {e : DecodeError} : ofNumbers flame fan temperature = .error e ↔
    ∃ quantity value low high, e = .outOfRange quantity value low high ∧
      OutOfRange flame fan temperature quantity value low high := by
  rw [ofNumbers_eq]
  constructor
  · intro h
    split at h
    · rename_i hflame
      split at h
      · rename_i hfan
        split at h
        · cases h
        · cases h
          exact ⟨_, _, _, _, rfl, .temperature hflame hfan ‹_›⟩
      · cases h
        exact ⟨_, _, _, _, rfl, .fan hflame ‹_›⟩
    · cases h
      exact ⟨_, _, _, _, rfl, .flame ‹_›⟩
  · rintro ⟨_, _, _, _, rfl, h⟩
    cases h with
    | flame h => rw [if_neg h]
    | fan hflame h => rw [if_pos hflame, if_neg h]
    | temperature hflame hfan h => rw [if_pos hflame, if_pos hfan, if_neg h]

/-- A line is good if it says three numbers in range. -/
theorem ofLine_ok_iff : ofLine line = .ok r ↔ ∃ flame fan temperature,
    Says line flame fan temperature ∧ InRange flame fan temperature ∧
      Reports r flame fan temperature := by
  simp only [says_iff, ← ofNumbers_ok_iff]
  unfold ofLine
  constructor
  · intro h
    split at h
    · cases h
    · rename_i text htext
      split at h
      · cases h
      · rename_i flame fan temperature hnumbers
        exact ⟨flame, fan, temperature, ⟨text, Text.Utf8.eq_encode_of_decode? htext, hnumbers⟩, h⟩
  · rintro ⟨flame, fan, temperature, ⟨text, rfl, hnumbers⟩, h⟩
    simp only [Text.Utf8.decode?_encode, hnumbers]
    exact h

/-- A line is refused because it is no text, for the first flaw of its fields, or for the first
number out of range. -/
theorem ofLine_error_iff {e : DecodeError} : ofLine line = .error e ↔
    (e = .malformedLine .notText ∧ ∀ text, line ≠ Text.Utf8.encode text) ∨
    (∃ text fault, e = .malformedLine fault ∧ line = Text.Utf8.encode text ∧
      Flawed ['F', 'S', 'T'] (Text.splitAt ',' text.toList) fault) ∨
    ∃ flame fan temperature quantity value low high, e = .outOfRange quantity value low high ∧
      Says line flame fan temperature ∧
        OutOfRange flame fan temperature quantity value low high := by
  simp only [says_iff, ← numbers_error_iff]
  unfold ofLine
  constructor
  · intro h
    split at h
    · rename_i hnone
      cases h
      refine .inl ⟨rfl, fun text htext => ?_⟩
      rw [htext, Text.Utf8.decode?_encode] at hnone
      cases hnone
    · rename_i text htext
      have hline := Text.Utf8.eq_encode_of_decode? htext
      split at h
      · rename_i fault hfault
        cases h
        exact .inr (.inl ⟨text, fault, rfl, hline, hfault⟩)
      · rename_i flame fan temperature hnumbers
        obtain ⟨quantity, value, low, high, he, hrange⟩ := ofNumbers_error_iff.1 h
        exact .inr (.inr ⟨flame, fan, temperature, quantity, value, low, high, he,
          ⟨text, hline, hnumbers⟩, hrange⟩)
  · rintro (⟨rfl, hnone⟩ | ⟨text, fault, rfl, rfl, hfault⟩ |
      ⟨flame, fan, temperature, quantity, value, low, high, rfl, ⟨text, rfl, hnumbers⟩, hrange⟩)
    · have hdecode : Text.Utf8.decode? line = none :=
        Option.eq_none_iff_forall_ne_some.2
          (fun text htext => hnone text (Text.Utf8.eq_encode_of_decode? htext))
      rw [hdecode]
    · simp only [Text.Utf8.decode?_encode, hfault]
    · simp only [Text.Utf8.decode?_encode, hnumbers]
      exact ofNumbers_error_iff.2 ⟨quantity, value, low, high, rfl, hrange⟩

end Line

section Place

variable {bytes line : Bytes} {start stop : Nat}

theorem between_eq_iff : between bytes start stop = line ↔
    (bytes.take stop).drop start = line ++ [carriageReturn] ∨
      (bytes.take stop).drop start = line ∧ line.getLast? ≠ some carriageReturn := by
  simp only [between]
  split
  · rename_i hlast
    obtain ⟨front, hfront⟩ := List.getLast?_eq_some_iff.1 hlast
    rw [hfront, List.dropLast_concat]
    constructor
    · rintro rfl
      exact .inl rfl
    · rintro (h | ⟨rfl, h⟩)
      · exact List.append_cancel_right h
      · exact absurd (by simp) h
  · rename_i hlast
    constructor
    · rintro rfl
      exact .inr ⟨rfl, hlast⟩
    · rintro (h | ⟨h, _⟩)
      · rw [h] at hlast
        exact absurd (by simp) hlast
      · exact h

theorem lineOf_iff : LineOf bytes start stop line ↔
    FirstLine bytes start stop ∧ between bytes start stop = line := by
  rw [FirstLine, startIndex?, Bytes.pairIndex?_eq_some_iff, endIndex?_eq_some_iff, between_eq_iff]
  exact ⟨fun h => ⟨⟨h.starts, h.stops⟩, h.content⟩, fun h => ⟨h.1.1, h.1.2, h.2⟩⟩

theorem startIndex?_eq_none_iff :
    startIndex? bytes = none ↔ ∀ i, ¬ [70, 58] <+: bytes.drop i := by
  constructor
  · intro h i hpair
    obtain ⟨j, _, hj⟩ := Bytes.pairIndex?_le hpair
    rw [startIndex?, hj] at h
    cases h
  · intro h
    cases hstart : startIndex? bytes with
    | none => rfl
    | some i => exact absurd (Bytes.pairIndex?_eq_some_iff.1 hstart).1 (h i)

theorem endIndex?_eq_none_iff :
    endIndex? bytes start = none ↔ ∀ i, start ≤ i → bytes[i]? ≠ some lineFeed := by
  rw [endIndex?, Option.map_eq_none_iff, List.findIdx?_eq_none_iff]
  constructor
  · intro h i hle hfeed
    obtain ⟨k, rfl⟩ := Nat.exists_eq_add_of_le hle
    rw [← List.getElem?_drop] at hfeed
    exact absurd (h lineFeed (List.mem_of_getElem? hfeed)) (by decide)
  · intro h b hb
    obtain ⟨k, hk⟩ := List.mem_iff_getElem?.1 hb
    rw [List.getElem?_drop] at hk
    exact beq_eq_false_iff_ne.2 (fun he => h (start + k) (Nat.le_add_right start k) (he ▸ hk))

theorem not_sizeLimit_le (hsize : bytes.length < 256) : ¬ sizeLimit ≤ bytes.length :=
  Nat.not_le_of_lt hsize

/-- What is said of bytes is what is said of their first line. -/
theorem locate_of_lineOf (hsize : bytes.length < 256) (hline : LineOf bytes start stop line) :
    locate bytes = (ofLine line).map (fun r => ⟨r, start, stop + 1⟩) := by
  obtain ⟨⟨hstart, hstop⟩, hcontent⟩ := lineOf_iff.1 hline
  rw [locate, if_neg (not_sizeLimit_le hsize), hstart]
  simp only [hstop, hcontent]

/-- Too many bytes, no start of a line, no end of it, or a line. -/
theorem line_cases (bytes : Bytes) :
    256 ≤ bytes.length ∨
    bytes.length < 256 ∧
      ((∀ i, ¬ [70, 58] <+: bytes.drop i) ∨
      (∃ start, ([70, 58] <+: bytes.drop start ∧ ∀ i < start, ¬ [70, 58] <+: bytes.drop i) ∧
        ∀ i, start ≤ i → bytes[i]? ≠ some lineFeed) ∨
      ∃ start stop line, LineOf bytes start stop line) := by
  rcases Nat.lt_or_ge bytes.length 256 with hsize | hsize
  · refine .inr ⟨hsize, ?_⟩
    cases hstart : startIndex? bytes with
    | none => exact .inl (startIndex?_eq_none_iff.1 hstart)
    | some start =>
      cases hstop : endIndex? bytes start with
      | none =>
        exact .inr (.inl ⟨start, Bytes.pairIndex?_eq_some_iff.1 hstart,
          endIndex?_eq_none_iff.1 hstop⟩)
      | some stop => exact .inr (.inr ⟨start, stop, _, lineOf_iff.2 ⟨⟨hstart, hstop⟩, rfl⟩⟩)
  · exact .inl hsize

end Place

theorem locate_of_fault {bytes : Bytes} {e : DecodeError} (h : Fault bytes e) :
    locate bytes = .error e := by
  cases h with
  | tooLong h => exact if_pos h
  | noLine hsize h => rw [locate, if_neg (not_sizeLimit_le hsize), startIndex?_eq_none_iff.2 h]
  | unterminated hsize hstart h =>
    rw [locate, if_neg (not_sizeLimit_le hsize), startIndex?, Bytes.pairIndex?_eq_some_iff.2 hstart]
    simp only [endIndex?_eq_none_iff.2 h]
  | notText hsize hline h =>
    rw [locate_of_lineOf hsize hline, ofLine_error_iff.2 (.inl ⟨rfl, h⟩)]
    rfl
  | @flawed start stop fields fault hsize hline hfields h =>
    have hsplit : Text.splitAt ',' (String.ofList ([','].intercalate fields)).toList = fields := by
      rw [String.toList_ofList]
      exact Text.splitAt_eq_iff.2 ⟨hfields.1, hfields.2, rfl⟩
    rw [locate_of_lineOf hsize hline,
      ofLine_error_iff.2 (.inr (.inl ⟨_, fault, rfl, rfl, by rw [hsplit]; exact h⟩))]
    rfl
  | outOfRange hsize hline h hrange =>
    rw [locate_of_lineOf hsize hline,
      ofLine_error_iff.2 (.inr (.inr ⟨_, _, _, _, _, _, _, rfl, h, hrange⟩))]
    rfl

theorem locate_of_found {bytes : Bytes} {s : Sighting} (h : Found bytes s) :
    locate bytes = .ok s := by
  obtain ⟨hsize, stop, line, flame, fan, temperature, hline, hsays, hrange, hreports, hstop⟩ := h
  obtain ⟨reading, start, stop'⟩ := s
  simp only at hstop hline hreports
  rw [locate_of_lineOf hsize hline, ofLine_ok_iff.2 ⟨_, _, _, hsays, hrange, hreports⟩, hstop]
  rfl

/-- A first line that is not good has a fault. -/
theorem fault_of_ofLine {bytes line : Bytes} {start stop : Nat} {e : DecodeError}
    (hsize : bytes.length < 256) (hline : LineOf bytes start stop line)
    (h : ofLine line = .error e) : Fault bytes e := by
  rcases ofLine_error_iff.1 h with ⟨rfl, hnone⟩ | ⟨text, fault, rfl, rfl, hflawed⟩ |
    ⟨_, _, _, _, _, _, _, rfl, hsays, hrange⟩
  · exact .notText hsize hline hnone
  · obtain ⟨hne, hcommas, htext⟩ := Text.splitAt_eq_iff.1 (rfl : _ = Text.splitAt ',' text.toList)
    rw [← String.ofList_toList (s := text), ← htext] at hline
    exact .flawed hsize hline ⟨hne, hcommas⟩ hflawed
  · exact .outOfRange hsize hline hsays hrange

/-- Every byte string has a good first line or a fault. -/
theorem found_or_fault (bytes : Bytes) : (∃ s, Found bytes s) ∨ ∃ e, Fault bytes e := by
  rcases line_cases bytes with hlong | ⟨hsize, hnone | ⟨start, hstart, hopen⟩ |
    ⟨start, stop, line, hline⟩⟩
  · exact .inr ⟨_, .tooLong hlong⟩
  · exact .inr ⟨_, .noLine hsize hnone⟩
  · exact .inr ⟨_, .unterminated hsize hstart hopen⟩
  · cases hread : ofLine line with
    | error e => exact .inr ⟨e, fault_of_ofLine hsize hline hread⟩
    | ok r =>
      obtain ⟨flame, fan, temperature, hsays, hrange, hreports⟩ := ofLine_ok_iff.1 hread
      exact .inl ⟨⟨r, start, stop + 1⟩, hsize, stop, line, flame, fan, temperature, hline, hsays,
        hrange, hreports, rfl⟩

theorem locate_ok_iff_found {bytes : Bytes} {s : Sighting} :
    locate bytes = .ok s ↔ Found bytes s := by
  refine ⟨fun h => ?_, locate_of_found⟩
  rcases found_or_fault bytes with ⟨t, ht⟩ | ⟨e, he⟩
  · rw [locate_of_found ht] at h
    cases h
    exact ht
  · rw [locate_of_fault he] at h
    cases h

theorem locate_error_iff_fault {bytes : Bytes} {e : DecodeError} :
    locate bytes = .error e ↔ Fault bytes e := by
  refine ⟨fun h => ?_, locate_of_fault⟩
  rcases found_or_fault bytes with ⟨t, ht⟩ | ⟨e', he⟩
  · rw [locate_of_found ht] at h
    cases h
  · rw [locate_of_fault he] at h
    cases h
    exact he

/-- The bytes are read exactly if their first line says three numbers in range, and then as the
record of these; the line is taken with its line feed. Every other byte string has one fault, the
first that applies: too many bytes, no `F:`, no line feed, no text, a flaw of the fields, a number
out of range. -/
theorem read_grammar (bytes : Bytes) :
    (∀ r, read bytes = .ok r ↔ ∃ start stop, Found bytes ⟨r, start, stop⟩) ∧
      (∀ s, locate bytes = .ok s ↔ Found bytes s) ∧
      ∀ e, read bytes = .error e ↔ Fault bytes e := by
  refine ⟨fun r => ?_, fun s => locate_ok_iff_found, fun e => ?_⟩
  · simp only [← locate_ok_iff_found, read]
    cases locate bytes with
    | ok s =>
      simp only [Except.map, Except.ok.injEq]
      constructor
      · rintro rfl
        exact ⟨s.start, s.stop, rfl⟩
      · rintro ⟨_, _, rfl⟩
        rfl
    | error e => simp [Except.map]
  · rw [← locate_error_iff_fault, read]
    cases locate bytes with
    | ok s => simp [Except.map]
    | error e => simp [Except.map]

end BurnerTelemetry.Wire.StatusLine
