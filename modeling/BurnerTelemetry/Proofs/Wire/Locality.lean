import BurnerTelemetry.Proofs.Wire.Frame
import BurnerTelemetry.Proofs.Wire.StatusLine

/-!
What is found in some bytes and where. The frame that is found is the first good one, and the line
that is looked at runs from the first `F:` to the first line feed behind it. Neither depends on what
stands behind its last byte.
-/
namespace BurnerTelemetry.Wire

namespace Frame

theorem atFront?_eq_some_iff {bytes : Bytes} {f : Frame} :
    atFront? bytes = some f ↔ f.toBytes <+: bytes := by
  constructor
  · intro h
    unfold atFront? at h
    split at h
    · rename_i first flags fan high low last rest
      split at h
      · rename_i hmarks
        obtain ⟨rfl, rfl⟩ := hmarks
        cases h
        obtain ⟨hhigh, hlow⟩ := Bytes.halves_joinHalves high low
        refine ⟨rest, ?_⟩
        simp only [toBytes, hhigh, hlow, List.cons_append, List.nil_append]
      · cases h
    · cases h
  · rintro ⟨rest, rfl⟩
    exact atFront?_toBytes f rest

/-- A good frame of this reading stands at the offset. -/
def StandsAt (bytes : Bytes) (i : Nat) (r : Reading) : Prop :=
  ∃ f : Frame, f.toReading = .ok r ∧ f.toBytes <+: bytes.drop i

/-- No good frame stands anywhere in the bytes. -/
def NoneIn (bytes : Bytes) : Prop := ∀ i r, ¬ StandsAt bytes i r

namespace StandsAt

variable {bytes : Bytes} {i : Nat} {r : Reading}

theorem add_size_le (h : StandsAt bytes i r) : i + size ≤ bytes.length := by
  obtain ⟨f, _, hf⟩ := h
  exact Bytes.add_length_le_of_isPrefix_drop (by simp [size]) hf

theorem append_iff (h : i + size ≤ bytes.length) (rest : Bytes) :
    StandsAt (bytes ++ rest) i r ↔ StandsAt bytes i r := by
  unfold StandsAt
  constructor
  · rintro ⟨f, hr, hf⟩
    exact ⟨f, hr, (Bytes.isPrefix_drop_append (by simpa using h) rest).1 hf⟩
  · rintro ⟨f, hr, hf⟩
    exact ⟨f, hr, (Bytes.isPrefix_drop_append (by simpa using h) rest).2 hf⟩

theorem unique {q : Reading} (h : StandsAt bytes i r) (hq : StandsAt bytes i q) : r = q := by
  obtain ⟨f, hr, hf⟩ := h
  obtain ⟨g, hq, hg⟩ := hq
  have hsame : some f = some g :=
    (atFront?_eq_some_iff.2 hf).symm.trans (atFront?_eq_some_iff.2 hg)
  cases hsame
  exact Except.ok.inj (hr.symm.trans hq)

theorem drop_iff (k : Nat) : StandsAt (bytes.drop k) i r ↔ StandsAt bytes (k + i) r := by
  rw [StandsAt, StandsAt, List.drop_drop]

/-- A frame that starts in some bytes starts with a mark of theirs. -/
theorem startMark_mem {front rest : Bytes} (h : StandsAt (front ++ rest) i r)
    (hi : i < front.length) : startMark ∈ front := by
  obtain ⟨f, _, hf⟩ := h
  rw [List.drop_append_of_le_length (Nat.le_of_lt hi), List.drop_eq_getElem_cons hi] at hf
  exact (List.cons_prefix_cons.1 hf).1 ▸ List.getElem_mem hi

end StandsAt

theorem NoneIn.of_suffix {bytes last : Bytes} (h : NoneIn bytes) (hlast : last <:+ bytes) :
    NoneIn last := by
  obtain ⟨front, rfl⟩ := hlast
  intro i r hstands
  refine h (front.length + i) r ((StandsAt.drop_iff front.length).1 ?_)
  rwa [List.drop_left]

theorem NoneIn.of_prefix {bytes first : Bytes} (h : NoneIn bytes) (hfirst : first <+: bytes) :
    NoneIn first := by
  obtain ⟨rest, rfl⟩ := hfirst
  intro i r hstands
  exact h i r ((StandsAt.append_iff hstands.add_size_le rest).2 hstands)

theorem locateFrom_of_standsAt {start : Nat} {fault : DecodeError} {b : UInt8} {rest : Bytes}
    {r : Reading} (h : StandsAt (b :: rest) 0 r) :
    locateFrom start fault (b :: rest) = .ok ⟨r, start, start + size⟩ := by
  obtain ⟨f, hr, hf⟩ := h
  rw [List.drop_zero] at hf
  rw [locateFrom, atFront?_eq_some_iff.2 hf]
  simp only [hr]

theorem locateFrom_of_not_standsAt (start : Nat) (fault : DecodeError) {b : UInt8} {rest : Bytes}
    (h : ∀ r, ¬ StandsAt (b :: rest) 0 r) :
    ∃ later, locateFrom start fault (b :: rest) = locateFrom (start + 1) later rest := by
  rw [locateFrom]
  cases hfront : atFront? (b :: rest) with
  | none => exact ⟨fault, rfl⟩
  | some f =>
    cases hr : f.toReading with
    | ok r => exact absurd ⟨f, hr, atFront?_eq_some_iff.1 hfront⟩ (h r)
    | error e => exact ⟨e, by simp only [hr]⟩

/-- Either some good frame is the first one and is found, or there is none and none is found. -/
theorem locateFrom_cases (start : Nat) (fault : DecodeError) (bytes : Bytes) :
    (∃ i r, StandsAt bytes i r ∧ (∀ j < i, ∀ q, ¬ StandsAt bytes j q) ∧
      locateFrom start fault bytes = .ok ⟨r, start + i, start + i + size⟩) ∨
    (NoneIn bytes ∧ ∃ e, locateFrom start fault bytes = .error e) := by
  induction bytes generalizing start fault with
  | nil =>
    refine .inr ⟨?_, fault, rfl⟩
    intro i r h
    exact absurd h.add_size_le (by simp [size])
  | cons b rest ih =>
    by_cases hfront : ∃ r, StandsAt (b :: rest) 0 r
    · obtain ⟨r, hr⟩ := hfront
      exact .inl ⟨0, r, hr, fun j hj => absurd hj (Nat.not_lt_zero j), locateFrom_of_standsAt hr⟩
    · have hnone : ∀ r, ¬ StandsAt (b :: rest) 0 r := not_exists.1 hfront
      have hshift : ∀ j r, StandsAt (b :: rest) (j + 1) r ↔ StandsAt rest j r := fun j r => Iff.rfl
      obtain ⟨later, hlater⟩ := locateFrom_of_not_standsAt start fault hnone
      rw [hlater]
      obtain ⟨i, r, hr, hfirst, heq⟩ | ⟨hno, he⟩ := ih (start + 1) later
      · refine .inl ⟨i + 1, r, (hshift i r).2 hr, ?_, ?_⟩
        · intro j hj q
          cases j with
          | zero => exact hnone q
          | succ j => exact hfirst j (Nat.lt_of_succ_lt_succ hj) q
        · rw [heq, Nat.add_assoc start, Nat.add_comm 1]
      · refine .inr ⟨?_, he⟩
        intro i r
        cases i with
        | zero => exact hnone r
        | succ i => exact hno i r

theorem locate_cases (bytes : Bytes) :
    (∃ i r, StandsAt bytes i r ∧ (∀ j < i, ∀ q, ¬ StandsAt bytes j q) ∧
      locate bytes = .ok ⟨r, i, i + size⟩) ∨
    (NoneIn bytes ∧ ∃ e, locate bytes = .error e) := by
  rw [locate]
  split
  · rename_i hshort
    refine .inr ⟨?_, _, rfl⟩
    intro i r h
    have := h.add_size_le
    omega
  · have h := locateFrom_cases 0 .noFrame bytes
    simp only [Nat.zero_add] at h
    exact h

theorem locate_ok_iff {bytes : Bytes} {s : Sighting} :
    locate bytes = .ok s ↔ s.stop = s.start + size ∧ StandsAt bytes s.start s.reading ∧
      ∀ j < s.start, ∀ r, ¬ StandsAt bytes j r := by
  obtain ⟨i, r, hr, hfirst, heq⟩ | ⟨hno, e, heq⟩ := locate_cases bytes
  · rw [heq]
    constructor
    · intro h
      cases h
      exact ⟨rfl, hr, hfirst⟩
    · rintro ⟨hstop, hstands, hbefore⟩
      obtain ⟨reading, start, stop⟩ := s
      have hstart : i = start := by
        rcases Nat.lt_trichotomy i start with hlt | heq | hgt
        · exact absurd hr (hbefore i hlt r)
        · exact heq
        · exact absurd hstands (hfirst start hgt reading)
      subst hstart
      simp only at hstop
      rw [hr.unique hstands, hstop]
  · rw [heq]
    constructor
    · intro h
      cases h
    · rintro ⟨_, hstands, _⟩
      exact absurd hstands (hno _ _)

theorem locate_error_iff {bytes : Bytes} :
    (∃ e, locate bytes = .error e) ↔ NoneIn bytes := by
  obtain ⟨i, r, hr, _, heq⟩ | ⟨hno, he⟩ := locate_cases bytes
  · rw [heq]
    constructor
    · rintro ⟨e, he⟩
      cases he
    · exact fun hno => absurd hr (hno i r)
  · exact ⟨fun _ => hno, fun _ => he⟩

theorem locate_stop_le {bytes : Bytes} {s : Sighting} (h : locate bytes = .ok s) :
    s.stop ≤ bytes.length := by
  obtain ⟨hstop, hstands, _⟩ := locate_ok_iff.1 h
  have := hstands.add_size_le
  omega

/-- A frame is found by what stands in front of its end alone. -/
theorem locate_append_iff {bytes : Bytes} {s : Sighting} (h : s.stop ≤ bytes.length) (rest : Bytes) :
    locate (bytes ++ rest) = .ok s ↔ locate bytes = .ok s := by
  rw [locate_ok_iff, locate_ok_iff]
  constructor
  · rintro ⟨hstop, hstands, hfirst⟩
    refine ⟨hstop, (StandsAt.append_iff (by omega) rest).1 hstands, ?_⟩
    intro j hj r hr
    exact hfirst j hj r ((StandsAt.append_iff (by omega) rest).2 hr)
  · rintro ⟨hstop, hstands, hfirst⟩
    refine ⟨hstop, (StandsAt.append_iff (by omega) rest).2 hstands, ?_⟩
    intro j hj r hr
    exact hfirst j hj r ((StandsAt.append_iff (by omega) rest).1 hr)

end Frame

namespace StatusLine

/-- The line that is looked at: it starts at the first `F:`, and its line feed is the first one
behind that. -/
def FirstLine (bytes : Bytes) (start stop : Nat) : Prop :=
  startIndex? bytes = some start ∧ endIndex? bytes start = some stop

theorem startIndex?_append_iff {bytes : Bytes} {start : Nat} (h : start + 2 ≤ bytes.length)
    (rest : Bytes) : startIndex? (bytes ++ rest) = some start ↔ startIndex? bytes = some start := by
  simp only [startIndex?, Bytes.pairIndex?_eq_some_iff]
  constructor
  · rintro ⟨hpair, hfirst⟩
    refine ⟨(Bytes.isPrefix_drop_append (by simpa using h) rest).1 hpair, ?_⟩
    intro j hj hbad
    exact hfirst j hj ((Bytes.isPrefix_drop_append (by simp; omega) rest).2 hbad)
  · rintro ⟨hpair, hfirst⟩
    refine ⟨(Bytes.isPrefix_drop_append (by simpa using h) rest).2 hpair, ?_⟩
    intro j hj hbad
    exact hfirst j hj ((Bytes.isPrefix_drop_append (by simp; omega) rest).1 hbad)

theorem endIndex?_eq_some_iff {bytes : Bytes} {start stop : Nat} :
    endIndex? bytes start = some stop ↔ start ≤ stop ∧ bytes[stop]? = some lineFeed ∧
      ∀ j, start ≤ j → j < stop → bytes[j]? ≠ some lineFeed := by
  rw [endIndex?, Option.map_eq_some_iff]
  constructor
  · rintro ⟨i, hi, rfl⟩
    obtain ⟨hlt, hfeed, hbefore⟩ := List.findIdx?_eq_some_iff_getElem.1 hi
    refine ⟨Nat.le_add_right start i, ?_, ?_⟩
    · rw [← List.getElem?_drop, List.getElem?_eq_getElem hlt, beq_iff_eq.1 hfeed]
    · intro j hle hj hbad
      obtain ⟨k, rfl⟩ := Nat.exists_eq_add_of_le hle
      have hk : k < i := Nat.lt_of_add_lt_add_left hj
      rw [← List.getElem?_drop, List.getElem?_eq_getElem (Nat.lt_trans hk hlt)] at hbad
      exact hbefore k hk (beq_iff_eq.2 (Option.some.inj hbad))
  · rintro ⟨hle, hfeed, hbefore⟩
    obtain ⟨i, rfl⟩ := Nat.exists_eq_add_of_le hle
    rw [← List.getElem?_drop] at hfeed
    obtain ⟨hlt, hbyte⟩ := List.getElem?_eq_some_iff.1 hfeed
    refine ⟨i, List.findIdx?_eq_some_iff_getElem.2 ⟨hlt, beq_iff_eq.2 hbyte, ?_⟩, rfl⟩
    intro j hj hbad
    refine hbefore (start + j) (Nat.le_add_right start j) (Nat.add_lt_add_left hj start) ?_
    rw [← List.getElem?_drop, List.getElem?_eq_getElem (Nat.lt_trans hj hlt), beq_iff_eq.1 hbad]

theorem endIndex?_append_iff {bytes : Bytes} {start stop : Nat} (h : stop < bytes.length)
    (rest : Bytes) : endIndex? (bytes ++ rest) start = some stop ↔
      endIndex? bytes start = some stop := by
  have hsame : ∀ j ≤ stop, (bytes ++ rest)[j]? = bytes[j]? :=
    fun j hj => List.getElem?_append_left (Nat.lt_of_le_of_lt hj h)
  rw [endIndex?_eq_some_iff, endIndex?_eq_some_iff, hsame stop (Nat.le_refl stop)]
  constructor
  · rintro ⟨hle, hfeed, hbefore⟩
    exact ⟨hle, hfeed, fun j hj hlt => hsame j (Nat.le_of_lt hlt) ▸ hbefore j hj hlt⟩
  · rintro ⟨hle, hfeed, hbefore⟩
    exact ⟨hle, hfeed, fun j hj hlt => (hsame j (Nat.le_of_lt hlt)).symm ▸ hbefore j hj hlt⟩

namespace FirstLine

variable {bytes : Bytes} {start stop : Nat}

/-- Two bytes of the line are the `F:` in front. -/
theorem bounds (h : FirstLine bytes start stop) : start + 2 ≤ stop ∧ stop < bytes.length := by
  obtain ⟨hstart, hstop⟩ := h
  obtain ⟨hle, hfeed, _⟩ := endIndex?_eq_some_iff.1 hstop
  obtain ⟨rest, hpair⟩ := (Bytes.pairIndex?_eq_some_iff.1 hstart).1
  have hbyte : ∀ i, bytes[start + i]? = ([70, 58] ++ rest)[i]? := by
    intro i
    rw [hpair, List.getElem?_drop]
  have hfirst : stop ≠ start + 0 := by
    intro he
    rw [he, hbyte] at hfeed
    exact absurd hfeed (by simp [lineFeed])
  have hsecond : stop ≠ start + 1 := by
    intro he
    rw [he, hbyte] at hfeed
    exact absurd hfeed (by simp [lineFeed])
  exact ⟨by omega, (List.getElem?_eq_some_iff.1 hfeed).1⟩

theorem append_iff (h : stop < bytes.length) (rest : Bytes) :
    FirstLine (bytes ++ rest) start stop ↔ FirstLine bytes start stop := by
  constructor
  · intro hline
    have := hline.bounds
    exact ⟨(startIndex?_append_iff (by omega) rest).1 hline.1, (endIndex?_append_iff h rest).1 hline.2⟩
  · intro hline
    have := hline.bounds
    exact ⟨(startIndex?_append_iff (by omega) rest).2 hline.1, (endIndex?_append_iff h rest).2 hline.2⟩

theorem unique {start' stop' : Nat} (h : FirstLine bytes start stop)
    (h' : FirstLine bytes start' stop') : start = start' ∧ stop = stop' := by
  have hstart := Option.some.inj (h.1.symm.trans h'.1)
  subst hstart
  exact ⟨rfl, Option.some.inj (h.2.symm.trans h'.2)⟩

theorem start_le {i : Nat} (h : FirstLine bytes start stop)
    (hpair : [70, 58] <+: bytes.drop i) : start ≤ i := by
  by_contra hbefore
  exact (Bytes.pairIndex?_eq_some_iff.1 h.1).2 i (Nat.lt_of_not_le hbefore) hpair

end FirstLine

/-- An `F:` and a line feed behind it make a line. -/
theorem exists_firstLine {bytes : Bytes} {i : Nat} (hpair : [70, 58] <+: bytes.drop i)
    (hfeed : lineFeed ∈ bytes.drop i) : ∃ start stop, FirstLine bytes start stop := by
  obtain ⟨start, hle, hstart⟩ := Bytes.pairIndex?_le hpair
  have hlater : lineFeed ∈ bytes.drop start := (List.drop_suffix_drop_left bytes hle).mem hfeed
  cases hstop : endIndex? bytes start with
  | some stop => exact ⟨start, stop, hstart, hstop⟩
  | none =>
    rw [endIndex?, Option.map_eq_none_iff, List.findIdx?_eq_none_iff] at hstop
    exact absurd (hstop _ hlater) (by decide)

theorem between_append {bytes : Bytes} {start stop : Nat} (h : stop ≤ bytes.length) (rest : Bytes) :
    between (bytes ++ rest) start stop = between bytes start stop := by
  simp only [between, List.take_append_of_le_length h]

theorem fieldValue_error {name : Char} {field : List Char} {fault : LineFault}
    (h : fieldValue name field = .error fault) : fault ≠ .unterminated := by
  unfold fieldValue at h
  split at h
  · split at h
    · split at h <;> cases h
      decide
    · cases h
      decide
  · cases h
    decide

theorem takeField_error {name : Char} {fields : List (List Char)} {fault : LineFault}
    (h : takeField name fields = .error fault) : fault ≠ .unterminated := by
  cases fields with
  | nil =>
    cases h
    decide
  | cons field rest =>
    rw [takeField] at h
    cases hvalue : fieldValue name field with
    | error e =>
      rw [hvalue] at h
      cases h
      exact fieldValue_error hvalue
    | ok value =>
      rw [hvalue] at h
      cases h

theorem numbers_error {line : List Char} {fault : LineFault} (h : numbers line = .error fault) :
    fault ≠ .unterminated := by
  unfold numbers at h
  cases hflame : takeField 'F' (Text.splitAt ',' line) with
  | error e =>
    rw [hflame] at h
    cases h
    exact takeField_error hflame
  | ok flame =>
    cases hfan : takeField 'S' flame.2 with
    | error e =>
      simp only [hflame, bind, Except.bind, hfan] at h
      cases h
      exact takeField_error hfan
    | ok fan =>
      cases htemp : takeField 'T' fan.2 with
      | error e =>
        simp only [hflame, bind, Except.bind, hfan, htemp] at h
        cases h
        exact takeField_error htemp
      | ok temperature =>
        simp only [hflame, bind, Except.bind, hfan, htemp] at h
        split at h
        · cases h
        · cases h
          decide

/-- Numbers are refused for their range alone. -/
theorem ofNumbers_error {flame fan temperature : Int} {e : DecodeError}
    (h : ofNumbers flame fan temperature = .error e) :
    ∃ quantity value low high, e = .outOfRange quantity value low high := by
  unfold ofNumbers Quantity.check at h
  split at h
  · split at h
    · split at h
      · cases h
      · cases h
        exact ⟨_, _, _, _, rfl⟩
    · cases h
      exact ⟨_, _, _, _, rfl⟩
  · cases h
    exact ⟨_, _, _, _, rfl⟩

/-- A line that is there is never said to be missing or to have no end. -/
theorem ofLine_error {line : Bytes} {e : DecodeError} (h : ofLine line = .error e) :
    e ≠ .noLine ∧ e ≠ .malformedLine .unterminated := by
  unfold ofLine at h
  split at h
  · cases h
    decide
  · split at h
    · rename_i fault hnumbers
      cases h
      have := numbers_error hnumbers
      simp [this]
    · obtain ⟨quantity, value, low, high, rfl⟩ := ofNumbers_error h
      simp

/-- The first line is good, it is bad, or there is none that is complete. -/
theorem locate_cases {bytes : Bytes} (hsize : bytes.length < sizeLimit) :
    (∃ start stop r, FirstLine bytes start stop ∧ ofLine (between bytes start stop) = .ok r ∧
      locate bytes = .ok ⟨r, start, stop + 1⟩) ∨
    (∃ start stop e, FirstLine bytes start stop ∧ ofLine (between bytes start stop) = .error e ∧
      locate bytes = .error e) ∨
    ((∀ start stop, ¬ FirstLine bytes start stop) ∧
      (locate bytes = .error .noLine ∨ locate bytes = .error (.malformedLine .unterminated))) := by
  rw [locate, if_neg (Nat.not_le_of_lt hsize)]
  cases hstart : startIndex? bytes with
  | none =>
    refine .inr (.inr ⟨fun start stop h => ?_, .inl rfl⟩)
    rw [FirstLine, hstart] at h
    cases h.1
  | some start =>
    cases hstop : endIndex? bytes start with
    | none =>
      refine .inr (.inr ⟨fun start' stop h => ?_, .inr (by simp only [hstop])⟩)
      obtain ⟨hstart', hstop'⟩ := h
      rw [hstart] at hstart'
      cases hstart'
      rw [hstop] at hstop'
      cases hstop'
    | some stop =>
      cases hline : ofLine (between bytes start stop) with
      | ok r =>
        refine .inl ⟨start, stop, r, ⟨hstart, hstop⟩, hline, ?_⟩
        simp only [hstop, hline, Except.map]
      | error e =>
        refine .inr (.inl ⟨start, stop, e, ⟨hstart, hstop⟩, hline, ?_⟩)
        simp only [hstop, hline, Except.map]

theorem locate_ok_iff {bytes : Bytes} {s : Sighting} (hsize : bytes.length < sizeLimit) :
    locate bytes = .ok s ↔ ∃ stop, s.stop = stop + 1 ∧ FirstLine bytes s.start stop ∧
      ofLine (between bytes s.start stop) = .ok s.reading := by
  obtain ⟨start, stop, r, hline, hr, heq⟩ | ⟨start, stop, e, hline, hr, heq⟩ | ⟨hno, heq⟩ :=
    locate_cases hsize
  · rw [heq]
    constructor
    · intro h
      cases h
      exact ⟨stop, rfl, hline, hr⟩
    · rintro ⟨stop', hstop, hline', hr'⟩
      obtain ⟨reading, start', stop''⟩ := s
      obtain ⟨rfl, rfl⟩ := hline.unique hline'
      simp only at hstop hr'
      rw [hstop, Except.ok.inj (hr.symm.trans hr')]
  · rw [heq]
    constructor
    · intro h
      cases h
    · rintro ⟨stop', _, hline', hr'⟩
      obtain ⟨rfl, rfl⟩ := hline.unique hline'
      rw [hr] at hr'
      cases hr'
  · constructor
    · intro h
      rcases heq with heq | heq <;> rw [heq] at h <;> cases h
    · rintro ⟨stop, _, hline, _⟩
      exact absurd hline (hno _ _)

/-- A line is found by what stands in front of its end alone. -/
theorem locate_append_iff {bytes rest : Bytes} {s : Sighting} (h : s.stop ≤ bytes.length)
    (hsize : (bytes ++ rest).length < sizeLimit) :
    locate (bytes ++ rest) = .ok s ↔ locate bytes = .ok s := by
  have hbytes : bytes.length < sizeLimit := by
    rw [List.length_append] at hsize
    omega
  rw [locate_ok_iff hsize, locate_ok_iff hbytes]
  constructor
  · rintro ⟨stop, hstop, hline, hr⟩
    rw [between_append (by omega)] at hr
    exact ⟨stop, hstop, (FirstLine.append_iff (by omega) rest).1 hline, hr⟩
  · rintro ⟨stop, hstop, hline, hr⟩
    rw [← between_append (by omega) rest] at hr
    exact ⟨stop, hstop, (FirstLine.append_iff (by omega) rest).2 hline, hr⟩

end StatusLine

end BurnerTelemetry.Wire
