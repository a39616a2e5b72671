import BurnerTelemetry.Proofs.Wire.Locality
import Mathlib.Data.List.Range

/-!
The search for a frame, offset by offset. It finds the least offset at which both marks are in place
and the fields in range, and without one it names the fault of the greatest marked offset. A frame
in range is found behind anything that holds no start mark.
-/
namespace BurnerTelemetry.Wire.Frame

/-- The byte at an offset, zero where the bytes have come to their end. -/
def byteAt (bytes : Bytes) (i : Nat) : UInt8 := bytes.getD i 0

/-- Both marks of a frame are in place. -/
def MarkedAt (bytes : Bytes) (i : Nat) : Prop :=
  bytes[i]? = some startMark ∧ bytes[i + 5]? = some endMark

/-- The temperature of a frame, high byte first. -/
def temperatureAt (bytes : Bytes) (i : Nat) : Nat :=
  256 * (byteAt bytes (i + 3)).toNat + (byteAt bytes (i + 4)).toNat

def InRangeAt (bytes : Bytes) (i : Nat) : Prop :=
  (byteAt bytes (i + 2)).toNat ≤ 100 ∧ temperatureAt bytes i ≤ 500

instance (bytes : Bytes) (i : Nat) : Decidable (MarkedAt bytes i) :=
  inferInstanceAs (Decidable (_ ∧ _))

instance (bytes : Bytes) (i : Nat) : Decidable (InRangeAt bytes i) :=
  inferInstanceAs (Decidable (_ ∧ _))

/-- What the fields of a frame say: bit 0 of the flags is the flame, the others are the error
code. -/
def readingAt (bytes : Bytes) (i : Nat) : Reading where
  flame := (byteAt bytes (i + 1)).toNat % 2 == 1
  fan := byteAt bytes (i + 2)
  temperature := Int16.ofNat (temperatureAt bytes i)
  errorCode := UInt8.ofNat ((byteAt bytes (i + 1)).toNat / 2)
  valid := true

/-- What is wrong with the fields of a frame out of range, the fan speed first. -/
def faultAt (bytes : Bytes) (i : Nat) : DecodeError :=
  if 100 < (byteAt bytes (i + 2)).toNat then
    .outOfRange .fan (byteAt bytes (i + 2)).toNat 0 100
  else .outOfRange .temperature (temperatureAt bytes i) 0 500

/-- The six bytes at an offset as a frame. -/
def frameAt (bytes : Bytes) (i : Nat) : Frame :=
  ⟨byteAt bytes (i + 1), byteAt bytes (i + 2),
    Bytes.joinHalves (byteAt bytes (i + 3)) (byteAt bytes (i + 4))⟩

variable {bytes : Bytes} {i : Nat}

theorem MarkedAt.add_size_le (h : MarkedAt bytes i) : i + size ≤ bytes.length := by
  have hlast := (List.getElem?_eq_some_iff.1 h.2).1
  simp only [size]
  omega

theorem atFront?_eq (bytes : Bytes) :
    atFront? bytes = if MarkedAt bytes 0 then some (frameAt bytes 0) else none := by
  unfold atFront?
  split
  · rename_i first flags fan high low last rest
    have hmarks : MarkedAt (first :: flags :: fan :: high :: low :: last :: rest) 0 ↔
        first = startMark ∧ last = endMark := by
      simp [MarkedAt]
    simp only [hmarks]
    rfl
  · rename_i hshort
    rw [if_neg]
    intro hmarked
    have hlength := hmarked.add_size_le
    match bytes with
    | [] | [_] | [_, _] | [_, _, _] | [_, _, _, _] | [_, _, _, _, _] => simp [size] at hlength
    | first :: flags :: fan :: high :: low :: last :: rest =>
      exact hshort first flags fan high low last rest rfl

theorem atFront?_drop (bytes : Bytes) (i : Nat) :
    atFront? (bytes.drop i) = if MarkedAt bytes i then some (frameAt bytes i) else none := by
  induction i generalizing bytes with
  | zero => exact atFront?_eq bytes
  | succ i ih =>
    cases bytes with
    | nil => rfl
    | cons b rest => exact ih rest

theorem toNat_temperature_frameAt (bytes : Bytes) (i : Nat) :
    (frameAt bytes i).temperature.toNat = temperatureAt bytes i := Bytes.toNat_joinHalves _ _

/-- The flags, bit by bit and as a number. -/
theorem flags_eq (flags : UInt8) : (flags &&& 1 != 0) = (flags.toNat % 2 == 1) ∧
    (flags >>> 1) &&& 0x7F = UInt8.ofNat (flags.toNat / 2) := by
  have codes : ∀ n : Fin 256, (UInt8.ofNat n &&& 1 != 0) = (n.val % 2 == 1) ∧
      (UInt8.ofNat n >>> 1) &&& 0x7F = UInt8.ofNat (n.val / 2) := by
    decide +kernel
  have hflags := codes ⟨flags.toNat, flags.toNat_lt⟩
  simp only [UInt8.ofNat_toNat] at hflags
  exact hflags

/-- What the fields of a frame say. -/
def reading (f : Frame) : Reading :=
  ⟨f.flags.toNat % 2 == 1, f.fan, f.temperature.toInt16, UInt8.ofNat (f.flags.toNat / 2), true⟩

theorem toReading_of_limits {f : Frame} (hfan : f.fan.toNat ≤ Reading.fanLimit)
    (htemp : f.temperature.toNat ≤ Reading.temperatureLimit) : f.toReading = .ok f.reading := by
  obtain ⟨hflame, hcode⟩ := flags_eq f.flags
  rw [toReading, if_neg (Nat.not_lt_of_le hfan), if_neg (Nat.not_lt_of_le htemp), hflame, hcode]
  rfl

theorem reading_frameAt (bytes : Bytes) (i : Nat) :
    (frameAt bytes i).reading = readingAt bytes i := by
  have hword : (frameAt bytes i).temperature.toInt16 = Int16.ofNat (temperatureAt bytes i) := by
    rw [← toNat_temperature_frameAt, ← UInt16.toInt16_ofNat', UInt16.ofNat_toNat]
  rw [reading, hword]
  rfl

theorem toReading_frameAt (bytes : Bytes) (i : Nat) :
    (frameAt bytes i).toReading =
      if InRangeAt bytes i then .ok (readingAt bytes i) else .error (faultAt bytes i) := by
  have htemperature := toNat_temperature_frameAt bytes i
  by_cases hrange : InRangeAt bytes i
  · rw [if_pos hrange, ← reading_frameAt]
    exact toReading_of_limits hrange.1 (Nat.le_trans (Nat.le_of_eq htemperature) hrange.2)
  · rw [if_neg hrange, toReading, faultAt]
    by_cases hfan : 100 < (byteAt bytes (i + 2)).toNat
    · have hfanHigh : Reading.fanLimit < (frameAt bytes i).fan.toNat := hfan
      rw [if_pos hfanHigh, if_pos hfan]
      rfl
    · have hfanFine : ¬ Reading.fanLimit < (frameAt bytes i).fan.toNat := hfan
      have htempHigh : Reading.temperatureLimit < temperatureAt bytes i := by
        by_contra htemp
        exact hrange ⟨Nat.le_of_not_lt hfan, Nat.le_of_not_lt htemp⟩
      rw [if_neg hfanFine, if_neg hfan, htemperature, if_pos htempHigh]
      rfl

/-- A frame that stands at an offset is marked and in range, and its reading is what its fields
say. -/
theorem standsAt_iff {r : Reading} :
    StandsAt bytes i r ↔ (MarkedAt bytes i ∧ InRangeAt bytes i) ∧ r = readingAt bytes i := by
  have hfront : ∀ f : Frame,
      f.toBytes <+: bytes.drop i ↔ MarkedAt bytes i ∧ frameAt bytes i = f := by
    intro f
    rw [← atFront?_eq_some_iff, atFront?_drop]
    by_cases hmarked : MarkedAt bytes i
    · rw [if_pos hmarked, Option.some_inj]
      exact ⟨fun h => ⟨hmarked, h⟩, fun h => h.2⟩
    · rw [if_neg hmarked]
      exact ⟨nofun, fun h => absurd h.1 hmarked⟩
  simp only [StandsAt, hfront]
  constructor
  · rintro ⟨f, hreading, hmarked, rfl⟩
    rw [toReading_frameAt] at hreading
    split at hreading
    · rename_i hrange
      exact ⟨⟨hmarked, hrange⟩, (Except.ok.inj hreading).symm⟩
    · cases hreading
  · rintro ⟨⟨hmarked, hrange⟩, rfl⟩
    exact ⟨frameAt bytes i, by rw [toReading_frameAt, if_pos hrange], hmarked, rfl⟩

theorem noneIn_iff : NoneIn bytes ↔ ∀ i, ¬ (MarkedAt bytes i ∧ InRangeAt bytes i) := by
  simp only [NoneIn, standsAt_iff]
  exact ⟨fun h i hi => h i _ ⟨hi, rfl⟩, fun h i r hi => h i hi.1⟩

/-- This fault is that of the greatest marked offset, or the given one when nothing is marked. -/
def LastFault (bytes : Bytes) (fault e : DecodeError) : Prop :=
  (∃ i, MarkedAt bytes i ∧ (∀ j, MarkedAt bytes j → j ≤ i) ∧ e = faultAt bytes i) ∨
    (∀ i, ¬ MarkedAt bytes i) ∧ e = fault

theorem lastFault_cons_of_marked {b : UInt8} {rest : Bytes} {fault e : DecodeError}
    (hmarked : MarkedAt (b :: rest) 0) (h : LastFault rest (faultAt (b :: rest) 0) e) :
    LastFault (b :: rest) fault e := by
  rcases h with ⟨i, hi, hlast, he⟩ | ⟨hnone, he⟩
  · refine .inl ⟨i + 1, hi, ?_, he⟩
    intro j hj
    cases j with
    | zero => exact Nat.zero_le _
    | succ j => exact Nat.succ_le_succ (hlast j hj)
  · refine .inl ⟨0, hmarked, ?_, he⟩
    intro j hj
    cases j with
    | zero => exact Nat.le_refl 0
    | succ j => exact absurd hj (hnone j)

theorem lastFault_cons_of_not_marked {b : UInt8} {rest : Bytes} {fault e : DecodeError}
    (hmarked : ¬ MarkedAt (b :: rest) 0) (h : LastFault rest fault e) :
    LastFault (b :: rest) fault e := by
  rcases h with ⟨i, hi, hlast, he⟩ | ⟨hnone, he⟩
  · refine .inl ⟨i + 1, hi, ?_, he⟩
    intro j hj
    cases j with
    | zero => exact absurd hj hmarked
    | succ j => exact Nat.succ_le_succ (hlast j hj)
  · refine .inr ⟨?_, he⟩
    intro j
    cases j with
    | zero => exact hmarked
    | succ j => exact hnone j

/-- A search that finds nothing names the last fault it has met. -/
theorem locateFrom_lastFault (start : Nat) (fault : DecodeError) (h : NoneIn bytes) :
    ∃ e, locateFrom start fault bytes = .error e ∧ LastFault bytes fault e := by
  induction bytes generalizing start fault with
  | nil => exact ⟨fault, rfl, .inr ⟨fun i hi => absurd hi.add_size_le (by simp [size]), rfl⟩⟩
  | cons b rest ih =>
    have hrest : NoneIn rest := h.of_suffix (List.suffix_cons b rest)
    rw [locateFrom, atFront?_eq]
    by_cases hmarked : MarkedAt (b :: rest) 0
    · have hrange : ¬ InRangeAt (b :: rest) 0 := fun hr => noneIn_iff.1 h 0 ⟨hmarked, hr⟩
      obtain ⟨e, he, hlast⟩ := ih (start + 1) (faultAt (b :: rest) 0) hrest
      refine ⟨e, ?_, lastFault_cons_of_marked hmarked hlast⟩
      simp only [if_pos hmarked, toReading_frameAt, if_neg hrange]
      exact he
    · obtain ⟨e, he, hlast⟩ := ih (start + 1) fault hrest
      refine ⟨e, ?_, lastFault_cons_of_not_marked hmarked hlast⟩
      simp only [if_neg hmarked]
      exact he

theorem isFaultyAtFront_eq (bytes : Bytes) :
    isFaultyAtFront bytes = decide (MarkedAt bytes 0 ∧ ¬ InRangeAt bytes 0) := by
  rw [isFaultyAtFront, atFront?_eq]
  by_cases hmarked : MarkedAt bytes 0
  · by_cases hrange : InRangeAt bytes 0
    · simp [hmarked, toReading_frameAt, hrange, Except.toOption]
    · simp [hmarked, toReading_frameAt, hrange, Except.toOption]
  · simp [hmarked]

/-- Faulty frames are counted at every offset. -/
theorem faultyCount_eq_countP (bytes : Bytes) : faultyCount bytes =
    (List.range bytes.length).countP (fun i => decide (MarkedAt bytes i ∧ ¬ InRangeAt bytes i)) := by
  induction bytes with
  | nil => rfl
  | cons b rest ih =>
    rw [faultyCount, ih, isFaultyAtFront_eq, List.length_cons, List.range_succ_eq_map,
      List.countP_cons, List.countP_map, Nat.add_comm]
    rfl

theorem faultyCount_pos_iff :
    0 < faultyCount bytes ↔ ∃ i, MarkedAt bytes i ∧ ¬ InRangeAt bytes i := by
  rw [faultyCount_eq_countP, List.countP_pos_iff]
  simp only [List.mem_range, decide_eq_true_iff]
  constructor
  · rintro ⟨i, _, hi⟩
    exact ⟨i, hi⟩
  · rintro ⟨i, hi⟩
    have hbound := hi.1.add_size_le
    simp only [size] at hbound
    exact ⟨i, by omega, hi⟩

theorem faultAt_outOfRange (bytes : Bytes) (i : Nat) :
    ∃ quantity value low high, faultAt bytes i = .outOfRange quantity value low high := by
  rw [faultAt]
  split
  · exact ⟨_, _, _, _, rfl⟩
  · exact ⟨_, _, _, _, rfl⟩

theorem LastFault.ne_tooShort {e : DecodeError} (h : LastFault bytes .noFrame e)
    (length needed : Nat) : e ≠ .tooShort length needed := by
  rcases h with ⟨i, _, _, rfl⟩ | ⟨_, rfl⟩
  · obtain ⟨_, _, _, _, hfault⟩ := faultAt_outOfRange bytes i
    rw [hfault]
    nofun
  · nofun

theorem locate_lastFault (hsize : size ≤ bytes.length) (h : NoneIn bytes) :
    ∃ e, locate bytes = .error e ∧ LastFault bytes .noFrame e := by
  rw [locate, if_neg (Nat.not_lt_of_le hsize)]
  exact locateFrom_lastFault 0 .noFrame h

/-- Too few bytes are all that is said of too few bytes, and of nothing else. -/
theorem locate_tooShort_iff {length needed : Nat} :
    locate bytes = .error (.tooShort length needed) ↔
      bytes.length < size ∧ length = bytes.length ∧ needed = size := by
  by_cases hsize : bytes.length < size
  · rw [locate, if_pos hsize]
    constructor
    · intro h
      cases h
      exact ⟨hsize, rfl, rfl⟩
    · rintro ⟨_, rfl, rfl⟩
      rfl
  · refine ⟨fun h => ?_, fun h => absurd h.1 hsize⟩
    obtain ⟨e, he, hlast⟩ :=
      locate_lastFault (Nat.le_of_not_lt hsize) (locate_error_iff.1 ⟨_, h⟩)
    rw [he] at h
    exact absurd (Except.error.inj h) (hlast.ne_tooShort length needed)

theorem locate_ok_iff_least {s : Sighting} : locate bytes = .ok s ↔
    ∃ i, (MarkedAt bytes i ∧ InRangeAt bytes i) ∧
      (∀ j < i, ¬ (MarkedAt bytes j ∧ InRangeAt bytes j)) ∧
        s = ⟨readingAt bytes i, i, i + size⟩ := by
  simp only [locate_ok_iff, standsAt_iff]
  constructor
  · rintro ⟨hstop, ⟨hgood, hreading⟩, hfirst⟩
    refine ⟨s.start, hgood, fun j hj hbad => hfirst j hj _ ⟨hbad, rfl⟩, ?_⟩
    rw [← hreading, ← hstop]
  · rintro ⟨i, hgood, hfirst, rfl⟩
    exact ⟨rfl, ⟨hgood, rfl⟩, fun j hj r hbad => hfirst j hj hbad.1⟩

/-- Where no frame is found a field is out of range exactly if a faulty frame was counted. -/
theorem locate_outOfRange_iff :
    (∃ quantity value low high, locate bytes = .error (.outOfRange quantity value low high)) ↔
      (∃ e, locate bytes = .error e) ∧ 0 < faultyCount bytes := by
  rw [faultyCount_pos_iff]
  constructor
  · rintro ⟨quantity, value, low, high, h⟩
    refine ⟨⟨_, h⟩, ?_⟩
    have hnone := locate_error_iff.1 ⟨_, h⟩
    have hsize : size ≤ bytes.length := by
      by_contra hshort
      rw [locate, if_pos (Nat.lt_of_not_le hshort)] at h
      cases h
    obtain ⟨e, he, ⟨i, hmarked, _, _⟩ | ⟨_, rfl⟩⟩ := locate_lastFault hsize hnone
    · exact ⟨i, hmarked, fun hrange => noneIn_iff.1 hnone i ⟨hmarked, hrange⟩⟩
    · rw [he] at h
      cases h
  · rintro ⟨herror, i, hmarked, _⟩
    have hsize : size ≤ bytes.length := Nat.le_trans (Nat.le_add_left _ _) hmarked.add_size_le
    obtain ⟨e, he, ⟨j, _, _, rfl⟩ | ⟨hnone, _⟩⟩ :=
      locate_lastFault hsize (locate_error_iff.1 herror)
    · obtain ⟨quantity, value, low, high, hfault⟩ := faultAt_outOfRange bytes j
      exact ⟨quantity, value, low, high, by rw [he, hfault]⟩
    · exact absurd hmarked (hnone i)

/-- A good frame is found behind whatever holds no start mark. -/
theorem locate_behind {front : Bytes} (hfront : startMark ∉ front) {f : Frame} {r : Reading}
    (h : f.toReading = .ok r) (rest : Bytes) :
    locate (front ++ (f.toBytes ++ rest)) = .ok ⟨r, front.length, front.length + size⟩ := by
  have hlength : ¬ (front ++ (f.toBytes ++ rest)).length < size := by
    simp only [List.length_append, length_toBytes]
    omega
  have hstands : StandsAt (f.toBytes ++ rest) 0 r :=
    ⟨f, h, by rw [List.drop_zero]; exact List.prefix_append _ _⟩
  rw [locate, if_neg hlength, locateFrom_append hfront, Nat.zero_add]
  exact locateFrom_of_standsAt hstands

/-- Fewer bytes than a frame has are too short. Otherwise the least offset at which both marks are in
place and the fields in range is the one that is found, with what the fields say, and if there is
none the fault is that of the greatest marked offset, or that nothing is marked. Faulty frames are
counted at every offset, and a search that fails finds a field out of range exactly if there is one.
A frame made of values in range is found, as it was made, behind anything without a start mark and
before anything at all. -/
theorem locate_exact :
    (∀ bytes : Bytes,
      (∀ length needed, locate bytes = .error (.tooShort length needed) ↔
        bytes.length < size ∧ length = bytes.length ∧ needed = size) ∧
      (∀ s, locate bytes = .ok s ↔ ∃ i, (MarkedAt bytes i ∧ InRangeAt bytes i) ∧
        (∀ j < i, ¬ (MarkedAt bytes j ∧ InRangeAt bytes j)) ∧
          s = ⟨readingAt bytes i, i, i + size⟩) ∧
      (size ≤ bytes.length → (∀ i, ¬ (MarkedAt bytes i ∧ InRangeAt bytes i)) →
        ∃ e, locate bytes = .error e ∧ LastFault bytes .noFrame e) ∧
      faultyCount bytes = (List.range bytes.length).countP
        (fun i => decide (MarkedAt bytes i ∧ ¬ InRangeAt bytes i)) ∧
      ((∃ quantity value low high, locate bytes = .error (.outOfRange quantity value low high)) ↔
        (∃ e, locate bytes = .error e) ∧ 0 < faultyCount bytes)) ∧
    ∀ (flame : Bool) (errorCode fan : UInt8) (temperature : UInt16) (front rest : Bytes),
      errorCode.toNat ≤ 127 → fan.toNat ≤ 100 → temperature.toNat ≤ 500 → startMark ∉ front →
        locate (front ++ ((ofStatus flame errorCode fan temperature).toBytes ++ rest)) =
          .ok ⟨⟨flame, fan, temperature.toInt16, errorCode, true⟩, front.length,
            front.length + size⟩ := by
  constructor
  · intro bytes
    exact ⟨fun _ _ => locate_tooShort_iff, fun _ => locate_ok_iff_least,
      fun hsize hnone => locate_lastFault hsize (noneIn_iff.2 hnone), faultyCount_eq_countP bytes,
      locate_outOfRange_iff⟩
  · intro flame errorCode fan temperature front rest hcode hfan htemp hfront
    exact locate_behind hfront (toReading_ofStatus flame hcode hfan htemp) rest

/-- Of two faulty frames the second is named, and a good one is found between noise and the front of
another. -/
theorem locate_exact_faulty :
    let faulty : Bytes := [0xAA, 0, 101, 0, 16, 0x55, 0xAA, 0, 16, 1, 0xF5, 0x55]
    (∃ e, locate faulty = .error e ∧ LastFault faulty .noFrame e) ∧
      locate faulty = .error (.outOfRange .temperature 501 0 500) ∧
      (startMark ∉ [0x13, 0x55] ∧
        locate ([0x13, 0x55] ++ ((ofStatus true 5 50 300).toBytes ++ [0xAA, 1])) =
          .ok ⟨⟨true, 50, 300, 5, true⟩, 2, 8⟩) := by
  intro faulty
  have hnone : ∀ i, ¬ (MarkedAt faulty i ∧ InRangeAt faulty i) :=
    noneIn_iff.1 (locate_error_iff.1 ⟨.outOfRange .temperature 501 0 500, by decide +kernel⟩)
  have hfront : startMark ∉ [0x13, 0x55] := by decide
  refine ⟨(locate_exact.1 faulty).2.2.1 (by decide) hnone, by decide +kernel, hfront, ?_⟩
  exact locate_exact.2 true 5 50 300 _ _ (by decide) (by decide) (by decide) hfront

end BurnerTelemetry.Wire.Frame
