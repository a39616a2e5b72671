import BurnerTelemetry.Bytes.Lemmas
import BurnerTelemetry.Wire.Frame

/-!
Where frames are found. A good frame at the front of some bytes is found there, whatever follows
it, and no frame is found, good or faulty, where there is no start mark.
-/
namespace BurnerTelemetry.Wire

namespace Frame

/-- Seven bits of error code and one of flame come out of the flags as they went in. -/
theorem flags_ofStatus (flame : Bool) {errorCode : UInt8} (h : errorCode.toNat ≤ 127)
    (fan : UInt8) (temperature : UInt16) :
    ((ofStatus flame errorCode fan temperature).flags &&& 1 != 0) = flame ∧
      ((ofStatus flame errorCode fan temperature).flags >>> 1) &&& 0x7F = errorCode := by
  have codes : ∀ (n : Fin 128) (b : Bool),
      ((UInt8.ofNat n <<< 1 ||| if b then 1 else 0) &&& 1 != 0) = b ∧
        ((UInt8.ofNat n <<< 1 ||| if b then 1 else 0) >>> 1) &&& 0x7F = UInt8.ofNat n := by
    decide +kernel
  have he := codes ⟨errorCode.toNat, Nat.lt_succ_of_le h⟩ flame
  simp only [UInt8.ofNat_toNat] at he
  exact he

theorem toReading_ofStatus (flame : Bool) {errorCode fan : UInt8} {temperature : UInt16}
    (hcode : errorCode.toNat ≤ 127) (hfan : fan.toNat ≤ Reading.fanLimit)
    (htemp : temperature.toNat ≤ Reading.temperatureLimit) :
    (ofStatus flame errorCode fan temperature).toReading =
      .ok ⟨flame, fan, temperature.toInt16, errorCode, true⟩ := by
  obtain ⟨hflame, hbits⟩ := flags_ofStatus flame hcode fan temperature
  have hfan' : ¬ Reading.fanLimit < (ofStatus flame errorCode fan temperature).fan.toNat :=
    Nat.not_lt_of_le hfan
  have htemp' : ¬ Reading.temperatureLimit <
      (ofStatus flame errorCode fan temperature).temperature.toNat := Nat.not_lt_of_le htemp
  rw [toReading, if_neg hfan', if_neg htemp', hflame, hbits]
  rfl

theorem atFront?_toBytes (f : Frame) (rest : Bytes) : atFront? (f.toBytes ++ rest) = some f := by
  simp [toBytes, atFront?, Bytes.joinHalves_halves]

/-- A good frame at the front is the one that is found. -/
theorem locate_toBytes {f : Frame} {r : Reading} (h : f.toReading = .ok r) (rest : Bytes) :
    locate (f.toBytes ++ rest) = .ok ⟨r, 0, size⟩ := by
  have hlen : ¬ (f.toBytes ++ rest).length < size := by
    simp
  rw [locate, if_neg hlen]
  have hfront := atFront?_toBytes f rest
  simp only [toBytes, List.cons_append] at hfront ⊢
  rw [locateFrom, hfront]
  simp only [h, Nat.zero_add]

theorem atFront?_of_ne {b : UInt8} (h : b ≠ startMark) (rest : Bytes) :
    atFront? (b :: rest) = none := by
  unfold atFront?
  split
  · rename_i hbytes
    cases hbytes
    rw [if_neg (fun hmarks => h hmarks.1)]
  · rfl

/-- No frame starts where there is no start mark. -/
theorem locateFrom_append {front : Bytes} (h : startMark ∉ front) (start : Nat)
    (fault : DecodeError) (rest : Bytes) :
    locateFrom start fault (front ++ rest) = locateFrom (start + front.length) fault rest := by
  induction front generalizing start with
  | nil => rfl
  | cons b more ih =>
    have hb : b ≠ startMark := fun he => h (he ▸ List.mem_cons_self)
    rw [List.cons_append, locateFrom, atFront?_of_ne hb,
      ih (fun hm => h (List.mem_cons_of_mem b hm)), List.length_cons, Nat.add_assoc,
      Nat.add_comm 1]

/-- A frame that is found stands behind whatever holds no start mark. -/
theorem length_le_of_locate {front rest : Bytes} (h : startMark ∉ front) {s : Sighting}
    (hs : locate (front ++ rest) = .ok s) : front.length ≤ s.start := by
  rw [locate] at hs
  split at hs
  · cases hs
  · rw [locateFrom_append h, Nat.zero_add] at hs
    exact (locateFrom_stop hs).2

theorem locate_of_not_mem {bytes : Bytes} (h : startMark ∉ bytes) (hsize : size ≤ bytes.length) :
    locate bytes = .error .noFrame := by
  have hend := locateFrom_append h 0 .noFrame []
  rw [List.append_nil, locateFrom] at hend
  rw [locate, if_neg (Nat.not_lt_of_le hsize), hend]

theorem faultyCount_of_not_mem {bytes : Bytes} (h : startMark ∉ bytes) : faultyCount bytes = 0 := by
  induction bytes with
  | nil => rfl
  | cons b rest ih =>
    have hb : b ≠ startMark := fun he => h (he ▸ List.mem_cons_self)
    rw [faultyCount, isFaultyAtFront, atFront?_of_ne hb,
      ih (fun hm => h (List.mem_cons_of_mem b hm))]
    rfl

/-- A good frame on its own holds no faulty one. -/
theorem faultyCount_toBytes {f : Frame} {r : Reading} (h : f.toReading = .ok r) :
    faultyCount f.toBytes = 0 := by
  have hfront := atFront?_toBytes f []
  simp only [toBytes, List.append_nil] at hfront
  simp only [toBytes, faultyCount, isFaultyAtFront, hfront, h]
  simp [atFront?, Except.toOption]

end Frame

end BurnerTelemetry.Wire
