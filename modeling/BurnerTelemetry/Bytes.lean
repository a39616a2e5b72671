/-!
Byte strings: the words on the wire, most and least significant byte first, and the offset at
which a pair of bytes first stands.
-/
namespace BurnerTelemetry

/-- A finite byte string, oldest byte first. -/
abbrev Bytes := List UInt8

namespace Bytes

/-- A word from its high and low byte. -/
def joinHalves (high low : UInt8) : UInt16 := high.toUInt16 <<< 8 ||| low.toUInt16

def highHalf (w : UInt16) : UInt8 := (w >>> 8).toUInt8

def lowHalf (w : UInt16) : UInt8 := w.toUInt8

/-- The first `count` bytes of a number, least significant byte first. -/
def ofNatLE : Nat → Nat → Bytes
  | 0, _ => []
  | count + 1, n => UInt8.ofNat n :: ofNatLE count (n / 256)

/-- The number whose bytes these are, least significant byte first. -/
def toNatLE : Bytes → Nat
  | [] => 0
  | b :: rest => b.toNat + 256 * toNatLE rest

@[simp] theorem length_ofNatLE (count n : Nat) : (ofNatLE count n).length = count := by
  induction count generalizing n with
  | zero => rfl
  | succ count ih => simp [ofNatLE, ih]

/-- The least offset at which `first` is followed by `second`. -/
def pairIndex? (first second : UInt8) : Bytes → Option Nat
  | a :: b :: rest =>
    if a = first ∧ b = second then some 0
    else (pairIndex? first second (b :: rest)).map (fun i => i + 1)
  | _ => none

/-- The greatest offset at which `first` is followed by `second`. -/
def lastPairIndex? (first second : UInt8) : Bytes → Option Nat
  | a :: b :: rest =>
    match lastPairIndex? first second (b :: rest) with
    | some i => some (i + 1)
    | none => if a = first ∧ b = second then some 0 else none
  | _ => none

theorem lastPairIndex?_lt {first second : UInt8} {bytes : Bytes} {i : Nat}
    (h : lastPairIndex? first second bytes = some i) : i + 1 < bytes.length := by
  fun_induction lastPairIndex? first second bytes generalizing i with
  | case1 a b rest j hj ih =>
    cases h
    have := ih hj
    simp only [List.length_cons] at this ⊢
    omega
  | case2 a b rest hn hab => cases h; simp
  | case3 => cases h
  | case4 => cases h

end Bytes

end BurnerTelemetry
