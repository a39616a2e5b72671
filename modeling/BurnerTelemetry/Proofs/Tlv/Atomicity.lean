import BurnerTelemetry.Proofs.Tlv.FailClosed
import BurnerTelemetry.Proofs.Tlv.WriterCalls

/-!
Sessions of a writer, call by call. What a call needs and what forbids it is said here of the call
itself, not of the bytes it would write. Main statements: a call fails exactly when something
forbids it, and then it leaves no trace; one that succeeds changes the bytes behind those in use, as
many as it needs, and no others. So the bytes in use tell the calls that succeeded and nothing else,
and a reader reads these calls back.
-/
namespace BurnerTelemetry.Tlv

namespace Encoder

/-- The least width that will do, of one, two and four bytes. -/
def narrowest (holds : Nat → Bool) : Nat := ([1, 2].find? holds).getD 4

/-- The width of a number that has no sign. -/
def unsignedWidth (n : Nat) : Nat := narrowest fun width => decide (n < 256 ^ width)

/-- The width of a number in two's complement. -/
def signedWidth (i : Int) : Nat :=
  narrowest fun width => decide (-(2 ^ (8 * width - 1)) ≤ i ∧ i < 2 ^ (8 * width - 1))

theorem bytes_ofUnsigned (v : UInt32) : (Width.ofUnsigned v).bytes = unsignedWidth v.toNat := by
  unfold Width.ofUnsigned unsignedWidth narrowest
  by_cases hone : v.toNat < 256
  · simp [hone, Width.bytes]
  · by_cases htwo : v.toNat < 65536
    · simp [hone, htwo, Width.bytes]
    · simp [hone, htwo, Width.bytes]

theorem bytes_ofSigned (v : Int32) : (Width.ofSigned v).bytes = signedWidth v.toInt := by
  unfold Width.ofSigned signedWidth narrowest
  by_cases hone : -128 ≤ v.toInt ∧ v.toInt < 128
  · simp [hone, Width.bytes]
  · by_cases htwo : -32768 ≤ v.toInt ∧ v.toInt < 32768
    · simp [hone, htwo, Width.bytes]
    · simp [hone, htwo, Width.bytes]

example : signedWidth (-128) = 1 ∧ signedWidth 128 = 2 ∧ unsignedWidth 65536 = 4 := by decide

namespace Call

/-- The number of bytes that a call needs. -/
def size : Call → Nat
  | .uint8 _ value => 2 + unsignedWidth value.toNat
  | .uint16 _ value => 2 + unsignedWidth value.toNat
  | .uint32 _ value => 2 + unsignedWidth value.toNat
  | .int8 _ value => 2 + signedWidth value.toInt
  | .int16 _ value => 2 + signedWidth value.toInt
  | .int32 _ value => 2 + signedWidth value.toInt
  | .boolean _ _ | .start _ _ => 2
  | .text _ value => 3 + value.utf8ByteSize
  | .stop => 1

theorem size_item (call : Call) : call.item.size = call.size := by
  cases call with
  | text tag value => simp [item, size]
  | boolean tag value => rfl
  | start tag container => simp [item, size]
  | stop => rfl
  | _ => simp [item, size, bytes_ofUnsigned, bytes_ofSigned]

/-- The number of bytes of the text, if the call has one. -/
def textSize : Call → Nat
  | .text _ value => value.utf8ByteSize
  | _ => 0

def isStart : Call → Bool
  | .start _ _ => true
  | _ => false

/-- The tag of what the call writes; what has none stands as under tag 0. -/
def tag : Call → UInt8
  | .uint8 tag _ | .uint16 tag _ | .uint32 tag _ | .int8 tag _ | .int16 tag _ | .int32 tag _ => tag
  | .boolean tag _ | .text tag _ | .start tag _ => tag
  | .stop => 0

/-- The first check that a call fails: its text, its containers, its tag, its space. -/
def fault? (call : Call) (e : Encoder) : Option WriteError :=
  if 255 < call.textSize then some (.textTooLong call.textSize)
  else if call.isStart ∧ e.depth = 8 then some .nestingTooDeep
  else if call = .stop ∧ e.depth = 0 then some .noOpenContainer
  else if e.containers.head? = some .array ∧ call.tag ≠ 0 then some (.arrayItemTag call.tag)
  else if e.remaining < call.size then some (.overflow call.size e.remaining)
  else none

theorem fault?_misplaced {e : Encoder} {item : Item} {fault : WriteError}
    (h : e.placeFault? item = some fault) : e.fault? item = some fault := by
  rw [Encoder.fault?, h]

/-- Past the checks of its text and its containers, a call is checked for its tag and its space. -/
theorem fault?_placed {e : Encoder} {call : Call}
    (hplace : e.placeFault? call.item = e.tagFault? call.tag) (htext : ¬ 255 < call.textSize)
    (hstart : ¬ (call.isStart ∧ e.depth = 8)) (hstop : ¬ (call = .stop ∧ e.depth = 0)) :
    e.fault? call.item = call.fault? e := by
  rw [fault?, if_neg htext, if_neg hstart, if_neg hstop, Encoder.fault?, hplace, size_item,
    tagFault?]
  by_cases htag : e.containers.head? = some .array ∧ call.tag ≠ 0
  · rw [if_pos htag, if_pos htag]
  · rw [if_neg htag, if_neg htag]

/-- What forbids an item is the fault of its call. -/
theorem fault?_item {e : Encoder} (h : e.depth ≤ 8) (call : Call) :
    e.fault? call.item = call.fault? e := by
  cases call with
  | text tag value =>
    by_cases hlong : 255 < value.utf8ByteSize
    · have hplace : e.placeFault? (.text tag value) = some (.textTooLong value.utf8ByteSize) :=
        if_pos hlong
      have hfault : (text tag value).fault? e = some (.textTooLong value.utf8ByteSize) :=
        if_pos hlong
      exact (fault?_misplaced hplace).trans hfault.symm
    · exact fault?_placed (if_neg hlong) hlong (by simp [isStart]) (by simp)
  | start tag container =>
    by_cases hdeep : e.depth = 8
    · have hplace : e.placeFault? (.start tag container) = some .nestingTooDeep :=
        if_pos (Nat.le_of_eq hdeep.symm)
      have hfault : (start tag container).fault? e = some .nestingTooDeep := by
        simp [fault?, textSize, isStart, hdeep]
      exact (fault?_misplaced hplace).trans hfault.symm
    · have hroom : ¬ depthLimit ≤ e.depth := fun hlimit => hdeep (Nat.le_antisymm h hlimit)
      exact fault?_placed (if_neg hroom) (Nat.not_lt_zero _) (fun hfull => hdeep hfull.2) (by simp)
  | stop =>
    by_cases hnone : e.depth = 0
    · have hplace : e.placeFault? .stop = some .noOpenContainer := if_pos hnone
      have hfault : stop.fault? e = some .noOpenContainer := by
        simp [fault?, textSize, isStart, hnone]
      exact (fault?_misplaced hplace).trans hfault.symm
    · have hplace : e.placeFault? .stop = e.tagFault? 0 := by simp [placeFault?, tagFault?, hnone]
      exact fault?_placed hplace (Nat.not_lt_zero _) (by simp [isStart])
        (fun hclosed => hnone hclosed.2)
  | _ => exact fault?_placed rfl (Nat.not_lt_zero _) (by simp [isStart]) (by simp)

end Call

/-- A writer, and the calls that succeeded, oldest first. -/
structure Session where
  encoder : Encoder
  taken : List Call

namespace Session

/-- Starts at the front of a buffer, whatever it holds. -/
def start (buffer : Bytes) : Session := ⟨ofBuffer buffer, []⟩

/-- What a call leaves behind, the next one finds, whether it succeeded or not. -/
def step (s : Session) (call : Call) : Session :=
  match call.perform s.encoder with
  | .ok _ next => ⟨next, s.taken ++ [call]⟩
  | .error _ next => ⟨next, s.taken⟩

def run (s : Session) (calls : List Call) : Session := calls.foldl step s

/-- The items that were written. -/
def items (s : Session) : List Item := s.taken.map Call.item

theorem items_concat (s : Session) (next : Encoder) (call : Call) :
    items ⟨next, s.taken ++ [call]⟩ = s.items ++ [call.item] := List.map_append

theorem run_cons (s : Session) (call : Call) (rest : List Call) :
    s.run (call :: rest) = (s.step call).run rest := rfl

theorem step_taken {s : Session} {call : Call} {next : Encoder}
    (hput : s.encoder.put call.item = .ok next) : s.step call = ⟨next, s.taken ++ [call]⟩ := by
  simp only [step, call.perform_eq_put, Writing.put, hput]

/-- A call that is refused leaves everything as it was. -/
theorem step_refused {s : Session} {call : Call} {fault : WriteError}
    (hput : s.encoder.put call.item = .error fault) : s.step call = s := by
  simp only [step, call.perform_eq_put, Writing.put, hput]

/-- The calls of a session do what their items do when these are offered to the encoder. -/
theorem run_eq_offerAll (s : Session) (calls : List Call) :
    (s.run calls).items = s.items ++ (s.encoder.offerAll (calls.map Call.item)).1 ∧
      (s.run calls).encoder = (s.encoder.offerAll (calls.map Call.item)).2 := by
  induction calls generalizing s with
  | nil => exact ⟨(List.append_nil _).symm, rfl⟩
  | cons call rest ih =>
    rw [run_cons, List.map_cons, offerAll]
    cases hput : s.encoder.put call.item with
    | error fault =>
      rw [step_refused hput]
      exact ih s
    | ok next =>
      have hrest := ih ⟨next, s.taken ++ [call]⟩
      rw [items_concat, List.append_assoc] at hrest
      rw [step_taken hput]
      exact hrest

/-- The buffer, the mark and the open containers tell the same calls. -/
structure InStep (capacity : Nat) (s : Session) : Prop where
  holds : s.encoder.Holds s.items
  length : s.encoder.buffer.length = capacity
  containers : s.encoder.containers = containersThrough [] s.items
  depth_le : s.encoder.depth ≤ depthLimit

theorem inStep_start (buffer : Bytes) : (start buffer).InStep buffer.length :=
  ⟨holds_ofBuffer buffer, rfl, rfl, Nat.zero_le _⟩

theorem InStep.step {capacity : Nat} {s : Session} (h : s.InStep capacity) (call : Call) :
    (s.step call).InStep capacity := by
  cases hput : s.encoder.put call.item with
  | error fault =>
    rw [step_refused hput]
    exact h
  | ok next =>
    rw [step_taken hput]
    have hholds := h.holds.put hput
    have hlength := length_buffer_put hput
    obtain ⟨hplace, _, rfl⟩ := put_ok_iff.1 hput
    refine ⟨?_, ?_, ?_, ?_⟩
    · rw [items_concat]
      exact hholds
    · exact hlength.trans h.length
    · rw [items_concat, containersThrough_append, ← h.containers]
      rfl
    · change (s.encoder.write call.item).depth ≤ depthLimit
      rw [depth_write]
      exact Cursor.depthAfter_le (fits_of_placeFault? hplace) h.depth_le

theorem inStep_run (buffer : Bytes) (calls : List Call) :
    ((start buffer).run calls).InStep buffer.length := by
  suffices hkeeps : ∀ s : Session, s.InStep buffer.length → (s.run calls).InStep buffer.length from
    hkeeps _ (inStep_start buffer)
  induction calls with
  | nil => exact fun s h => h
  | cons call rest ih => exact fun s h => ih _ (h.step call)

end Session

/-- At every moment of a session, whatever the buffer held before: a call that something forbids
fails for that, and the buffer, the bytes in use and the open containers are what they were. Any
other call succeeds. As many bytes more are in use as it needs, within the buffer, and these are the
only bytes that change. The bytes in use are those of the calls that succeeded, so another session
in which the same calls succeeded has the same, and the same open containers. -/
theorem calls_atomic (buffer : Bytes) (history : List Call) (call : Call) :
    let s := (Session.start buffer).run history
    let e := s.encoder
    (e.buffer.length = buffer.length ∧ e.used ≤ buffer.length ∧ e.depth ≤ 8) ∧
      (match call.fault? e with
        | some fault => call.perform e = .error fault e
        | none => ∃ next, call.perform e = .ok () next ∧
            next.used = e.used + call.size ∧ next.used ≤ buffer.length ∧
            next.buffer.length = buffer.length ∧
            (∀ i, i < e.used ∨ next.used ≤ i → next.buffer[i]? = e.buffer[i]?) ∧
            next.written = e.written ++ call.item.toBytes ∧
            next.containers = containersAfter e.containers call.item) ∧
      e.written = s.taken.flatMap (fun taken => taken.item.toBytes) ∧
      ∀ (other : Bytes) (calls : List Call), ((Session.start other).run calls).taken = s.taken →
        ((Session.start other).run calls).encoder.written = e.written ∧
          ((Session.start other).run calls).encoder.containers = e.containers := by
  intro s e
  have h : s.InStep buffer.length := Session.inStep_run buffer history
  have hused : e.used ≤ e.buffer.length := h.holds.used_le
  refine ⟨⟨h.length, h.length ▸ hused, h.depth_le⟩, ?_, ?_, ?_⟩
  · rw [← Call.fault?_item h.depth_le, call.perform_eq_put, ← call.size_item]
    cases hfault : e.fault? call.item with
    | some fault => simp only [Writing.put, put, hfault]
    | none =>
      have hput : e.put call.item = .ok (e.write call.item) := by rw [put, hfault]
      have hend := used_le_of_room (put_ok_iff.1 hput).2.1
      have hlength := (length_buffer_put hput).trans h.length
      have hperform : Writing.put call.item e = .ok () (e.write call.item) := by
        simp only [Writing.put, hput]
      refine ⟨e.write call.item, hperform, rfl, h.length ▸ hend, hlength, ?_,
        written_write hused call.item, rfl⟩
      exact fun i hi => getElem?_overwrite hused hi
  · rw [h.holds.written]
    exact List.flatMap_map Call.item Item.toBytes s.taken
  · intro other calls hsame
    have hother := Session.inStep_run other calls
    have hitems : ((Session.start other).run calls).items = s.items := congrArg (List.map _) hsame
    exact ⟨by rw [hother.holds.written, hitems, ← h.holds.written],
      by rw [hother.containers, hitems, ← h.containers]⟩

/-- At every moment of a session, whatever the buffer held before, the bytes in use read back as
what the calls that succeeded wrote, each one whole, and then as nothing more. The stream can be
finished when as many containers were stopped as were started, and at no other time. The calls are
performed store by store, and one that is refused puts nothing among the items that are read. -/
theorem session_reads_back (buffer : Bytes) (calls : List Call) :
    let s := (Session.start buffer).run calls
    let e := s.encoder
    let last : Cursor := ⟨e.written, e.used, e.depth, false⟩
    e.written.length = e.used ∧
      (Cursor.start e.written).nexts s.items.length =
        (s.items.map (fun i => .ok (some i)), last) ∧
      last.next = (.ok none, last) ∧
      e.depth + s.items.count .stop = s.items.countP Item.isStart ∧
      ∀ bytes, e.finish = .ok bytes ↔
        s.items.count .stop = s.items.countP Item.isStart ∧ bytes = e.written := by
  intro s e last
  obtain ⟨hitems, hencoder⟩ := (Session.start buffer).run_eq_offerAll calls
  have hread := offerAll_reads_back buffer (calls.map Call.item)
  change s.items = ((ofBuffer buffer).offerAll (calls.map Call.item)).1 at hitems
  change e = ((ofBuffer buffer).offerAll (calls.map Call.item)).2 at hencoder
  rw [← hitems, ← hencoder] at hread
  exact hread

end Encoder

end BurnerTelemetry.Tlv
