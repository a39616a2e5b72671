import BurnerTelemetry.Proofs.Tlv.Placement

/-!
The calls of a writer, store by store. A call checks its item, then the space; then it copies the
parts of the item into the buffer one behind another, moves the mark of the bytes in use, and last
of all opens or closes a container. What is done before a check fails stays done. Main statement:
every check comes before the first store, so a call ends as if its item were put whole or not at
all.
-/
namespace BurnerTelemetry.Tlv

/-- Puts bytes in the place of others, from a position on. -/
def overwrite (buffer : Bytes) (position : Nat) (bytes : Bytes) : Bytes :=
  buffer.take position ++ bytes ++ buffer.drop (position + bytes.length)

section Overwrite

variable {buffer : Bytes} {position : Nat}

@[simp] theorem overwrite_nil : overwrite buffer position [] = buffer := by
  simp [overwrite]

/-- Bytes put behind bytes are both put in one go. -/
theorem overwrite_overwrite (h : position ≤ buffer.length) (front back : Bytes) :
    overwrite (overwrite buffer position front) (position + front.length) back =
      overwrite buffer position (front ++ back) := by
  have hlength : (buffer.take position ++ front).length = position + front.length := by simp [h]
  have htake : (overwrite buffer position front).take (position + front.length) =
      buffer.take position ++ front := List.take_left' hlength
  have hdrop : (overwrite buffer position front).drop (position + front.length) =
      buffer.drop (position + front.length) := List.drop_left' hlength
  rw [overwrite, htake, ← List.drop_drop, hdrop, List.drop_drop]
  simp only [overwrite, List.append_assoc, List.length_append, Nat.add_assoc]

theorem length_overwrite {bytes : Bytes} (h : position + bytes.length ≤ buffer.length) :
    (overwrite buffer position bytes).length = buffer.length := by
  simp only [overwrite, List.length_append, List.length_take, List.length_drop]
  omega

/-- Bytes in front and behind are left alone. -/
theorem getElem?_overwrite {bytes : Bytes} (h : position ≤ buffer.length) {i : Nat}
    (hi : i < position ∨ position + bytes.length ≤ i) :
    (overwrite buffer position bytes)[i]? = buffer[i]? := by
  have hlength : (buffer.take position).length = position := List.length_take_of_le h
  rw [overwrite, List.append_assoc]
  rcases hi with hfront | hback
  · rw [List.getElem?_append_left (by omega), List.getElem?_take_of_lt hfront]
  · rw [List.getElem?_append_right (by omega), List.getElem?_append_right (by omega),
      List.getElem?_drop]
    congr 1
    omega

end Overwrite

namespace Encoder

/-- Steps on an encoder that may fail on their way. -/
abbrev Writing := EStateM WriteError Encoder

namespace Writing

/-- Copies bytes over those of the buffer, from a position on. -/
def copy (position : Nat) (bytes : Bytes) : Writing Unit :=
  modify fun e => { e with buffer := overwrite e.buffer position bytes }

/-- Copies parts one behind another, and answers where the last one ends. -/
def copyAll (position : Nat) : List Bytes → Writing Nat
  | [] => pure position
  | part :: rest => do
    copy position part
    copyAll (position + part.length) rest

def check (bad : Prop) [Decidable bad] (fault : WriteError) : Writing Unit :=
  if bad then throw fault else pure ()

def reserve (needed : Nat) : Writing Unit := do
  let e ← get
  check (e.remaining < needed) (.overflow needed e.remaining)

/-- Puts a first byte, a tag and the parts of a value. -/
def element (tag control : UInt8) (parts : List Bytes) : Writing Unit := do
  let e ← get
  check (e.containers.head? = some .array ∧ tag ≠ 0) (.arrayItemTag tag)
  reserve (2 + (parts.map List.length).sum)
  let position ← copyAll e.used ([control] :: [tag] :: parts)
  modify fun e => { e with used := position }

def unsigned (tag : UInt8) (value : UInt32) : Writing Unit :=
  let width := Width.ofUnsigned value
  element tag (Control.toByte ⟨.unsigned, .context, width.code⟩)
    [(Bytes.ofNatLE 4 value.toNat).take width.bytes]

def signed (tag : UInt8) (value : Int32) : Writing Unit :=
  let width := Width.ofSigned value
  element tag (Control.toByte ⟨.signed, .context, width.code⟩)
    [(Bytes.ofNatLE 4 value.toUInt32.toNat).take width.bytes]

def boolean (tag : UInt8) (value : Bool) : Writing Unit :=
  element tag (Control.toByte ⟨.boolean, .context, if value then 1 else 0⟩) []

def text (tag : UInt8) (value : String) : Writing Unit := do
  check (textLimit < value.utf8ByteSize) (.textTooLong value.utf8ByteSize)
  element tag (Control.toByte ⟨.text, .context, Width.one.code⟩)
    [[UInt8.ofNat value.utf8ByteSize], Text.Utf8.encode value]

/-- There is no place for more open containers than the limit. -/
def push (container : Container) : Writing Unit :=
  modify fun e =>
    if e.depth < depthLimit then { e with containers := container :: e.containers } else e

def start (tag : UInt8) (container : Container) : Writing Unit := do
  let e ← get
  check (depthLimit ≤ e.depth) .nestingTooDeep
  element tag (Control.toByte ⟨container.kind, .context, 0⟩) []
  push container

def stop : Writing Unit := do
  let e ← get
  check (e.depth = 0) .noOpenContainer
  reserve 1
  copy e.used [stopByte]
  modify fun e => { e with used := e.used + 1 }
  modify fun e => { e with containers := e.containers.tail }

/-- Puts an item whole or not at all. -/
def put (item : Item) : Writing Unit := fun e =>
  match e.put item with
  | .ok next => .ok () next
  | .error fault => .error fault e

end Writing

/-- The calls that a writer takes. -/
inductive Call where
  | uint8 (tag : UInt8) (value : UInt8)
  | uint16 (tag : UInt8) (value : UInt16)
  | uint32 (tag : UInt8) (value : UInt32)
  | int8 (tag : UInt8) (value : Int8)
  | int16 (tag : UInt8) (value : Int16)
  | int32 (tag : UInt8) (value : Int32)
  | boolean (tag : UInt8) (value : Bool)
  | text (tag : UInt8) (value : String)
  | start (tag : UInt8) (container : Container)
  | stop
  deriving DecidableEq, Repr

namespace Call

/-- Narrow numbers are widened. -/
def perform : Call → Writing Unit
  | .uint8 tag value => Writing.unsigned tag value.toUInt32
  | .uint16 tag value => Writing.unsigned tag value.toUInt32
  | .uint32 tag value => Writing.unsigned tag value
  | .int8 tag value => Writing.signed tag value.toInt32
  | .int16 tag value => Writing.signed tag value.toInt32
  | .int32 tag value => Writing.signed tag value
  | .boolean tag value => Writing.boolean tag value
  | .text tag value => Writing.text tag value
  | .start tag container => Writing.start tag container
  | .stop => Writing.stop

/-- What the call writes. -/
def item : Call → Item
  | .uint8 tag value => .unsigned tag value.toUInt32
  | .uint16 tag value => .unsigned tag value.toUInt32
  | .uint32 tag value => .unsigned tag value
  | .int8 tag value => .signed tag value.toInt32
  | .int16 tag value => .signed tag value.toInt32
  | .int32 tag value => .signed tag value
  | .boolean tag value => .boolean tag value
  | .text tag value => .text tag value
  | .start tag container => .start tag container
  | .stop => .stop

end Call

namespace Writing

/-- Steps after others start where these ended, unless they failed. -/
theorem bind_eq {α β : Type} (x : Writing α) (f : α → Writing β) (e : Encoder) :
    (x >>= f) e =
      match x e with
      | .ok a next => f a next
      | .error fault next => .error fault next := by
  change EStateM.bind x f e = _
  unfold EStateM.bind
  cases x e <;> rfl

theorem get_eq (e : Encoder) : (get : Writing Encoder) e = .ok e e := rfl

theorem modify_eq (f : Encoder → Encoder) (e : Encoder) :
    (modify f : Writing Unit) e = .ok () (f e) := rfl

/-- A check that fails leaves everything as it was. -/
theorem check_eq (bad : Prop) [Decidable bad] (fault : WriteError) (e : Encoder) :
    check bad fault e = if bad then .error fault e else .ok () e := by
  unfold check
  split <;> rfl

theorem reserve_eq (needed : Nat) (e : Encoder) :
    reserve needed e = if e.remaining < needed then .error (.overflow needed e.remaining) e
      else .ok () e :=
  check_eq (e.remaining < needed) _ e

theorem copyAll_eq {e : Encoder} {position : Nat} (parts : List Bytes)
    (h : position + parts.flatten.length ≤ e.buffer.length) :
    copyAll position parts e = .ok (position + parts.flatten.length)
      { e with buffer := overwrite e.buffer position parts.flatten } := by
  induction parts generalizing e position with
  | nil =>
    rw [List.flatten_nil, overwrite_nil]
    rfl
  | cons part rest ih =>
    rw [List.flatten_cons, List.length_append] at h
    have hlength : (overwrite e.buffer position part).length = e.buffer.length :=
      length_overwrite (by omega)
    have hrest := @ih { e with buffer := overwrite e.buffer position part }
      (position + part.length) (by simp only [hlength]; omega)
    rw [overwrite_overwrite (by omega)] at hrest
    rw [List.flatten_cons, List.length_append, ← Nat.add_assoc]
    exact hrest

theorem element_misplaced {tag control : UInt8} {parts : List Bytes} {e : Encoder}
    {fault : WriteError} (h : e.tagFault? tag = some fault) :
    element tag control parts e = .error fault e := by
  unfold tagFault? at h
  split at h
  · cases h
    simp only [element, bind_eq, get_eq, check_eq, if_pos ‹_›]
  · cases h

theorem element_placed {tag : UInt8} {e : Encoder} (h : e.tagFault? tag = none) (control : UInt8)
    (parts : List Bytes) :
    element tag control parts e =
      let bytes := control :: tag :: parts.flatten
      if e.remaining < bytes.length then .error (.overflow bytes.length e.remaining) e
      else .ok () { e with
        buffer := overwrite e.buffer e.used bytes, used := e.used + bytes.length } := by
  have htag : ¬ (e.containers.head? = some .array ∧ tag ≠ 0) := by
    intro hbad
    rw [tagFault?, if_pos hbad] at h
    cases h
  have hsize : 2 + (parts.map List.length).sum = (control :: tag :: parts.flatten).length := by
    rw [List.length_cons, List.length_cons, List.length_flatten]
    omega
  simp only [element, bind_eq, get_eq, check_eq, reserve_eq, hsize, if_neg htag]
  by_cases hfull : e.remaining < (control :: tag :: parts.flatten).length
  · simp only [if_pos hfull]
  · have hroom : e.used + ([control] :: [tag] :: parts).flatten.length ≤ e.buffer.length := by
      simp only [remaining, List.length_cons] at hfull
      simp only [List.flatten_cons, List.cons_append, List.nil_append, List.length_cons]
      omega
    simp only [if_neg hfull, copyAll_eq _ hroom, modify_eq]
    rfl

theorem put_misplaced {item : Item} {e : Encoder} {fault : WriteError}
    (h : e.placeFault? item = some fault) : put item e = .error fault e := by
  simp only [put, Encoder.put, fault?, h]

theorem put_placed {item : Item} {e : Encoder} (h : e.placeFault? item = none) :
    put item e = if e.remaining < item.size then .error (.overflow item.size e.remaining) e
      else .ok () (e.write item) := by
  simp only [put, Encoder.put, fault?, h]
  by_cases hfull : e.remaining < item.size
  · simp only [if_pos hfull]
  · simp only [if_neg hfull]

/-- An item that may stand where its tag may and leaves the containers alone is one element. -/
theorem element_eq_put {item : Item} {tag control : UInt8} {parts : List Bytes} {e : Encoder}
    (hbytes : item.toBytes = control :: tag :: parts.flatten)
    (hplace : e.placeFault? item = e.tagFault? tag)
    (hcontainers : containersAfter e.containers item = e.containers) :
    element tag control parts e = put item e := by
  cases htag : e.tagFault? tag with
  | some fault => rw [element_misplaced htag, put_misplaced (hplace.trans htag)]
  | none =>
    rw [element_placed htag, put_placed (hplace.trans htag), Item.size, hbytes]
    simp only [write, hcontainers, hbytes, Item.size, overwrite]

theorem unsigned_eq_put (tag : UInt8) (value : UInt32) :
    unsigned tag value = put (.unsigned tag value) := by
  funext e
  refine element_eq_put ?_ rfl rfl
  rw [Bytes.take_ofNatLE (Width.bytes_le _)]
  simp [Item.toBytes]

theorem signed_eq_put (tag : UInt8) (value : Int32) :
    signed tag value = put (.signed tag value) := by
  funext e
  refine element_eq_put ?_ rfl rfl
  rw [Bytes.take_ofNatLE (Width.bytes_le _)]
  simp [Item.toBytes]

theorem boolean_eq_put (tag : UInt8) (value : Bool) :
    boolean tag value = put (.boolean tag value) := by
  funext e
  exact element_eq_put rfl rfl rfl

theorem text_eq_put (tag : UInt8) (value : String) :
    text tag value = put (.text tag value) := by
  funext e
  by_cases hlong : textLimit < value.utf8ByteSize
  · have hplace : e.placeFault? (.text tag value) = some (.textTooLong value.utf8ByteSize) :=
      if_pos hlong
    rw [put_misplaced hplace]
    simp only [text, bind_eq, check_eq, if_pos hlong]
  · have hplace : e.placeFault? (.text tag value) = e.tagFault? tag := if_neg hlong
    simp only [text, bind_eq, check_eq, if_neg hlong]
    refine element_eq_put ?_ hplace rfl
    simp [Item.toBytes, textPayload]

/-- A container is open behind its element: there was a place for it when that was put. -/
theorem start_eq_put (tag : UInt8) (container : Container) :
    start tag container = put (.start tag container) := by
  funext e
  by_cases hdeep : depthLimit ≤ e.depth
  · have hplace : e.placeFault? (.start tag container) = some .nestingTooDeep := if_pos hdeep
    rw [put_misplaced hplace]
    simp only [start, bind_eq, get_eq, check_eq, if_pos hdeep]
  · have hplace : e.placeFault? (.start tag container) = e.tagFault? tag := if_neg hdeep
    have hopen : e.containers.length < depthLimit := Nat.lt_of_not_le hdeep
    simp only [start, bind_eq, get_eq, check_eq, if_neg hdeep]
    cases htag : e.tagFault? tag with
    | some fault => rw [element_misplaced htag, put_misplaced (hplace.trans htag)]
    | none =>
      rw [element_placed htag, put_placed (hplace.trans htag)]
      by_cases hfull : e.remaining < 2
      · simp [hfull]
      · simp [hfull, push, modify_eq, depth, hopen, write, containersAfter, Item.toBytes, overwrite]

theorem stop_eq_put : stop = put .stop := by
  funext e
  by_cases hnone : e.depth = 0
  · have hplace : e.placeFault? .stop = some .noOpenContainer := if_pos hnone
    rw [put_misplaced hplace]
    simp only [stop, bind_eq, get_eq, check_eq, if_pos hnone]
  · have hplace : e.placeFault? .stop = none := if_neg hnone
    rw [put_placed hplace]
    simp only [stop, bind_eq, get_eq, check_eq, reserve_eq, if_neg hnone]
    by_cases hfull : e.remaining < 1
    · simp only [if_pos hfull]
      exact (if_pos hfull).symm
    · simp only [if_neg hfull]
      exact (if_neg hfull).symm

end Writing

/-- Every call checks before it stores, so it puts its item whole or not at all. -/
theorem Call.perform_eq_put (call : Call) : call.perform = Writing.put call.item := by
  cases call with
  | uint8 tag value => exact Writing.unsigned_eq_put tag _
  | uint16 tag value => exact Writing.unsigned_eq_put tag _
  | uint32 tag value => exact Writing.unsigned_eq_put tag _
  | int8 tag value => exact Writing.signed_eq_put tag _
  | int16 tag value => exact Writing.signed_eq_put tag _
  | int32 tag value => exact Writing.signed_eq_put tag _
  | boolean tag value => exact Writing.boolean_eq_put tag value
  | text tag value => exact Writing.text_eq_put tag value
  | start tag container => exact Writing.start_eq_put tag container
  | stop => exact Writing.stop_eq_put

end Encoder

end BurnerTelemetry.Tlv
