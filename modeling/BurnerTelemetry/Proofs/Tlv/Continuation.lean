import BurnerTelemetry.Proofs.Tlv.FailClosed
import BurnerTelemetry.Proofs.Tlv.Placement

/-!
Bytes that go on. What a walk yields it yields whatever bytes are added, and where it has come to
the end of the bytes without a fault it goes on over the bytes added, as a walk that starts there at
the depth it had come to. Main statement: a walk over bytes cut short yields the first of the items
of the whole, and nothing else.
-/
namespace BurnerTelemetry.Tlv

/-- The fault of bytes that stand so much further behind. -/
def ReadError.shift (count : Nat) : ReadError → ReadError
  | truncated offset => truncated (count + offset)
  | invalidText offset => invalidText (count + offset)
  | unbalancedStop offset => unbalancedStop (count + offset)
  | e => e

section Shift

variable (count offset : Nat)

theorem mapError_bind {ε ε' α β : Type} (x : Except ε α) (f : α → Except ε β) (g : ε → ε') :
    (x >>= f).mapError g = (x.mapError g >>= fun a => (f a).mapError g) := by
  cases x <;> rfl

theorem mapError_readWidth (raw : UInt8) (control : Control) :
    (readWidth raw control).mapError (ReadError.shift count) = readWidth raw control := by
  unfold readWidth
  split <;> rfl

theorem mapError_ofByte (raw : UInt8) :
    (Control.ofByte raw).mapError (ReadError.shift count) = Control.ofByte raw := by
  unfold Control.ofByte
  split
  · rfl
  · split <;> rfl

theorem takeBytes_add (size : Nat) (bytes : Bytes) : takeBytes (count + offset) size bytes =
    (takeBytes offset size bytes).mapError (ReadError.shift count) := by
  unfold takeBytes
  split <;> rfl

theorem readText_add (raw : UInt8) (control : Control) (bytes : Bytes) :
    readText raw control (count + offset) bytes =
      (readText raw control offset bytes).mapError (ReadError.shift count) := by
  simp only [readText, mapError_bind, mapError_readWidth]
  congr 1
  funext width
  split
  · cases bytes with
    | nil => rfl
    | cons length rest =>
      simp only
      split
      · rfl
      · split <;> rfl
  · rfl

theorem readTagged_add (raw : UInt8) (control : Control) (depth : Nat) (tag : UInt8)
    (bytes : Bytes) : readTagged raw control (count + offset) depth tag bytes =
      (readTagged raw control offset depth tag bytes).mapError (ReadError.shift count) := by
  unfold readTagged
  cases control.kind with
  | unsigned =>
    simp only [mapError_bind, mapError_readWidth, takeBytes_add]
    rfl
  | signed =>
    simp only [mapError_bind, mapError_readWidth, takeBytes_add]
    rfl
  | boolean =>
    simp only
    split
    · rfl
    · split <;> rfl
  | text =>
    simp only [mapError_bind, readText_add]
    rfl
  | array =>
    simp only
    split <;> rfl
  | struct =>
    simp only
    split <;> rfl
  | stop => rfl

/-- Where bytes stand matters to the place that a fault names and to nothing else. -/
theorem readItem_add (depth : Nat) (bytes : Bytes) : readItem (count + offset) depth bytes =
    (readItem offset depth bytes).mapError (ReadError.shift count) := by
  cases bytes with
  | nil => rfl
  | cons raw rest =>
    simp only [readItem, mapError_bind, mapError_ofByte]
    congr 1
    funext control
    split
    · split
      · rfl
      · split <;> rfl
    · split
      · rfl
      · cases rest with
        | nil => rfl
        | cons tag body =>
          simp only [mapError_bind, readTagged_add]
          rfl

end Shift

namespace Cursor

/-- The items that a walk yields up to its end or its fault. -/
def yields (c : Cursor) : List Item := c.walk.filterMap (fun visit => visit.1.toOption)

/-- Where a walk ends. -/
def last (c : Cursor) : Cursor := c.walk.foldl (fun _ visit => visit.2) c

/-- The cursor in the same place, with more bytes behind its own. -/
def extend (c : Cursor) (rest : Bytes) : Cursor := { c with bytes := c.bytes ++ rest }

/-- The cursor in the same place, with more bytes in front of its own. -/
def behind (c : Cursor) (front : Bytes) : Cursor :=
  { c with bytes := front ++ c.bytes, position := front.length + c.position }

variable {c : Cursor} {item : Item} {e : ReadError}

theorem walk_of_isEnd (h : c.isEnd = true) : c.walk = [] := by
  rw [walk, dif_pos h]

theorem walk_of_item (h : c.next.1 = .ok (some item)) :
    c.walk = (.ok item, c.next.2) :: c.next.2.walk := by
  rw [walk, dif_neg (by simp [not_isEnd_of_next_some h])]
  simp only [h]

/-- A fault ends the walk. -/
theorem walk_of_fault (h : c.next.1 = .error e) : c.walk = [(.error e, c.next.2)] := by
  rw [walk, dif_neg (by simp [not_isEnd_of_next_error h])]
  simp only [h, walk_of_isEnd (isEnd_of_next_error h)]

/-- A walk is over, goes on behind an item, or stops at a fault. -/
theorem walk_induction {P : Cursor → Prop} (done : ∀ c, c.isEnd = true → P c)
    (item : ∀ c i, c.next.1 = .ok (some i) → P c.next.2 → P c)
    (fault : ∀ c e, c.next.1 = .error e → P c) (c : Cursor) : P c := by
  -- on the bytes left, of which every step before the end takes some
  induction hn : c.left using Nat.strongRecOn generalizing c with
  | ind n ih =>
    cases hnext : c.next.1 with
    | error e => exact fault c e hnext
    | ok found =>
      cases found with
      | none => exact done c (isEnd_of_next_none hnext)
      | some i =>
        exact item c i hnext (ih _ (hn ▸ left_next_lt (not_isEnd_of_next_some hnext)) _ rfl)

theorem yields_of_isEnd (h : c.isEnd = true) : c.yields = [] := by
  rw [yields, walk_of_isEnd h]
  rfl

theorem yields_of_item (h : c.next.1 = .ok (some item)) :
    c.yields = item :: c.next.2.yields := by
  rw [yields, walk_of_item h]
  rfl

theorem yields_of_fault (h : c.next.1 = .error e) : c.yields = [] := by
  rw [yields, walk_of_fault h]
  rfl

theorem last_of_isEnd (h : c.isEnd = true) : c.last = c := by
  rw [last, walk_of_isEnd h]
  rfl

theorem last_of_item (h : c.next.1 = .ok (some item)) : c.last = c.next.2.last := by
  rw [last, walk_of_item h]
  rfl

/-- An item stands in its own bytes, so it is read from more bytes too. -/
theorem next_extend (h : c.next.1 = .ok (some item)) (rest : Bytes) :
    (c.extend rest).next = (.ok (some item), c.next.2.extend rest) := by
  obtain ⟨_, hnext⟩ | ⟨front, more, found, hgood, hbytes, hspells, hnext⟩ | ⟨_, _, hnext⟩ :=
    next_cases c
  · rw [hnext] at h
    cases h
  · have hinside := (left_pos_of_not_isEnd (not_isEnd_of_next_some h)).2
    rw [hnext] at h
    cases h
    have hopen : (c.extend rest).isEnd = false := by
      simp only [isEnd, extend, hgood, List.length_append, Bool.false_or,
        decide_eq_false_iff_not]
      omega
    have hread : readItem c.position c.depth ((c.bytes ++ rest).drop c.position) =
        .ok (item, front.length) := by
      rw [List.drop_append_of_le_length (Nat.le_of_lt hinside), hbytes, List.append_assoc]
      exact hspells.readItem c.position (more ++ rest)
    rw [hnext, next, hopen]
    simp only [extend, hread, Bool.false_eq_true, if_false]
  · rw [hnext] at h
    cases h

/-- More bytes in front change where things stand and nothing else. -/
theorem next_behind (c : Cursor) (front : Bytes) : (c.behind front).next =
    (c.next.1.mapError (ReadError.shift front.length), c.next.2.behind front) := by
  have hend : (c.behind front).isEnd = c.isEnd := by
    simp [isEnd, behind]
  have hbytes : (front ++ c.bytes).drop (front.length + c.position) =
      c.bytes.drop c.position := by
    rw [← List.drop_drop, List.drop_left]
  unfold next
  rw [hend]
  split
  · rfl
  · simp only [behind, hbytes, readItem_add]
    cases readItem c.position c.depth (c.bytes.drop c.position) with
    | ok found => simp [Except.mapError, Nat.add_assoc]
    | error e => simp [Except.mapError]

/-- The answers of a walk begin with those items that it yields first, and with no others. -/
theorem map_ok_prefix_iff (c : Cursor) (items : List Item) :
    items.map .ok <+: c.walk.map (fun visit => visit.1) ↔ items <+: c.yields := by
  induction c using walk_induction generalizing items with
  | done c h =>
    rw [walk_of_isEnd h, yields_of_isEnd h, List.map_nil, List.prefix_nil, List.prefix_nil,
      List.map_eq_nil_iff]
  | item c i h ih =>
    rw [walk_of_item h, yields_of_item h]
    cases items with
    | nil => simp
    | cons first rest =>
      rw [List.map_cons, List.map_cons, List.cons_prefix_cons, List.cons_prefix_cons, ih rest,
        Except.ok.injEq]
  | fault c e h =>
    rw [walk_of_fault h, yields_of_fault h]
    cases items with
    | nil => simp
    | cons first rest => simp

/-- The bytes that a walk goes over are no fewer than its items need. -/
theorem totalSize_yields_le (c : Cursor) : Encoder.totalSize c.yields ≤ c.left := by
  induction c using walk_induction with
  | done c h =>
    rw [yields_of_isEnd h]
    exact Nat.zero_le _
  | item c i h ih =>
    obtain ⟨_, hnext⟩ | ⟨front, rest, found, hgood, hbytes, hspells, hnext⟩ | ⟨_, _, hnext⟩ :=
      next_cases c
    · rw [hnext] at h
      cases h
    · have hlength := congrArg List.length hbytes
      have hsize := hspells.size_le
      rw [hnext] at h
      cases h
      rw [hnext] at ih
      rw [yields_of_item (congrArg Prod.fst hnext), hnext, Encoder.totalSize_cons]
      simp only [left, hgood, Bool.false_eq_true, if_false, List.length_drop,
        List.length_append] at ih hlength ⊢
      omega
    · rw [hnext] at h
      cases h
  | fault c e h =>
    rw [yields_of_fault h]
    exact Nat.zero_le _

/-- A walk over more bytes yields what it yields without them, and maybe more. -/
theorem yields_extend (c : Cursor) (rest : Bytes) : c.yields <+: (c.extend rest).yields := by
  induction c using walk_induction with
  | done c h =>
    rw [yields_of_isEnd h]
    exact List.nil_prefix
  | item c i h ih =>
    have hnext := next_extend h rest
    rw [yields_of_item h, yields_of_item (congrArg Prod.fst hnext), hnext]
    exact (List.prefix_cons_inj i).2 ih
  | fault c e h =>
    rw [yields_of_fault h]
    exact List.nil_prefix

/-- Where a walk meets no fault it goes on over the bytes added. -/
theorem walk_extend (h : ∀ visit ∈ c.walk, ∃ i, visit.1 = .ok i) (rest : Bytes) :
    (c.extend rest).walk =
      c.walk.map (fun visit => (visit.1, visit.2.extend rest)) ++ (c.last.extend rest).walk := by
  induction c using walk_induction with
  | done c hend =>
    rw [walk_of_isEnd hend, last_of_isEnd hend]
    rfl
  | item c i hitem ih =>
    have hnext := next_extend hitem rest
    rw [walk_of_item hitem] at h ⊢
    rw [walk_of_item (congrArg Prod.fst hnext), last_of_item hitem, hnext, List.map_cons,
      List.cons_append]
    exact congrArg _ (ih (fun visit hvisit => h visit (List.mem_cons_of_mem _ hvisit)))
  | fault c e hfault =>
    rw [walk_of_fault hfault] at h
    obtain ⟨i, hi⟩ := h _ List.mem_cons_self
    cases hi

theorem walk_behind (c : Cursor) (front : Bytes) : (c.behind front).walk =
    c.walk.map (fun visit =>
      (visit.1.mapError (ReadError.shift front.length), visit.2.behind front)) := by
  induction c using walk_induction with
  | done c hend =>
    have hmore : (c.behind front).isEnd = true := by
      simpa [isEnd, behind] using hend
    rw [walk_of_isEnd hend, walk_of_isEnd hmore]
    rfl
  | item c i hitem ih =>
    have hnext := next_behind c front
    rw [hitem] at hnext
    rw [walk_of_item hitem, walk_of_item (congrArg Prod.fst hnext), hnext, List.map_cons, ih]
    rfl
  | fault c e hfault =>
    have hnext := next_behind c front
    rw [hfault] at hnext
    rw [walk_of_fault hfault, walk_of_fault (congrArg Prod.fst hnext), hnext]
    rfl

/-- Whatever every step keeps, the walk keeps. -/
theorem last_keeps {P : Cursor → Prop} (h : ∀ c, P c → P c.next.2) {c : Cursor} (hc : P c) :
    P c.last := by
  induction c using walk_induction with
  | done c hend =>
    rw [last_of_isEnd hend]
    exact hc
  | item c i hitem ih =>
    rw [last_of_item hitem]
    exact ih (h c hc)
  | fault c e hfault =>
    rw [last, walk_of_fault hfault]
    exact h c hc

/-- A walk without a fault stops for want of bytes. -/
theorem last_of_no_fault (hgood : c.failed = false)
    (h : ∀ visit ∈ c.walk, ∃ i, visit.1 = .ok i) :
    c.last.failed = false ∧ c.last.isEnd = true := by
  induction c using walk_induction with
  | done c hend =>
    rw [last_of_isEnd hend]
    exact ⟨hgood, hend⟩
  | item c i hitem ih =>
    rw [walk_of_item hitem] at h
    rw [last_of_item hitem]
    exact ih (next_of_next_some hitem).2
      (fun visit hvisit => h visit (List.mem_cons_of_mem _ hvisit))
  | fault c e hfault =>
    rw [walk_of_fault hfault] at h
    obtain ⟨i, hi⟩ := h _ List.mem_cons_self
    cases hi

/-- Stands in front of the first item, inside containers that were started before it. -/
def startInside (depth : Nat) (bytes : Bytes) : Cursor := ⟨bytes, 0, depth, false⟩

/-- A walk without a fault stops right behind the last byte. -/
theorem last_start {bytes : Bytes} (h : ∀ visit ∈ (start bytes).walk, ∃ i, visit.1 = .ok i) :
    (start bytes).last = ⟨bytes, bytes.length, (start bytes).last.depth, false⟩ := by
  obtain ⟨items, hreached⟩ : ∃ items, Reached bytes items (start bytes).last := by
    refine last_keeps (P := fun c => ∃ items, Reached bytes items c) ?_ ⟨[], reached_start bytes⟩
    rintro c ⟨items, hc⟩
    obtain ⟨more, hmore⟩ := hc.next
    exact ⟨_, hmore⟩
  obtain ⟨hgood, hend⟩ := last_of_no_fault (c := start bytes) rfl h
  have hbytes := hreached.bytes_eq
  have hposition : (start bytes).last.position = bytes.length := by
    have hle := hreached.position_le
    simp only [isEnd, hgood, hbytes, Bool.false_or, decide_eq_true_eq] at hend
    omega
  generalize (start bytes).last = d at hgood hbytes hposition
  cases d
  simp only at hgood hbytes hposition
  subst hgood hbytes hposition
  rfl

theorem yields_take (bytes : Bytes) (n : Nat) :
    (start (bytes.take n)).yields <+: (start bytes).yields := by
  have hall := yields_extend (start (bytes.take n)) (bytes.drop n)
  rwa [start, extend, List.take_append_drop] at hall

theorem yields_of_reads {d : Cursor} {items : List Item} (h : c.Reads items d) :
    c.yields = items ++ d.yields := by
  induction items generalizing c with
  | nil =>
    cases h
    rfl
  | cons item rest ih =>
    obtain ⟨hitem, hrest⟩ := reads_cons.1 h
    rw [yields_of_item hitem, ih hrest]
    rfl

/-- Behind the bytes of an encoder nothing is left, so a walk yields what the encoder took. -/
theorem yields_written {e : Encoder} {items : List Item} (h : e.Holds items) :
    (start e.written).yields = items := by
  have hend : isEnd ⟨e.written, e.used, e.depth, false⟩ = true := by
    simp [isEnd, Encoder.length_written h.used_le]
  rw [yields_of_reads h.reads_back, yields_of_isEnd hend, List.append_nil]

/-- Bytes cut short behind some of the items of an encoder still yield these. -/
theorem prefix_yields_take {e : Encoder} {items more : List Item} (h : e.Holds (items ++ more))
    {n : Nat} (hsize : Encoder.totalSize items ≤ n) :
    items <+: (start (e.written.take n)).yields := by
  have hcut : e.written.take n = items.flatMap Item.toBytes ++
      (more.flatMap Item.toBytes).take (n - Encoder.totalSize items) := by
    rw [h.written, List.flatMap_append, List.take_append, Encoder.length_flatMap_toBytes,
      List.take_of_length_le (by rw [Encoder.length_flatMap_toBytes]; exact hsize)]
  have hreads := nexts_items ((allFit_append 0 items more).1 h.fit).1 []
    ((more.flatMap Item.toBytes).take (n - Encoder.totalSize items))
  rw [List.nil_append, ← hcut] at hreads
  have hyields : (start (e.written.take n)).yields = items ++ yields _ := yields_of_reads hreads
  rw [hyields]
  exact List.prefix_append items _

/-- What a walk yields it yields again when bytes are added. If it met no fault it goes on over the
bytes added as a walk over these alone that starts at the depth it had come to, only that all stands
further behind. So bytes cut short yield some first items of the whole. An encoding cut short yields
some first items of those that were taken, and all that it still holds whole. -/
theorem walk_continued (bytes rest : Bytes) :
    (start bytes).yields <+: (start (bytes ++ rest)).yields ∧
      ((∀ visit ∈ (start bytes).walk, ∃ item, visit.1 = .ok item) →
        (start (bytes ++ rest)).walk =
          (start bytes).walk.map (fun visit => (visit.1, visit.2.extend rest)) ++
            (startInside (start bytes).last.depth rest).walk.map (fun visit =>
              (visit.1.mapError (ReadError.shift bytes.length), visit.2.behind bytes))) ∧
      (∀ n, (start (bytes.take n)).yields <+: (start bytes).yields) ∧
      ∀ buffer calls n,
        let taken := ((Encoder.ofBuffer buffer).offerAll calls).1
        let written := ((Encoder.ofBuffer buffer).offerAll calls).2.written
        (start (written.take n)).yields <+: taken ∧
          ∀ items, items <+: taken → Encoder.totalSize items ≤ n →
            items <+: (start (written.take n)).yields := by
  refine ⟨yields_extend (start bytes) rest, ?_, yields_take bytes, ?_⟩
  · intro hgood
    have hlast : (start bytes).last.extend rest =
        (startInside (start bytes).last.depth rest).behind bytes := by
      rw [last_start hgood]
      rfl
    rw [← walk_behind, ← hlast]
    exact walk_extend hgood rest
  · intro buffer calls n taken written
    have hholds : ((Encoder.ofBuffer buffer).offerAll calls).2.Holds taken :=
      (Encoder.holds_ofBuffer buffer).offerAll calls
    constructor
    · have hcut := yields_take written n
      rwa [yields_written hholds] at hcut
    · rintro items ⟨more, hmore⟩ hsize
      rw [← hmore] at hholds
      exact prefix_yields_take hholds hsize

/-- An array that is still open, then the stop of it and a number cut short. -/
theorem walk_continued_array :
    (∀ visit ∈ (start [0xC8, 5, 0x28, 0, 7]).walk, ∃ item, visit.1 = .ok item) ∧
      (start ([0xC8, 5, 0x28, 0, 7] ++ [0xA0, 0x28, 1])).walk =
        [(.ok (.start 5 .array), ⟨[0xC8, 5, 0x28, 0, 7, 0xA0, 0x28, 1], 2, 1, false⟩),
          (.ok (.unsigned 0 7), ⟨[0xC8, 5, 0x28, 0, 7, 0xA0, 0x28, 1], 5, 1, false⟩),
          (.ok .stop, ⟨[0xC8, 5, 0x28, 0, 7, 0xA0, 0x28, 1], 6, 0, false⟩),
          (.error (.truncated 6), ⟨[0xC8, 5, 0x28, 0, 7, 0xA0, 0x28, 1], 6, 0, true⟩)] := by
  have harray : (start [0xC8, 5, 0x28, 0, 7]).next =
      (.ok (some (.start 5 .array)), ⟨[0xC8, 5, 0x28, 0, 7], 2, 1, false⟩) := by decide +kernel
  have hnumber : next ⟨[0xC8, 5, 0x28, 0, 7], 2, 1, false⟩ =
      (.ok (some (.unsigned 0 7)), ⟨[0xC8, 5, 0x28, 0, 7], 5, 1, false⟩) := by decide +kernel
  have hfirst : (start [0xC8, 5, 0x28, 0, 7]).walk =
      [(.ok (.start 5 .array), ⟨[0xC8, 5, 0x28, 0, 7], 2, 1, false⟩),
        (.ok (.unsigned 0 7), ⟨[0xC8, 5, 0x28, 0, 7], 5, 1, false⟩)] := by
    rw [walk_of_item (congrArg Prod.fst harray), harray,
      walk_of_item (congrArg Prod.fst hnumber), hnumber, walk_of_isEnd (by decide)]
  have hstop : (startInside 1 [0xA0, 0x28, 1]).next =
      (.ok (some .stop), ⟨[0xA0, 0x28, 1], 1, 0, false⟩) := by decide +kernel
  have hcut : next ⟨[0xA0, 0x28, 1], 1, 0, false⟩ =
      (.error (.truncated 1), ⟨[0xA0, 0x28, 1], 1, 0, true⟩) := by decide +kernel
  have hthen : (startInside 1 [0xA0, 0x28, 1]).walk =
      [(.ok .stop, ⟨[0xA0, 0x28, 1], 1, 0, false⟩),
        (.error (.truncated 1), ⟨[0xA0, 0x28, 1], 1, 0, true⟩)] := by
    rw [walk_of_item (congrArg Prod.fst hstop), hstop, walk_of_fault (congrArg Prod.fst hcut), hcut]
  have hgood : ∀ visit ∈ (start [0xC8, 5, 0x28, 0, 7]).walk, ∃ item, visit.1 = .ok item := by
    rw [hfirst]
    simp
  have hwalk := (walk_continued [0xC8, 5, 0x28, 0, 7] [0xA0, 0x28, 1]).2.1 hgood
  rw [last, hfirst] at hwalk
  refine ⟨hgood, hwalk.trans ?_⟩
  change _ ++ (startInside 1 _).walk.map _ = _
  rw [hthen]
  rfl

end Cursor

end BurnerTelemetry.Tlv
