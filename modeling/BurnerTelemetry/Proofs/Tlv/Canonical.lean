import BurnerTelemetry.Proofs.Tlv.FailClosed
import BurnerTelemetry.Proofs.Tlv.Placement

/-!
Bytes written anew. A reader takes many spellings of the same items, a writer has one. Items that
were read can be written again in the space they were read from, unless an item of an array goes
under a tag that the writer does not allow there. Main statement: the bytes written anew hold the
same items, are written anew as themselves, and differ from the bytes read unless these came from a
writer.
-/
namespace BurnerTelemetry.Tlv

open Encoder (containersAfter Placed placeFault? totalSize)

/-- A walk over the bytes meets the items one by one and stops behind the last byte, without a fault
and with no container open. -/
def Decodes (bytes : Bytes) (items : List Item) : Prop :=
  (Cursor.start bytes).Reads items ⟨bytes, bytes.length, 0, false⟩

instance (bytes : Bytes) (items : List Item) : Decidable (Decodes bytes items) :=
  inferInstanceAs (Decidable (_ = _))

/-- The items that lie directly inside an array go under tag 0. -/
def ArrayTagsZero (containers : List Container) : List Item → Prop
  | [] => True
  | item :: rest =>
    (containers.head? = some .array → ∀ tag ∈ item.tag?, tag = 0) ∧
      ArrayTagsZero (containersAfter containers item) rest

instance ArrayTagsZero.decidable : (containers : List Container) → (items : List Item) →
    Decidable (ArrayTagsZero containers items)
  | _, [] => isTrue trivial
  | containers, item :: rest =>
    have := ArrayTagsZero.decidable (containersAfter containers item) rest
    inferInstanceAs (Decidable (_ ∧ _))

namespace Cursor

/-- What is read may stand at its depth, and its written form takes no more bytes. -/
theorem Reads.accepts {c d : Cursor} {items : List Item} (h : c.Reads items d) :
    AllFit c.depth items ∧ d.depth = depthThrough c.depth items ∧
      c.position + totalSize items ≤ d.position := by
  induction items generalizing c with
  | nil =>
    cases h
    exact ⟨trivial, rfl, Nat.le_refl _⟩
  | cons item rest ih =>
    obtain ⟨hitem, hrest⟩ := reads_cons.1 h
    obtain ⟨hfit, hdepth, hsize⟩ := ih hrest
    obtain ⟨_, hnext⟩ | ⟨front, more, found, _, _, hspells, hnext⟩ | ⟨_, e, hnext⟩ := next_cases c
    · rw [hnext] at hitem
      cases hitem
    · rw [hnext] at hitem hfit hdepth hsize
      cases hitem
      have hshort := hspells.size_le
      refine ⟨⟨hspells.fits, hfit⟩, hdepth, ?_⟩
      rw [Encoder.totalSize_cons]
      simp only at hsize
      omega
    · rw [hnext] at hitem
      cases hitem

/-- There is one way to read on to the end. -/
theorem Reads.unique {c d e : Cursor} {items more : List Item} (h : c.Reads items d)
    (hd : d.isEnd = true) (hmore : c.Reads more e) (he : e.isEnd = true) : items = more := by
  induction items generalizing c more with
  | nil =>
    cases h
    cases more with
    | nil => rfl
    | cons item rest =>
      obtain ⟨hitem, _⟩ := reads_cons.1 hmore
      rw [next_of_isEnd hd] at hitem
      cases hitem
  | cons item rest ih =>
    obtain ⟨hitem, hrest⟩ := reads_cons.1 h
    cases more with
    | nil =>
      cases hmore
      rw [next_of_isEnd he] at hitem
      cases hitem
    | cons other others =>
      obtain ⟨hother, hothers⟩ := reads_cons.1 hmore
      rw [hitem] at hother
      cases hother
      rw [ih hrest hothers]

end Cursor

theorem Decodes.unique {bytes : Bytes} {items more : List Item} (h : Decodes bytes items)
    (hmore : Decodes bytes more) : items = more := by
  have hend : Cursor.isEnd ⟨bytes, bytes.length, 0, false⟩ = true := by simp [Cursor.isEnd]
  exact Cursor.Reads.unique h hend hmore hend

namespace Encoder

theorem length_containersAfter (containers : List Container) (item : Item) :
    (containersAfter containers item).length = item.depthAfter containers.length := by
  cases item <;> simp [containersAfter, Item.depthAfter]

/-- What the reader accepts the writer allows, if the tags inside arrays are zero. -/
theorem placed_of_fit {containers : List Container} {items : List Item}
    (hfit : AllFit containers.length items) (htags : ArrayTagsZero containers items) :
    Placed containers items := by
  induction items generalizing containers with
  | nil => trivial
  | cons item rest ih =>
    obtain ⟨hitem, hrest⟩ := hfit
    obtain ⟨htag, hothers⟩ := htags
    rw [← length_containersAfter] at hrest
    have htagFault : ∀ tag ∈ item.tag?, tagFault? ⟨[], 0, containers⟩ tag = none := by
      intro tag hmem
      exact if_neg (fun hbad => hbad.2 (htag hbad.1 tag hmem))
    refine ⟨?_, ih hrest hothers⟩
    cases item with
    | text tag s =>
      rw [placeFault?, if_neg (Nat.not_lt_of_le hitem)]
      exact htagFault tag rfl
    | start tag container =>
      rw [placeFault?, depth, if_neg (Nat.not_le_of_lt hitem)]
      exact htagFault tag rfl
    | stop => exact if_neg (Nat.ne_of_gt hitem)
    | signed tag v => exact htagFault tag rfl
    | unsigned tag v => exact htagFault tag rfl
    | boolean tag v => exact htagFault tag rfl

theorem Holds.decodes {e : Encoder} {items : List Item} (h : e.Holds items) (hdepth : e.depth = 0) :
    Decodes e.written items := by
  have hreads := h.reads_back
  rw [hdepth, ← length_written h.used_le] at hreads
  exact hreads

/-- Items that end outside every container are written into any buffer that has room for them. -/
theorem putAll_finish {items : List Item} (hplaced : Placed [] items)
    (hdepth : depthThrough 0 items = 0) {buffer : Bytes} (hroom : totalSize items ≤ buffer.length) :
    ∃ e, (ofBuffer buffer).putAll items = (.ok (), e) ∧
      e.finish = .ok (items.flatMap Item.toBytes) ∧ e.Holds items := by
  obtain ⟨e, hput⟩ := putAll_of_placed (e := ofBuffer buffer) hplaced hroom
  have hholds := (holds_ofBuffer buffer).putAll hput
  exact ⟨e, hput, finish_ok_iff.2 ⟨hholds.depth.trans hdepth, hholds.written.symm⟩, hholds⟩

theorem offerAll_of_putAll {e final : Encoder} {items : List Item}
    (h : e.putAll items = (.ok (), final)) : e.offerAll items = (items, final) := by
  induction items generalizing e with
  | nil =>
    cases h
    rfl
  | cons item rest ih =>
    obtain ⟨next, hput, hrest⟩ := put_of_putAll h
    rw [offerAll, hput]
    simp only [ih hrest]

/-- What writing the items of some bytes anew gives. -/
structure Rewritten (bytes : Bytes) (items : List Item) (canonical : Bytes) : Prop where
  /-- Every item is taken, and a buffer as long as the bytes read has room for all of them. -/
  written : ∀ buffer : Bytes, buffer.length = bytes.length →
    ∃ e, (ofBuffer buffer).putAll items = (.ok (), e) ∧ e.finish = .ok canonical
  length_le : canonical.length ≤ bytes.length
  decodes : Decodes canonical items
  again : ∀ buffer : Bytes, buffer.length = canonical.length →
    ∃ e, (ofBuffer buffer).putAll items = (.ok (), e) ∧ e.finish = .ok canonical
  /-- Only what some session of a writer gave is its own rewriting. -/
  same_iff : canonical = bytes ↔
    ∃ buffer calls, ((ofBuffer buffer).offerAll calls).2.finish = .ok bytes

/-- Items that were read from bytes are written anew in the space of these bytes: the rewriting is
no longer, holds the same items and is its own rewriting. It is the bytes themselves if and only if
a writer has written these, in a session of any calls. -/
theorem reencode_canonical {bytes : Bytes} {items : List Item} (hdecodes : Decodes bytes items)
    (htags : ArrayTagsZero [] items) :
    Rewritten bytes items (items.flatMap Item.toBytes) := by
  obtain ⟨hfit, hclosed, hsize⟩ := hdecodes.accepts
  have hplaced : Placed [] items := placed_of_fit hfit htags
  have hdepth : depthThrough 0 items = 0 := hclosed.symm
  have hlength := length_flatMap_toBytes items
  have hroom : totalSize items ≤ bytes.length := by
    simp only [Cursor.start] at hsize
    omega
  have hwritten : ∀ buffer : Bytes, totalSize items ≤ buffer.length →
      ∃ e, (ofBuffer buffer).putAll items = (.ok (), e) ∧
        e.finish = .ok (items.flatMap Item.toBytes) ∧ e.Holds items :=
    fun buffer hbuffer => putAll_finish hplaced hdepth hbuffer
  obtain ⟨e, hput, hfinish, hholds⟩ := hwritten bytes hroom
  constructor
  · intro buffer hbuffer
    obtain ⟨d, hputs, hends, _⟩ := hwritten buffer (by omega)
    exact ⟨d, hputs, hends⟩
  · omega
  · rw [← hholds.written]
    exact hholds.decodes (hholds.depth.trans hdepth)
  · intro buffer hbuffer
    obtain ⟨d, hputs, hends, _⟩ := hwritten buffer (by omega)
    exact ⟨d, hputs, hends⟩
  · constructor
    · intro hsame
      refine ⟨bytes, items, ?_⟩
      rw [offerAll_of_putAll hput, hfinish, hsame]
    · rintro ⟨buffer, calls, hsession⟩
      obtain ⟨hclosed, hbytes⟩ := finish_ok_iff.1 hsession
      have htaken := (holds_ofBuffer buffer).offerAll calls
      have hagain := htaken.decodes hclosed
      rw [← hbytes] at hagain
      rw [hdecodes.unique hagain, hbytes, htaken.written]

/-- An array with low bits set, in it a number in four bytes where one would do and an empty
structure with low bits set, then a negative number in two bytes and a text. -/
theorem reencode_canonical_wide :
    Decodes [0xCF, 5, 0x2A, 0, 7, 0, 0, 0, 0xE9, 0, 0xA0, 0xA0, 0x09, 3, 0xFF, 0xFF,
        0x88, 0, 2, 0x6F, 0x6B]
      [.start 5 .array, .unsigned 0 7, .start 0 .struct, .stop, .stop, .signed 3 (-1),
        .text 0 "ok"] ∧
    ArrayTagsZero [] [.start 5 .array, .unsigned 0 7, .start 0 .struct, .stop, .stop,
      .signed 3 (-1), .text 0 "ok"] ∧
    Rewritten [0xCF, 5, 0x2A, 0, 7, 0, 0, 0, 0xE9, 0, 0xA0, 0xA0, 0x09, 3, 0xFF, 0xFF,
        0x88, 0, 2, 0x6F, 0x6B]
      [.start 5 .array, .unsigned 0 7, .start 0 .struct, .stop, .stop, .signed 3 (-1),
        .text 0 "ok"]
      [0xC8, 5, 0x28, 0, 7, 0xE8, 0, 0xA0, 0xA0, 0x08, 3, 0xFF, 0x88, 0, 2, 0x6F, 0x6B] := by
  have hdecodes : Decodes [0xCF, 5, 0x2A, 0, 7, 0, 0, 0, 0xE9, 0, 0xA0, 0xA0, 0x09, 3, 0xFF, 0xFF,
        0x88, 0, 2, 0x6F, 0x6B]
      [.start 5 .array, .unsigned 0 7, .start 0 .struct, .stop, .stop, .signed 3 (-1),
        .text 0 "ok"] := by decide +kernel
  have htags : ArrayTagsZero [] [.start 5 .array, .unsigned 0 7, .start 0 .struct, .stop, .stop,
      .signed 3 (-1), .text 0 "ok"] := by decide +kernel
  exact ⟨hdecodes, htags, reencode_canonical hdecodes htags⟩

end Encoder

end BurnerTelemetry.Tlv
