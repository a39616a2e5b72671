import BurnerTelemetry.Attribute.Report
import BurnerTelemetry.Proofs.Tlv.Continuation

/-!
The reports that a decoder takes. Apart from the starts inside an entry no tag is looked at, and a
value fits the cluster that is named in front of it. Main statements: bytes are read as some entries
exactly when their first items list these, and items that list entries are not the first of others
that do.
-/
namespace BurnerTelemetry.Attribute.Report

open Tlv (Container Cursor Item)

/-- The item that holds a value of the attribute in a cluster. -/
inductive Shows : UInt32 → Item → Value → Prop where
  | onOff (tag : UInt8) (on : Bool) : Shows onOffCluster (.boolean tag on) (.onOff on)
  | level (tag percent : UInt8) :
    Shows levelCluster (.unsigned tag percent.toUInt32) (.level percent)
  | centidegrees (tag : UInt8) (value : Int32) :
    Shows temperatureCluster (.signed tag value) (.centidegrees value)

/-- The items of an entry behind its outer start. -/
inductive Describes : List Item → Entry → Prop where
  | intro {e : Entry} {value : Item} (version endpoint cluster id : UInt8)
      (shown : Shows e.cluster value e.value) :
    Describes [.start 1 .struct, .unsigned version e.version, .start 1 .struct,
      .unsigned endpoint e.endpoint.toUInt32, .unsigned cluster e.cluster,
      .unsigned id e.attributeId, .stop, value, .stop, .stop] e

/-- The items of some entries, with the stop of the array that holds them. -/
inductive Lists : List Item → List Entry → Prop where
  | nil : Lists [.stop] []
  | cons {items more : List Item} {e : Entry} {es : List Entry} (tag : UInt8)
      (head : Describes items e) (tail : Lists more es) :
    Lists (.start tag .struct :: (items ++ more)) (e :: es)

theorem Shows.cluster_eq {cluster : UInt32} {item : Item} {value : Value}
    (h : Shows cluster item value) : cluster = value.cluster := by
  cases h <;> rfl

theorem shows_item (v : Value) : Shows v.cluster v.item v := by
  cases v with
  | onOff on => exact .onOff 2 on
  | level percent => exact .level 2 percent
  | centidegrees value => exact .centidegrees 2 value

/-- An entry that is written is described by its items, if its value fits its cluster. -/
theorem describes_entryItems {e : Entry} (h : e.cluster = e.value.cluster) :
    Describes (entryItems e).tail e := by
  have hshown : Shows e.cluster e.value.item e.value := h ▸ shows_item e.value
  exact .intro 0 0 2 3 hshown

theorem lists_entryItems {es : List Entry} (h : ∀ e ∈ es, e.cluster = e.value.cluster) :
    Lists (es.flatMap entryItems ++ [.stop]) es := by
  induction es with
  | nil => exact .nil
  | cons e es ih =>
    have htail := ih (fun d hd => h d (List.mem_cons_of_mem e hd))
    rw [List.flatMap_cons, List.append_assoc]
    exact .cons 0 (describes_entryItems (h e List.mem_cons_self)) htail

/-- Each entry that is listed has a value of its cluster. -/
theorem Lists.cluster_eq {items : List Item} {es : List Entry} (h : Lists items es) :
    ∀ e ∈ es, e.cluster = e.value.cluster := by
  induction h with
  | nil => exact fun e he => absurd he List.not_mem_nil
  | cons tag head _ ih =>
    intro e he
    rcases List.mem_cons.1 he with rfl | he
    · obtain ⟨_, _, _, _, hshown⟩ := head
      exact hshown.cluster_eq
    · exact ih e he

/-- All entries have the same number of items, so the stop of the array stands where the first list
ends. -/
theorem Lists.eq_of_front {items others : List Item} {es fs : List Entry} (h : Lists items es)
    (hothers : Lists others fs) (hcut : items <+: others) : items = others := by
  induction h generalizing others fs with
  | nil =>
    cases hothers with
    | nil => rfl
    | cons tag head tail => cases (List.cons_prefix_cons.1 hcut).1
  | cons tag head tail ih =>
    cases hothers with
    | nil => cases (List.cons_prefix_cons.1 hcut).1
    | cons otherTag otherHead otherTail =>
      obtain ⟨htag, hrest⟩ := List.cons_prefix_cons.1 hcut
      obtain ⟨_, _, _, _, _⟩ := head
      obtain ⟨_, _, _, _, _⟩ := otherHead
      simp only [List.cons_append, List.nil_append, List.cons_prefix_cons] at hrest
      simp only [List.cons_append, List.nil_append, htag]
      obtain ⟨_, h1, _, h3, h4, h5, _, h7, _, _, hmore⟩ := hrest
      rw [h1, h3, h4, h5, h7, ih otherTail hmore]

section Taking

variable {v rest : Visits}

theorem takeItem_ok_iff {item : Item} : takeItem v = .ok (item, rest) ↔ v = .ok item :: rest := by
  constructor
  · intro h
    unfold takeItem at h
    split at h
    · cases h
    · cases h
    · cases h
      rfl
  · rintro rfl
    rfl

theorem takeWith_ok_iff {fault : ReportFault} {read? : Item → Option α} {a : α} :
    takeWith fault read? v = .ok (a, rest) ↔ ∃ item, v = .ok item :: rest ∧ read? item = some a := by
  constructor
  · intro h
    obtain ⟨⟨item, more⟩, hitem, hread⟩ := bind_ok h
    obtain rfl := takeItem_ok_iff.1 hitem
    simp only at hread
    split at hread
    · rename_i hsome
      cases hread
      exact ⟨item, rfl, hsome⟩
    · cases hread
  · rintro ⟨item, rfl, hread⟩
    simp only [takeWith, takeItem, bind, Except.bind, hread, pure, Except.pure]

theorem takeStart_ok_iff {container : Container} {tag : UInt8} :
    takeStart container tag v = .ok ((), rest) ↔ v = .ok (.start tag container) :: rest := by
  rw [takeStart, takeWith_ok_iff]
  simp

theorem takeStop_ok_iff : takeStop v = .ok ((), rest) ↔ v = .ok .stop :: rest := by
  rw [takeStop, takeWith_ok_iff]
  simp

theorem takeWord_ok_iff {fault : ReportFault} {n : UInt32} :
    takeWord fault v = .ok (n, rest) ↔ ∃ tag, v = .ok (.unsigned tag n) :: rest := by
  rw [takeWord, takeWith_ok_iff]
  constructor
  · rintro ⟨item, rfl, hread⟩
    cases item with
    | unsigned tag value =>
      cases hread
      exact ⟨tag, rfl⟩
    | _ => cases hread
  · rintro ⟨tag, rfl⟩
    exact ⟨_, rfl, rfl⟩

theorem takeOctet_ok_iff {fault : ReportFault} {n : UInt8} :
    takeOctet fault v = .ok (n, rest) ↔ ∃ tag, v = .ok (.unsigned tag n.toUInt32) :: rest := by
  rw [takeOctet, takeWith_ok_iff]
  constructor
  · rintro ⟨item, rfl, hread⟩
    obtain ⟨value, hvalue, rfl⟩ := Option.map_eq_some_iff.1 hread
    cases item with
    | unsigned tag word =>
      simp only [Item.unsignedBelow?] at hvalue
      split at hvalue
      · rename_i hsmall
        cases hvalue
        have hword : (UInt8.ofNat word.toNat).toUInt32 = word := by
          apply UInt32.toNat_inj.1
          rw [UInt8.toNat_toUInt32, UInt8.toNat_ofNat', Nat.mod_eq_of_lt hsmall]
        rw [hword]
        exact ⟨tag, rfl⟩
      · cases hvalue
    | _ => cases hvalue
  · rintro ⟨tag, rfl⟩
    refine ⟨_, rfl, ?_⟩
    simp [Item.unsignedBelow?, n.toNat_lt]

theorem takeValue_ok_iff {cluster : UInt32} {value : Value} :
    takeValue cluster v = .ok (value, rest) ↔
      ∃ item, v = .ok item :: rest ∧ Shows cluster item value := by
  unfold takeValue
  split
  · rename_i hlevel
    subst hlevel
    constructor
    · intro h
      cases htake : takeOctet .notALevel v with
      | error e =>
        rw [htake] at h
        cases h
      | ok found =>
        rw [htake] at h
        cases h
        obtain ⟨tag, rfl⟩ := takeOctet_ok_iff.1 htake
        exact ⟨_, rfl, .level tag found.1⟩
    · rintro ⟨item, rfl, hshown⟩
      generalize hcluster : levelCluster = cluster at hshown
      cases hshown with
      | onOff => cases hcluster
      | level tag percent => rw [takeOctet_ok_iff.2 ⟨tag, rfl⟩]; rfl
      | centidegrees => cases hcluster
  · rename_i hlevel
    rw [takeWith_ok_iff]
    constructor
    · rintro ⟨item, rfl, hread⟩
      refine ⟨item, rfl, ?_⟩
      split at hread
      · split at hread
        · rename_i hcluster
          cases hread
          exact hcluster ▸ .onOff _ _
        · cases hread
      · split at hread
        · rename_i hcluster
          cases hread
          exact hcluster ▸ .centidegrees _ _
        · cases hread
      · cases hread
    · rintro ⟨item, rfl, hshown⟩
      refine ⟨item, rfl, ?_⟩
      cases hshown with
      | onOff => exact if_pos rfl
      | level => exact absurd rfl hlevel
      | centidegrees => exact if_pos rfl

/-- An entry that is taken is described by the items that are taken. -/
theorem takeEntry_ok_iff {e : Entry} :
    takeEntry v = .ok (e, rest) ↔ ∃ items, Describes items e ∧ v = items.map .ok ++ rest := by
  constructor
  · intro h
    unfold takeEntry at h
    obtain ⟨⟨_, v1⟩, h1, h⟩ := bind_ok h
    obtain ⟨⟨version, v2⟩, h2, h⟩ := bind_ok h
    obtain ⟨⟨_, v3⟩, h3, h⟩ := bind_ok h
    obtain ⟨⟨endpoint, v4⟩, h4, h⟩ := bind_ok h
    obtain ⟨⟨cluster, v5⟩, h5, h⟩ := bind_ok h
    obtain ⟨⟨id, v6⟩, h6, h⟩ := bind_ok h
    obtain ⟨⟨_, v7⟩, h7, h⟩ := bind_ok h
    obtain ⟨⟨value, v8⟩, h8, h⟩ := bind_ok h
    obtain ⟨⟨_, v9⟩, h9, h⟩ := bind_ok h
    obtain ⟨⟨_, v10⟩, h10, h⟩ := bind_ok h
    cases h
    obtain rfl := takeStart_ok_iff.1 h1
    obtain ⟨_, rfl⟩ := takeWord_ok_iff.1 h2
    obtain rfl := takeStart_ok_iff.1 h3
    obtain ⟨_, rfl⟩ := takeOctet_ok_iff.1 h4
    obtain ⟨_, rfl⟩ := takeWord_ok_iff.1 h5
    obtain ⟨_, rfl⟩ := takeWord_ok_iff.1 h6
    obtain rfl := takeStop_ok_iff.1 h7
    obtain ⟨_, rfl, hshown⟩ := takeValue_ok_iff.1 h8
    obtain rfl := takeStop_ok_iff.1 h9
    obtain rfl := takeStop_ok_iff.1 h10
    exact ⟨_, .intro _ _ _ _ hshown, rfl⟩
  · rintro ⟨_, ⟨_, _, _, _, hshown⟩, rfl⟩
    have hstart (more : Visits) :
        takeStart .struct 1 (.ok (.start 1 .struct) :: more) = .ok ((), more) :=
      takeStart_ok_iff.2 rfl
    have hstop (more : Visits) : takeStop (.ok .stop :: more) = .ok ((), more) :=
      takeStop_ok_iff.2 rfl
    have hword (fault : ReportFault) (tag : UInt8) (n : UInt32) (more : Visits) :
        takeWord fault (.ok (.unsigned tag n) :: more) = .ok (n, more) :=
      takeWord_ok_iff.2 ⟨tag, rfl⟩
    have hoctet (fault : ReportFault) (tag n : UInt8) (more : Visits) :
        takeOctet fault (.ok (.unsigned tag n.toUInt32) :: more) = .ok (n, more) :=
      takeOctet_ok_iff.2 ⟨tag, rfl⟩
    have hvalue (more : Visits) : takeValue e.cluster (.ok _ :: more) = .ok (e.value, more) :=
      takeValue_ok_iff.2 ⟨_, rfl, hshown⟩
    simp only [takeEntry, List.map_cons, List.map_nil, List.cons_append, List.nil_append, hstart,
      hword, hoctet, hstop, hvalue, bind, Except.bind, pure, Except.pure]

theorem takeEntries_stop (rest : Visits) : takeEntries (.ok .stop :: rest) = .ok [] := by
  rw [takeEntries]
  rfl

theorem takeEntries_struct {e : Entry} {more : Visits} (tag : UInt8)
    (h : takeEntry rest = .ok (e, more)) :
    takeEntries (.ok (.start tag .struct) :: rest) =
      (takeEntries more).map (fun entries => e :: entries) := by
  rw [takeEntries]
  split
  · rename_i hitem
    cases hitem
  · rename_i hitem
    cases hitem
  · rename_i hitem
    cases hitem
    split
    · rename_i hentry
      rw [h] at hentry
      cases hentry
    · rename_i hentry
      rw [h] at hentry
      cases hentry
      rfl
  · rename_i hother hitem
    cases hitem
    exact absurd rfl (hother _ _)

/-- The entries that are taken are listed by the items in front. -/
theorem takeEntries_ok_iff {es : List Entry} :
    takeEntries v = .ok es ↔ ∃ items, Lists items es ∧ items.map .ok <+: v := by
  constructor
  · intro h
    fun_induction takeEntries v generalizing es with
    | case1 v e hitem => cases h
    | case2 v rest hitem =>
      cases h
      exact ⟨_, .nil, rest, (takeItem_ok_iff.1 hitem).symm⟩
    | case3 v tag rest hitem e hentry => cases h
    | case4 v tag rest hitem e more hentry ih =>
      obtain rfl := takeItem_ok_iff.1 hitem
      obtain ⟨items, hdescribes, rfl⟩ := takeEntry_ok_iff.1 hentry
      cases hmore : takeEntries more with
      | error fault =>
        rw [hmore] at h
        cases h
      | ok later =>
        rw [hmore] at h
        cases h
        obtain ⟨others, hlists, back, rfl⟩ := ih hmore
        refine ⟨_, .cons tag hdescribes hlists, back, ?_⟩
        simp only [List.map_cons, List.map_append, List.cons_append, List.append_assoc]
    | case5 => cases h
  · rintro ⟨items, hlists, more, rfl⟩
    induction hlists with
    | nil => exact takeEntries_stop more
    | @cons items others e es tag head tail ih =>
      rw [List.map_cons, List.map_append, List.cons_append, List.append_assoc,
        takeEntries_struct tag (takeEntry_ok_iff.2 ⟨items, head, rfl⟩), ih]
      rfl

end Taking

/-- Bytes are read as the entries of a report exactly when the items that they yield begin with an
array that lists these. -/
theorem decode_ok_iff {bytes : Bytes} {es : List Entry} :
    decode bytes = .ok es ↔
      ∃ items, Lists items es ∧ .start 1 .array :: items <+: (Cursor.start bytes).yields := by
  simp only [← Cursor.map_ok_prefix_iff, List.map_cons]
  constructor
  · intro h
    obtain ⟨⟨_, v⟩, hstart, hentries⟩ := bind_ok h
    obtain ⟨items, hlists, hcut⟩ := takeEntries_ok_iff.1 hentries
    rw [takeStart_ok_iff.1 hstart]
    exact ⟨items, hlists, (List.prefix_cons_inj _).2 hcut⟩
  · rintro ⟨items, hlists, more, hmore⟩
    rw [decode, ← hmore, List.cons_append, takeStart_ok_iff.2 rfl]
    exact takeEntries_ok_iff.2 ⟨items, hlists, more, rfl⟩

end BurnerTelemetry.Attribute.Report
