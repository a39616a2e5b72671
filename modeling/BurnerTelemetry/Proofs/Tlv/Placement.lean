import BurnerTelemetry.Proofs.Tlv.Session

/-!
Writing many items in one go. Whether an item may stand at its place depends on the open
containers alone, so a list of items is checked without a buffer; items are all written when each
may stand where it is put and there is room for all. What was written before them stays.
-/
namespace BurnerTelemetry.Tlv

namespace Encoder

/-- The open containers behind some items. -/
def containersThrough (containers : List Container) (items : List Item) : List Container :=
  items.foldl containersAfter containers

/-- Each of the items may stand where those before it leave the containers. -/
def Placed (containers : List Container) : List Item → Prop
  | [] => True
  | item :: rest =>
    placeFault? ⟨[], 0, containers⟩ item = none ∧ Placed (containersAfter containers item) rest

/-- The number of bytes of the written forms. -/
def totalSize (items : List Item) : Nat := (items.map Item.size).sum

@[simp] theorem containersThrough_nil (containers : List Container) :
    containersThrough containers [] = containers := rfl
@[simp] theorem containersThrough_cons (containers : List Container) (item : Item)
    (rest : List Item) : containersThrough containers (item :: rest) =
      containersThrough (containersAfter containers item) rest := rfl
@[simp] theorem totalSize_nil : totalSize [] = 0 := rfl
@[simp] theorem totalSize_cons (item : Item) (rest : List Item) :
    totalSize (item :: rest) = item.size + totalSize rest := List.sum_cons

/-- The size of some items is the number of bytes of their written forms. -/
theorem length_flatMap_toBytes (items : List Item) :
    (items.flatMap Item.toBytes).length = totalSize items := List.length_flatMap

theorem containersThrough_append (containers : List Container) (front back : List Item) :
    containersThrough containers (front ++ back) =
      containersThrough (containersThrough containers front) back := List.foldl_append

theorem totalSize_append (front back : List Item) :
    totalSize (front ++ back) = totalSize front + totalSize back := by
  rw [totalSize, List.map_append, List.sum_append]
  rfl

theorem placed_append (containers : List Container) (front back : List Item) :
    Placed containers (front ++ back) ↔
      Placed containers front ∧ Placed (containersThrough containers front) back := by
  induction front generalizing containers with
  | nil => simp [Placed]
  | cons item rest ih => simp [Placed, ih, and_assoc]

theorem placeFault?_of_containers (e : Encoder) (item : Item) :
    placeFault? ⟨[], 0, e.containers⟩ item = e.placeFault? item := by
  cases item <;> rfl

theorem put_of_placed {e : Encoder} {item : Item}
    (hplace : placeFault? ⟨[], 0, e.containers⟩ item = none) (hroom : item.size ≤ e.remaining) :
    e.put item = .ok (e.write item) := by
  rw [placeFault?_of_containers] at hplace
  exact put_ok_iff.2 ⟨hplace, hroom, rfl⟩

/-- What is left after an item is less by its size. -/
theorem remaining_write {e : Encoder} {item : Item} (hroom : item.size ≤ e.remaining) :
    (e.write item).remaining + item.size = e.remaining := by
  have hend := used_le_of_room hroom
  simp only [remaining, length_buffer_write hend, used_write]
  omega

/-- Items are all written if each may stand where it is put and there is room for all of them, and
in no other case. -/
theorem putAll_ok_iff (e : Encoder) (items : List Item) :
    (e.putAll items).1 = .ok () ↔ Placed e.containers items ∧ totalSize items ≤ e.remaining := by
  induction items generalizing e with
  | nil => simp [putAll, Placed]
  | cons item rest ih =>
    unfold putAll
    cases hput : e.put item with
    | error fault =>
      constructor
      · intro hok
        cases hok
      · rintro ⟨⟨hplace, _⟩, hroom⟩
        rw [totalSize_cons] at hroom
        rw [put_of_placed hplace (by omega)] at hput
        cases hput
    | ok next =>
      obtain ⟨hplace, hroom, rfl⟩ := put_ok_iff.1 hput
      have hleft := remaining_write hroom
      change ((e.write item).putAll rest).1 = .ok () ↔ _
      rw [ih, totalSize_cons, Placed, placeFault?_of_containers]
      change Placed (containersAfter e.containers item) rest ∧ _ ↔ _
      constructor
      · rintro ⟨hrest, hfits⟩
        exact ⟨⟨hplace, hrest⟩, by omega⟩
      · rintro ⟨⟨_, hrest⟩, hfits⟩
        exact ⟨hrest, by omega⟩

theorem putAll_of_placed {e : Encoder} {items : List Item} (hplace : Placed e.containers items)
    (hroom : totalSize items ≤ e.remaining) : ∃ final, e.putAll items = (.ok (), final) :=
  ⟨(e.putAll items).2, Prod.ext ((putAll_ok_iff e items).2 ⟨hplace, hroom⟩) rfl⟩

theorem put_of_putAll {e final : Encoder} {item : Item} {rest : List Item}
    (h : e.putAll (item :: rest) = (.ok (), final)) :
    ∃ next, e.put item = .ok next ∧ next.putAll rest = (.ok (), final) := by
  unfold putAll at h
  cases hput : e.put item with
  | error fault =>
    rw [hput] at h
    cases h
  | ok next =>
    rw [hput] at h
    exact ⟨next, rfl, h⟩

/-- Items that are all written stand behind what was written before. -/
theorem putAll_ok {e final : Encoder} {items : List Item}
    (h : e.putAll items = (.ok (), final)) :
    final.written = e.written ++ items.flatMap Item.toBytes ∧
      final.containers = containersThrough e.containers items := by
  induction items generalizing e with
  | nil =>
    cases h
    exact ⟨(List.append_nil _).symm, rfl⟩
  | cons item rest ih =>
    obtain ⟨next, hput, hrest⟩ := put_of_putAll h
    obtain ⟨_, hroom, rfl⟩ := put_ok_iff.1 hput
    have hused : e.used ≤ e.buffer.length :=
      Nat.le_trans (Nat.le_add_right _ _) (used_le_of_room hroom)
    obtain ⟨hwritten, hcontainers⟩ := ih hrest
    rw [written_write hused, List.append_assoc] at hwritten
    exact ⟨hwritten, hcontainers⟩

theorem Holds.putAll {e final : Encoder} {held items : List Item} (h : e.Holds held)
    (hall : e.putAll items = (.ok (), final)) : final.Holds (held ++ items) := by
  induction items generalizing e held with
  | nil =>
    cases hall
    rw [List.append_nil]
    exact h
  | cons item rest ih =>
    obtain ⟨next, hput, hrest⟩ := put_of_putAll hall
    have hholds := ih (h.put hput) hrest
    rwa [List.append_assoc] at hholds

/-- The later encoder has all that the earlier one had written, where it was written. -/
def Extends (later earlier : Encoder) : Prop :=
  earlier.used ≤ later.used ∧ later.buffer.take earlier.used = earlier.written

theorem Extends.refl (e : Encoder) : e.Extends e := ⟨Nat.le_refl _, rfl⟩

theorem Extends.trans {a b c : Encoder} (hcb : c.Extends b) (hba : b.Extends a) :
    c.Extends a := by
  refine ⟨Nat.le_trans hba.1 hcb.1, ?_⟩
  calc c.buffer.take a.used
      = (c.buffer.take b.used).take a.used := by rw [List.take_take, Nat.min_eq_left hba.1]
    _ = (b.buffer.take b.used).take a.used := by rw [hcb.2, written]
    _ = b.buffer.take a.used := by rw [List.take_take, Nat.min_eq_left hba.1]
    _ = a.written := hba.2

theorem extends_write {e : Encoder} {item : Item} (hroom : item.size ≤ e.remaining) :
    (e.write item).Extends e := by
  have hend := used_le_of_room hroom
  have hlength : e.written.length = e.used := length_written (by omega)
  refine ⟨Nat.le_add_right _ _, ?_⟩
  change (e.written ++ item.toBytes ++ _).take e.used = e.written
  rw [List.append_assoc, List.take_left' hlength]

/-- Whether they were all written or not, the items left what was written before. -/
theorem extends_putAll (e : Encoder) (items : List Item) : (e.putAll items).2.Extends e := by
  induction items generalizing e with
  | nil => exact Extends.refl e
  | cons item rest ih =>
    unfold putAll
    cases hput : e.put item with
    | error fault => exact Extends.refl e
    | ok next =>
      obtain ⟨_, hroom, rfl⟩ := put_ok_iff.1 hput
      exact (ih (e.write item)).trans (extends_write hroom)

end Encoder

end BurnerTelemetry.Tlv
