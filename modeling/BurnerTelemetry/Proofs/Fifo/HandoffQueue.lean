import BurnerTelemetry.HandoffQueue
import BurnerTelemetry.Proofs.Fifo.Around

/-!
The handoff queue as a queue. The values that wait lie around the slots from the count of taken
values on. A count may wrap where the wrap agrees with the capacity; the lemmas ask for just that.
-/
namespace BurnerTelemetry.HandoffQueue

open Fifo (Around)

variable {α : Type} {capacity : Nat}

/-- The values that wait, oldest first. -/
structure Holds (q : HandoffQueue α capacity) (values : List α) : Prop where
  size : q.size = values.length
  length_le : values.length ≤ capacity
  aligned : q.written.toNat % capacity = (q.taken.toNat + values.length) % capacity
  around : Around capacity q.slot? q.taken.toNat (values.map some)

theorem holds_empty : (empty : HandoffQueue α capacity).Holds [] :=
  ⟨size_empty, Nat.zero_le _, rfl, trivial⟩

/-- A capacity that divides the word size agrees with every wrap. -/
theorem add_one_mod_of_dvd (h : capacity ∣ 2 ^ 64) (n : UInt64) :
    (n + 1).toNat % capacity = (n.toNat + 1) % capacity := by
  rw [UInt64.toNat_add, UInt64.toNat_one, Nat.mod_mod_of_dvd _ h]

variable {q : HandoffQueue α capacity} {values : List α}

theorem Holds.toList_eq (h : q.Holds values) : q.toList = values := by
  have hslots := congrArg (List.filterMap id) h.around.map_range
  rw [List.length_map, List.filterMap_map, List.filterMap_map, Function.id_comp, Function.id_comp,
    List.filterMap_some] at hslots
  rw [toList, h.size]
  exact hslots

theorem Holds.dropWriter (h : q.Holds values) : q.dropWriter.Holds values :=
  ⟨h.size, h.length_le, h.aligned, h.around⟩

theorem Holds.dropReader (h : q.Holds values) : q.dropReader.Holds values :=
  ⟨h.size, h.length_le, h.aligned, h.around⟩

theorem sides_push {a : α} {next : HandoffQueue α capacity} (h : q.push a = .ok next) :
    next.hasReader = q.hasReader ∧ next.hasWriter = q.hasWriter := by
  unfold HandoffQueue.push at h
  split at h
  · cases h
  · cases h
    exact ⟨rfl, rfl⟩

theorem sides_pop (q : HandoffQueue α capacity) :
    q.pop.2.hasReader = q.hasReader ∧ q.pop.2.hasWriter = q.hasWriter := by
  unfold HandoffQueue.pop
  split
  · exact ⟨rfl, rfl⟩
  · exact ⟨rfl, rfl⟩

/-- A value that finds room is written to a slot and counted. -/
theorem push_ok_of_lt (h : q.Holds values) (hroom : values.length < capacity) (a : α) :
    q.push a = .ok { q with
      slots := q.slots.setIfInBounds (q.written.toNat % capacity) (some a)
      written := q.written + 1 } := by
  have hnotFull : ¬ q.isFull = true := by
    rw [isFull, h.size, decide_eq_true_eq]
    omega
  exact if_neg hnotFull

theorem Holds.push (h : q.Holds values) (hroom : values.length < capacity)
    (hword : values.length + 1 < 2 ^ 64)
    (hwrap : (q.written + 1).toNat % capacity = (q.written.toNat + 1) % capacity) (a : α) :
    ∃ next, q.push a = .ok next ∧ next.Holds (values ++ [a]) ∧ next.hasReader = q.hasReader ∧
      next.hasWriter = q.hasWriter := by
  have hsize := h.size
  refine ⟨_, push_ok_of_lt h hroom a, ?_, rfl, rfl⟩
  constructor
  · have hadd : q.written + 1 - q.taken = q.written - q.taken + 1 := by
      rw [UInt64.sub_eq_add_neg, UInt64.sub_eq_add_neg, UInt64.add_assoc, UInt64.add_assoc,
        UInt64.add_comm 1]
    simp only [HandoffQueue.size] at hsize ⊢
    rw [hadd, UInt64.toNat_add, hsize, UInt64.toNat_one, List.length_append, List.length_singleton]
    exact Nat.mod_eq_of_lt (by omega)
  · rw [List.length_append, List.length_singleton]
    exact hroom
  · rw [List.length_append, List.length_singleton, ← Nat.add_assoc]
    exact hwrap.trans (Nat.ModEq.add_right 1 h.aligned)
  · rw [List.map_append, List.map_singleton]
    have hlength : (values.map some).length = values.length := List.length_map _
    have hindex : q.written.toNat % capacity < capacity := Nat.mod_lt _ (by omega)
    apply h.around.push
    · rw [hlength]
      exact hroom
    · rw [hlength, ← h.aligned]
      simp only [slot?, Vector.getElem?_setIfInBounds_self_of_lt hindex]
      rfl
    · intro i hi
      rw [hlength, ← h.aligned] at hi
      simp only [slot?, Vector.getElem?_setIfInBounds_ne (Ne.symm hi)]

theorem push_full (h : q.Holds values) (hfull : values.length = capacity) (a : α) :
    q.push a = .error a := by
  have hisFull : q.isFull = true := by
    rw [isFull, h.size, decide_eq_true_eq, hfull]
  rw [push, if_pos hisFull]

/-- When nothing waits the two counts are equal. -/
theorem written_eq_taken (h : q.Holds []) : q.written = q.taken := by
  have hsize : q.written - q.taken = 0 := UInt64.toNat_inj.1 h.size
  exact (UInt64.sub_eq_iff_eq_add.1 hsize).trans (UInt64.zero_add _)

theorem pop_nil (h : q.Holds []) : q.pop = (none, q) := by
  rw [pop, if_pos (written_eq_taken h)]

/-- The oldest value is handed out of its slot and counted. -/
theorem pop_cons {a : α} (h : q.Holds (a :: values)) :
    q.pop = (some a, { q with taken := q.taken + 1 }) := by
  have hsize := h.size
  have hne : ¬ q.written = q.taken := by
    intro he
    rw [HandoffQueue.size, he, UInt64.sub_self] at hsize
    exact absurd hsize (by simp)
  rw [HandoffQueue.pop, if_neg hne, h.around.1]

theorem Holds.pop {a : α} (h : q.Holds (a :: values))
    (hwrap : (q.taken + 1).toNat % capacity = (q.taken.toNat + 1) % capacity) :
    ∃ next, q.pop = (some a, next) ∧ next.Holds values ∧ next.hasReader = q.hasReader ∧
      next.hasWriter = q.hasWriter := by
  have hsize := h.size
  have hle := h.length_le
  refine ⟨_, pop_cons h, ?_, rfl, rfl⟩
  constructor
  · have hsub : q.written - (q.taken + 1) = q.written - q.taken - 1 := by
      rw [UInt64.sub_eq_add_neg, UInt64.neg_add, UInt64.sub_eq_add_neg (-q.taken),
        ← UInt64.add_assoc, ← UInt64.sub_eq_add_neg, ← UInt64.sub_eq_add_neg]
    have hone : 1 ≤ q.written - q.taken := by
      rw [UInt64.le_iff_toNat_le]
      simp only [HandoffQueue.size, List.length_cons] at hsize
      rw [hsize, UInt64.toNat_one]
      exact Nat.succ_le_succ (Nat.zero_le _)
    simp only [HandoffQueue.size, List.length_cons] at hsize ⊢
    rw [hsub, UInt64.toNat_sub_of_le _ _ hone, hsize, UInt64.toNat_one, Nat.add_sub_cancel]
  · exact Nat.le_of_succ_le hle
  · have haligned := h.aligned
    rw [List.length_cons, Nat.add_comm values.length, ← Nat.add_assoc] at haligned
    exact haligned.trans (Nat.ModEq.add_right values.length hwrap.symm)
  · exact h.around.2.of_modEq hwrap.symm

end BurnerTelemetry.HandoffQueue
