import Mathlib.Data.Nat.ModEq

/-!
Values in the slots of a ring. A list lies around the ring from a base on when its elements stand
in consecutive slots, the first slot coming after the last. Both queues of the relay keep their
values this way.
-/
namespace BurnerTelemetry.Fifo

variable {β : Type} {n : Nat}

/-- The values stand in the slots from `base` on, taken modulo `n`. -/
def Around (n : Nat) (slot : Nat → β) (base : Nat) : List β → Prop
  | [] => True
  | b :: rest => slot (base % n) = b ∧ Around n slot (base + 1) rest

/-- Only the remainder of the base matters. -/
theorem Around.of_modEq {slot : Nat → β} {base base' : Nat} {l : List β}
    (h : Around n slot base l) (hbase : base % n = base' % n) : Around n slot base' l := by
  induction l generalizing base base' with
  | nil => trivial
  | cons b rest ih =>
    obtain ⟨hfirst, hrest⟩ := h
    have hnext : (base + 1) % n = (base' + 1) % n := Nat.ModEq.add_right 1 hbase
    constructor
    · rw [← hbase]
      exact hfirst
    · exact ih hrest hnext

/-- Slots that hold nothing of the list may change. -/
theorem Around.of_slots {slot slot' : Nat → β} {base : Nat} {l : List β}
    (h : Around n slot base l)
    (hslots : ∀ i < l.length, slot' ((base + i) % n) = slot ((base + i) % n)) :
    Around n slot' base l := by
  induction l generalizing base with
  | nil => trivial
  | cons b rest ih =>
    obtain ⟨hfirst, hrest⟩ := h
    constructor
    · have hzero := hslots 0 (Nat.zero_lt_succ _)
      rw [Nat.add_zero] at hzero
      exact hzero.trans hfirst
    · apply ih hrest
      intro i hi
      have hlater := hslots (i + 1) (Nat.succ_lt_succ hi)
      rw [Nat.add_right_comm]
      exact hlater

theorem around_append {slot : Nat → β} {base : Nat} {front back : List β} :
    Around n slot base (front ++ back) ↔
      Around n slot base front ∧ Around n slot (base + front.length) back := by
  induction front generalizing base with
  | nil => simp [Around]
  | cons b rest ih =>
    simp only [List.cons_append, Around, ih, List.length_cons, and_assoc]
    rw [Nat.add_right_comm, Nat.add_assoc]

/-- Reading as many slots as the list is long, from the base on, gives the list. -/
theorem Around.map_range {slot : Nat → β} {base : Nat} {l : List β} (h : Around n slot base l) :
    (List.range l.length).map (fun i => slot ((base + i) % n)) = l := by
  induction l generalizing base with
  | nil => rfl
  | cons b rest ih =>
    obtain ⟨hfirst, hrest⟩ := h
    have hlater := ih hrest
    rw [List.length_cons, List.range_succ_eq_map, List.map_cons, List.map_map, Nat.add_zero,
      hfirst]
    simp only [Function.comp_def, Nat.succ_eq_add_one, Nat.add_assoc, Nat.add_comm 1] at hlater ⊢
    rw [hlater]

/-- The slot behind a list that does not fill the ring is none of its own. -/
theorem mod_ne_of_lt {base i length : Nat} (hi : i < length) (hroom : length < n) :
    (base + i) % n ≠ (base + length) % n := by
  intro he
  have hmod : i % n = length % n := Nat.ModEq.add_left_cancel' base he
  rw [Nat.mod_eq_of_lt (Nat.lt_trans hi hroom), Nat.mod_eq_of_lt hroom] at hmod
  exact Nat.ne_of_lt hi hmod

/-- A value written behind the list joins it. -/
theorem Around.push {slot slot' : Nat → β} {base : Nat} {l : List β} {b : β}
    (h : Around n slot base l) (hroom : l.length < n)
    (hnew : slot' ((base + l.length) % n) = b)
    (hold : ∀ i, i ≠ (base + l.length) % n → slot' i = slot i) :
    Around n slot' base (l ++ [b]) := by
  rw [around_append]
  constructor
  · apply h.of_slots
    intro i hi
    exact hold _ (mod_ne_of_lt hi hroom)
  · exact ⟨hnew, trivial⟩

end BurnerTelemetry.Fifo
