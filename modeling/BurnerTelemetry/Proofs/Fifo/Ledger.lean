/-!
A queue of bounded length without slots or counters: the values that it holds, and all that it has
accepted, refused and handed out. Whatever is offered to it and taken from it, what was handed out
and what is held are together what was accepted, in that order.
-/
namespace BurnerTelemetry.Fifo

structure Ledger (α : Type) where
  held : List α
  accepted : List α
  refused : List α
  taken : List α
  deriving DecidableEq, Repr

namespace Ledger

variable {α : Type} {limit : Nat}

def empty : Ledger α := ⟨[], [], [], []⟩

/-- A value joins the others when fewer than `limit` are held, and is refused otherwise. -/
def offer (limit : Nat) (l : Ledger α) (a : α) : Ledger α :=
  if l.held.length < limit then
    { l with held := l.held ++ [a], accepted := l.accepted ++ [a] }
  else { l with refused := l.refused ++ [a] }

/-- Hands out the oldest values, `count` of them or all there are. -/
def take (l : Ledger α) (count : Nat) : Ledger α :=
  { l with held := l.held.drop count, taken := l.taken ++ l.held.take count }

theorem offer_of_lt {l : Ledger α} (h : l.held.length < limit) (a : α) :
    l.offer limit a = { l with held := l.held ++ [a], accepted := l.accepted ++ [a] } := if_pos h

theorem offer_of_not_lt {l : Ledger α} (h : ¬ l.held.length < limit) (a : α) :
    l.offer limit a = { l with refused := l.refused ++ [a] } := if_neg h

@[simp] theorem taken_offer (l : Ledger α) (a : α) : (l.offer limit a).taken = l.taken := by
  unfold offer
  split
  · rfl
  · rfl

/-- Nothing that was accepted is lost, doubled or out of order. -/
structure Balanced (limit : Nat) (l : Ledger α) : Prop where
  accepted : l.taken ++ l.held = l.accepted
  length_le : l.held.length ≤ limit

theorem balanced_empty : (empty : Ledger α).Balanced limit := ⟨rfl, Nat.zero_le _⟩

theorem Balanced.offer {l : Ledger α} (h : l.Balanced limit) (a : α) :
    (l.offer limit a).Balanced limit := by
  by_cases hroom : l.held.length < limit
  · rw [offer_of_lt hroom]
    constructor
    · change l.taken ++ (l.held ++ [a]) = l.accepted ++ [a]
      rw [← List.append_assoc, h.accepted]
    · change (l.held ++ [a]).length ≤ limit
      rw [List.length_append, List.length_singleton]
      exact hroom
  · rw [offer_of_not_lt hroom]
    exact ⟨h.accepted, h.length_le⟩

theorem Balanced.take {l : Ledger α} (h : l.Balanced limit) (count : Nat) :
    (l.take count).Balanced limit := by
  constructor
  · change l.taken ++ l.held.take count ++ l.held.drop count = l.accepted
    rw [List.append_assoc, List.take_append_drop, h.accepted]
  · change (l.held.drop count).length ≤ limit
    rw [List.length_drop]
    exact Nat.le_trans (Nat.sub_le _ _) h.length_le

end Ledger

end BurnerTelemetry.Fifo
