import BurnerTelemetry.Proofs.Tlv.RoundTrip

/-!
Streams of items. A cursor that stands in front of the written forms of some items answers them
one after another and then stands behind them, at the depth to which they lead.
-/
namespace BurnerTelemetry.Tlv

/-- The number of open containers behind some items. -/
def depthThrough (depth : Nat) : List Item → Nat
  | [] => depth
  | item :: rest => depthThrough (item.depthAfter depth) rest

/-- A reader accepts each of the items at the depth to which those before it lead. -/
def AllFit (depth : Nat) : List Item → Prop
  | [] => True
  | item :: rest => item.Fits depth ∧ AllFit (item.depthAfter depth) rest

@[simp] theorem depthThrough_nil (depth : Nat) : depthThrough depth [] = depth := rfl
@[simp] theorem depthThrough_cons (depth : Nat) (item : Item) (rest : List Item) :
    depthThrough depth (item :: rest) = depthThrough (item.depthAfter depth) rest := rfl

theorem depthThrough_append (depth : Nat) (front back : List Item) :
    depthThrough depth (front ++ back) = depthThrough (depthThrough depth front) back := by
  induction front generalizing depth with
  | nil => rfl
  | cons item rest ih => exact ih (item.depthAfter depth)

theorem allFit_append (depth : Nat) (front back : List Item) :
    AllFit depth (front ++ back) ↔
      AllFit depth front ∧ AllFit (depthThrough depth front) back := by
  induction front generalizing depth with
  | nil => simp [AllFit]
  | cons item rest ih => simp [AllFit, ih, and_assoc]

def Item.isStart : Item → Bool
  | start _ _ => true
  | _ => false

/-- Every container that was started is open or has been stopped. -/
theorem depthThrough_add_stops {depth : Nat} {items : List Item} (h : AllFit depth items) :
    depthThrough depth items + items.count .stop = depth + items.countP Item.isStart := by
  induction items generalizing depth with
  | nil => rfl
  | cons item rest ih =>
    obtain ⟨hitem, hrest⟩ := h
    have hlater := ih hrest
    rw [depthThrough_cons, List.count_cons, List.countP_cons]
    cases item with
    | stop =>
      have hpos : 0 < depth := hitem
      simp only [Item.depthAfter, beq_self_eq_true, if_true, Item.isStart, Bool.false_eq_true,
        if_false] at hlater ⊢
      omega
    | start tag container =>
      simp only [Item.depthAfter, beq_iff_eq, reduceCtorEq, if_false, Item.isStart, if_true]
        at hlater ⊢
      omega
    | _ => simpa [Item.isStart, Item.depthAfter] using hlater

namespace Cursor

/-- What the next calls answer, and where they leave the cursor. -/
def nexts (c : Cursor) : Nat → List (Except ReadError (Option Item)) × Cursor
  | 0 => ([], c)
  | n + 1 => (c.next.1 :: (c.next.2.nexts n).1, (c.next.2.nexts n).2)

@[simp] theorem nexts_zero (c : Cursor) : c.nexts 0 = ([], c) := rfl
@[simp] theorem nexts_succ (c : Cursor) (n : Nat) :
    c.nexts (n + 1) = (c.next.1 :: (c.next.2.nexts n).1, (c.next.2.nexts n).2) := rfl

theorem next_of_isEnd {c : Cursor} (h : c.isEnd = true) : c.next = (.ok none, c) := by
  simp [next, h]

/-- One step over a written item. -/
theorem next_toBytes {depth : Nat} {item : Item} (h : item.Fits depth) (front back : Bytes) :
    next ⟨front ++ (item.toBytes ++ back), front.length, depth, false⟩ =
      (.ok (some item), ⟨front ++ (item.toBytes ++ back), (front ++ item.toBytes).length,
        item.depthAfter depth, false⟩) := by
  have hread := readItem_toBytes h front.length back
  have hpos := readItem_size_pos hread
  have hend : isEnd ⟨front ++ (item.toBytes ++ back), front.length, depth, false⟩ = false := by
    simp only [Item.size] at hpos
    simp only [isEnd, List.length_append, Bool.false_or, decide_eq_false_iff_not]
    omega
  simp only [next, hend, Bool.false_eq_true, if_false, List.drop_left, hread, Item.size,
    List.length_append]

/-- As many steps as there are items lead over all of them. -/
theorem nexts_items {depth : Nat} {items : List Item} (h : AllFit depth items)
    (front back : Bytes) :
    nexts ⟨front ++ (items.flatMap Item.toBytes ++ back), front.length, depth, false⟩
        items.length =
      (items.map (fun i => .ok (some i)),
        ⟨front ++ (items.flatMap Item.toBytes ++ back),
          (front ++ items.flatMap Item.toBytes).length, depthThrough depth items, false⟩) := by
  induction items generalizing depth front with
  | nil => simp
  | cons item rest ih =>
    obtain ⟨hitem, hrest⟩ := h
    have hstep := next_toBytes hitem front (rest.flatMap Item.toBytes ++ back)
    have hlater := ih hrest (front ++ item.toBytes)
    simp only [List.flatMap_cons, List.append_assoc, List.length_cons, nexts_succ, hstep,
      depthThrough_cons, List.map_cons] at hlater ⊢
    rw [hlater]

end Cursor

end BurnerTelemetry.Tlv
