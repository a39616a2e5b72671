import BurnerTelemetry.Proofs.Fifo.ByteRing
import BurnerTelemetry.Proofs.Fifo.Ledger

/-!
Calls of the byte ring in any order. The ring and the ledger of a bounded queue that gets the same
calls agree on what is handed out, what is held and what is counted, and a block of bytes is no
more than its bytes one after another.
-/
namespace BurnerTelemetry.ByteRing

open Fifo (Ledger)

inductive Call where
  | push (b : UInt8)
  | pushAll (block : Bytes)
  | read (limit : Nat)
  deriving DecidableEq, Repr

/-- The bytes that a call hands out, and the ring behind it. -/
def answer (r : ByteRing) : Call → Bytes × ByteRing
  | .push b => ([], r.push b)
  | .pushAll block => ([], r.pushAll block)
  | .read limit => r.read limit

/-- The bytes that calls hand out one after another, and the ring behind them. -/
def answerAll (r : ByteRing) : List Call → Bytes × ByteRing
  | [] => ([], r)
  | call :: rest =>
    ((r.answer call).1 ++ ((r.answer call).2.answerAll rest).1,
      ((r.answer call).2.answerAll rest).2)

/-- What a call does to the ledger of a queue with the room of the ring. -/
def enter (log : Ledger UInt8) : Call → Ledger UInt8
  | .push b => log.offer capacity b
  | .pushAll block => block.foldl (Ledger.offer capacity) log
  | .read limit => log.take limit

/-- The same bytes in the same slots, counted otherwise. -/
def withCounts (r : ByteRing) (received dropped : UInt32) : ByteRing := { r with received, dropped }

@[simp] theorem received_withCounts (r : ByteRing) (received dropped : UInt32) :
    (r.withCounts received dropped).received = received := rfl
@[simp] theorem dropped_withCounts (r : ByteRing) (received dropped : UInt32) :
    (r.withCounts received dropped).dropped = dropped := rfl
@[simp] theorem withCounts_self (r : ByteRing) : r.withCounts r.received r.dropped = r := rfl
@[simp] theorem withCounts_withCounts (r : ByteRing) (a b received dropped : UInt32) :
    (r.withCounts a b).withCounts received dropped = r.withCounts received dropped := rfl

/-- Where a byte is stored does not depend on what has been counted. -/
theorem store?_withCounts (r : ByteRing) (received dropped : UInt32) (b : UInt8) :
    (r.withCounts received dropped).store? b =
      (r.store? b).map (fun stored => stored.withCounts received dropped) := by
  unfold store?
  change (if r.isFull then none else some _) = _
  split
  · rfl
  · rfl

theorem storeAll_withCounts (r : ByteRing) (received dropped : UInt32) (block : Bytes) :
    (r.withCounts received dropped).storeAll block =
      ((r.storeAll block).1, (r.storeAll block).2.withCounts received dropped) := by
  induction block generalizing r with
  | nil => rfl
  | cons b rest ih =>
    rw [storeAll, storeAll, store?_withCounts]
    cases r.store? b with
    | none => exact ih r
    | some stored => simp only [Option.map_some, ih]

theorem counts_of_store? {r stored : ByteRing} {b : UInt8} (h : r.store? b = some stored) :
    stored.received = r.received ∧ stored.dropped = r.dropped := by
  unfold store? at h
  split at h
  · cases h
  · cases h
    exact ⟨rfl, rfl⟩

theorem push_of_some {r stored : ByteRing} {b : UInt8} (h : r.store? b = some stored) :
    r.push b = stored.withCounts (r.received + 1) r.dropped := by
  obtain ⟨hreceived, hdropped⟩ := counts_of_store? h
  rw [push, h, ← hreceived, ← hdropped]
  rfl

theorem push_of_none {r : ByteRing} {b : UInt8} (h : r.store? b = none) :
    r.push b = r.withCounts r.received (r.dropped + 1) := by
  rw [push, h]
  rfl

theorem storeAll_le (r : ByteRing) (block : Bytes) : (r.storeAll block).1 ≤ block.length := by
  induction block generalizing r with
  | nil => exact Nat.le_refl 0
  | cons b rest ih =>
    rw [storeAll, List.length_cons]
    split
    · exact Nat.succ_le_succ (ih _)
    · exact Nat.le_succ_of_le (ih _)

/-- A block is stored, and then what found room and what did not is added to the counts. -/
theorem pushAll_eq (r : ByteRing) (block : Bytes) :
    r.pushAll block = (r.storeAll block).2.withCounts
      (r.received + UInt32.ofNat (r.storeAll block).1)
      (r.dropped + UInt32.ofNat (block.length - (r.storeAll block).1)) := by
  have hcounts := congrArg Prod.snd (storeAll_withCounts r r.received r.dropped block)
  rw [withCounts_self] at hcounts
  have hreceived := congrArg ByteRing.received hcounts
  have hdropped := congrArg ByteRing.dropped hcounts
  rw [received_withCounts] at hreceived
  rw [dropped_withCounts] at hdropped
  rw [← hreceived, ← hdropped]
  rfl

/-- A block leaves the same ring and the same counts as its bytes pushed one by one. -/
theorem pushAll_eq_foldl (r : ByteRing) (block : Bytes) : r.pushAll block = block.foldl push r := by
  induction block generalizing r with
  | nil =>
    have hzero : UInt32.ofNat 0 = 0 := rfl
    rw [pushAll_eq, storeAll, List.foldl_nil, List.length_nil, Nat.sub_self, hzero,
      UInt32.add_zero, UInt32.add_zero, withCounts_self]
  | cons b rest ih =>
    have hone : UInt32.ofNat 1 = 1 := rfl
    rw [List.foldl_cons, ← ih, pushAll_eq, List.length_cons]
    cases hstore : r.store? b with
    | none =>
      have hle := storeAll_le r rest
      have hlost : rest.length + 1 - (r.storeAll rest).1 =
          1 + (rest.length - (r.storeAll rest).1) := by omega
      rw [push_of_none hstore, pushAll_eq, storeAll, hstore, storeAll_withCounts]
      simp only [received_withCounts, dropped_withCounts, withCounts_withCounts, hlost,
        UInt32.ofNat_add, hone, UInt32.add_assoc]
    | some stored =>
      rw [push_of_some hstore, pushAll_eq, storeAll, hstore, storeAll_withCounts]
      simp only [received_withCounts, dropped_withCounts, withCounts_withCounts,
        Nat.add_comm _ 1, Nat.add_sub_add_left, UInt32.ofNat_add, hone, UInt32.add_assoc]

/-- A long read hands out what two shorter ones do. -/
theorem takeOut_add (r : ByteRing) (m n : Nat) :
    r.takeOut (m + n) =
      ((r.takeOut m).1 ++ ((r.takeOut m).2.takeOut n).1, ((r.takeOut m).2.takeOut n).2) := by
  induction m generalizing r with
  | zero => rw [Nat.zero_add, takeOut, List.nil_append]
  | succ m ih => rw [Nat.succ_add, takeOut, ih, takeOut, List.cons_append]

theorem read_add (r : ByteRing) (m n : Nat) :
    r.read (m + n) = ((r.read m).1 ++ ((r.read m).2.read n).1, ((r.read m).2.read n).2) := by
  have hsplit : min (m + n) r.count = min m r.count + min n (r.count - min m r.count) := by omega
  rw [read, hsplit, takeOut_add, read, read, count_takeOut]

variable {r : ByteRing} {log : Ledger UInt8}

/-- The ring holds what its ledger holds, and its counters are the lengths in the ledger. -/
structure Keeps (r : ByteRing) (log : Ledger UInt8) : Prop where
  holds : r.Holds log.held
  balanced : log.Balanced capacity
  received : r.received = UInt32.ofNat log.accepted.length
  dropped : r.dropped = UInt32.ofNat log.refused.length

theorem keeps_empty : empty.Keeps Ledger.empty :=
  ⟨holds_empty, Ledger.balanced_empty, rfl, rfl⟩

theorem Holds.withCounts {bytes : Bytes} (h : r.Holds bytes)
    (received dropped : UInt32) : (r.withCounts received dropped).Holds bytes :=
  ⟨h.count, h.length_le, h.tail_lt, h.head, h.around⟩

theorem Holds.push_of_lt {bytes : Bytes} (h : r.Holds bytes) (hroom : bytes.length < capacity)
    (b : UInt8) :
    (r.push b).Holds (bytes ++ [b]) ∧ (r.push b).received = r.received + 1 ∧
      (r.push b).dropped = r.dropped := by
  obtain ⟨stored, hstore, hholds⟩ := h.store? hroom b
  rw [push_of_some hstore]
  exact ⟨hholds.withCounts _ _, rfl, rfl⟩

theorem Holds.push_of_not_lt {bytes : Bytes} (h : r.Holds bytes)
    (hroom : ¬ bytes.length < capacity) (b : UInt8) :
    r.push b = r.withCounts r.received (r.dropped + 1) := by
  have hfull : bytes.length = capacity := by
    have := h.length_le
    omega
  exact push_of_none (store?_full h hfull b)

theorem ofNat_length_concat (l : Bytes) (b : UInt8) :
    UInt32.ofNat (l ++ [b]).length = UInt32.ofNat l.length + 1 := by
  rw [List.length_append, UInt32.ofNat_add]
  rfl

theorem Keeps.push (h : r.Keeps log) (b : UInt8) : (r.push b).Keeps (log.offer capacity b) := by
  have hbalanced := h.balanced.offer b
  by_cases hroom : log.held.length < capacity
  · obtain ⟨hholds, hreceived, hdropped⟩ := h.holds.push_of_lt hroom b
    rw [Ledger.offer_of_lt hroom] at hbalanced ⊢
    refine ⟨hholds, hbalanced, ?_, hdropped.trans h.dropped⟩
    rw [hreceived, h.received, ofNat_length_concat]
  · rw [h.holds.push_of_not_lt hroom b]
    rw [Ledger.offer_of_not_lt hroom] at hbalanced ⊢
    refine ⟨h.holds.withCounts _ _, hbalanced, h.received, ?_⟩
    rw [dropped_withCounts, h.dropped, ofNat_length_concat]

theorem Keeps.pushAll (h : r.Keeps log) (block : Bytes) :
    (r.pushAll block).Keeps (block.foldl (Ledger.offer capacity) log) := by
  rw [pushAll_eq_foldl]
  induction block generalizing r log with
  | nil => exact h
  | cons b rest ih => exact ih (h.push b)

theorem taken_offerAll (log : Ledger UInt8) (block : Bytes) :
    (block.foldl (Ledger.offer capacity) log).taken = log.taken := by
  induction block generalizing log with
  | nil => rfl
  | cons b rest ih => rw [List.foldl_cons, ih, Ledger.taken_offer]

theorem counts_takeOut (r : ByteRing) (n : Nat) :
    (r.takeOut n).2.received = r.received ∧ (r.takeOut n).2.dropped = r.dropped := by
  induction n generalizing r with
  | zero => exact ⟨rfl, rfl⟩
  | succ n ih => exact ih _

theorem Keeps.read (h : r.Keeps log) (limit : Nat) :
    (r.read limit).1 = log.held.take limit ∧ (r.read limit).2.Keeps (log.take limit) := by
  obtain ⟨htaken, hholds⟩ := h.holds.read limit
  obtain ⟨hreceived, hdropped⟩ := r.counts_takeOut (min limit r.count)
  exact ⟨htaken, hholds, h.balanced.take limit, hreceived.trans h.received,
    hdropped.trans h.dropped⟩

theorem length_takeOut (r : ByteRing) (n : Nat) : (r.takeOut n).1.length = n := by
  induction n generalizing r with
  | zero => rfl
  | succ n ih => exact congrArg (fun n => n + 1) (ih _)

theorem length_of_mem_readPieces (r : ByteRing) (size : Nat) :
    ∀ piece ∈ (r.readPieces size).1, 0 < piece.length ∧ piece.length ≤ size := by
  fun_induction ByteRing.readPieces r size with
  | case1 r hmore pieces final hpieces ih =>
    rw [hpieces] at ih
    intro piece hpiece
    rcases List.mem_cons.1 hpiece with rfl | hpiece
    · rw [ByteRing.read, length_takeOut]
      omega
    · exact ih piece hpiece
  | case2 r hnone => exact fun _ hpiece => absurd hpiece List.not_mem_nil

theorem counts_readPieces (r : ByteRing) (size : Nat) :
    (r.readPieces size).2.received = r.received ∧ (r.readPieces size).2.dropped = r.dropped := by
  fun_induction ByteRing.readPieces r size with
  | case1 r hmore pieces final hpieces ih =>
    obtain ⟨hreceived, hdropped⟩ := r.counts_takeOut (min size r.count)
    rw [hpieces] at ih
    exact ⟨ih.1.trans hreceived, ih.2.trans hdropped⟩
  | case2 r hnone => exact ⟨rfl, rfl⟩

/-- Reading in pieces takes all that the ledger holds. -/
theorem Keeps.readPieces (h : r.Keeps log) {size : Nat} (hsize : 0 < size) :
    (r.readPieces size).1.flatten = log.held ∧
      (r.readPieces size).2.Keeps (log.take log.held.length) := by
  obtain ⟨hflatten, hempty⟩ := h.holds.readPieces hsize
  obtain ⟨hreceived, hdropped⟩ := r.counts_readPieces size
  refine ⟨hflatten, ?_, h.balanced.take _, hreceived.trans h.received, hdropped.trans h.dropped⟩
  change (r.readPieces size).2.Holds (log.held.drop log.held.length)
  rw [List.drop_length]
  exact hempty

/-- A call hands out what the ledger says, and the ring goes on keeping its ledger. -/
theorem Keeps.answer (h : r.Keeps log) (call : Call) :
    (enter log call).taken = log.taken ++ (r.answer call).1 ∧
      (r.answer call).2.Keeps (enter log call) := by
  cases call with
  | push b => exact ⟨(Ledger.taken_offer log b).trans (List.append_nil _).symm, h.push b⟩
  | pushAll block =>
    exact ⟨(taken_offerAll log block).trans (List.append_nil _).symm, h.pushAll block⟩
  | read limit =>
    obtain ⟨htaken, hkeeps⟩ := h.read limit
    refine ⟨?_, hkeeps⟩
    change log.taken ++ log.held.take limit = log.taken ++ (r.read limit).1
    rw [htaken]

theorem Keeps.answerAll (h : r.Keeps log) (calls : List Call) :
    (calls.foldl enter log).taken = log.taken ++ (r.answerAll calls).1 ∧
      (r.answerAll calls).2.Keeps (calls.foldl enter log) := by
  induction calls generalizing r log with
  | nil => exact ⟨(List.append_nil _).symm, h⟩
  | cons call rest ih =>
    obtain ⟨htaken, hkeeps⟩ := h.answer call
    obtain ⟨hlater, hfinal⟩ := ih hkeeps
    refine ⟨?_, hfinal⟩
    rw [List.foldl_cons, hlater, htaken, List.append_assoc]
    rfl

/-- After any calls of a fresh ring, what was read and what is held are together what was accepted,
in that order. A byte is accepted exactly when fewer than 256 are held, a refused one changes
nothing but its count, and a read hands out the oldest bytes. A block is no more than its bytes one
by one, and a read no more than its parts, so the positions, which never leave the slots, do not
leave them inside a call either. -/
theorem calls_refine_queue (calls : List Call) :
    let taken := (empty.answerAll calls).1
    let r := (empty.answerAll calls).2
    let log := calls.foldl enter Ledger.empty
    (taken = log.taken ∧ r.toList = log.held ∧ taken ++ r.toList = log.accepted) ∧
      (r.received = UInt32.ofNat log.accepted.length ∧
        r.dropped = UInt32.ofNat log.refused.length) ∧
      (r.count = r.toList.length ∧ (r.isAvailable = true ↔ r.toList ≠ []) ∧
        (r.isEmpty = true ↔ r.toList = [])) ∧
      (r.head < 256 ∧ r.tail < 256 ∧ r.head = (r.tail + r.count) % 256) ∧
      (∀ b, if r.toList.length < 256 then
          (r.push b).toList = r.toList ++ [b] ∧ (r.push b).received = r.received + 1 ∧
            (r.push b).dropped = r.dropped
        else r.push b = { r with dropped := r.dropped + 1 }) ∧
      (∀ block, r.pushAll block = block.foldl push r) ∧
      (∀ limit, (r.read limit).1 = r.toList.take limit ∧
        (r.read limit).2.toList = r.toList.drop limit) ∧
      ∀ m n, r.read (m + n) =
        ((r.read m).1 ++ ((r.read m).2.read n).1, ((r.read m).2.read n).2) := by
  intro taken r log
  obtain ⟨htaken, hkeeps⟩ : log.taken = taken ∧ r.Keeps log := keeps_empty.answerAll calls
  have hholds := hkeeps.holds
  have hlist : r.toList = log.held := hholds.toList_eq
  have hcount : r.count = r.toList.length := r.length_toList.symm
  have havailable : r.isAvailable = true ↔ r.toList ≠ [] := by
    rw [isAvailable, decide_eq_true_eq, hcount, List.length_pos_iff]
  have hhead : r.head = (r.tail + r.count) % 256 := by
    rw [hcount, hlist]
    exact hholds.head
  refine ⟨⟨htaken.symm, hlist, ?_⟩, ⟨hkeeps.received, hkeeps.dropped⟩,
    ⟨hcount, havailable, ?_⟩, ⟨?_, hholds.tail_lt, hhead⟩, ?_, r.pushAll_eq_foldl, ?_, r.read_add⟩
  · rw [← htaken, hlist]
    exact hkeeps.balanced.accepted
  · rw [isEmpty, Bool.not_eq_true', ← Bool.not_eq_true, havailable, not_not]
  · rw [hhead]
    exact Nat.mod_lt _ (by decide)
  · intro b
    split
    · rename_i hroom
      rw [hlist] at hroom ⊢
      obtain ⟨hpush, hcounts⟩ := hholds.push_of_lt hroom b
      exact ⟨hpush.toList_eq, hcounts⟩
    · rename_i hroom
      rw [hlist] at hroom
      exact hholds.push_of_not_lt hroom b
  · intro limit
    obtain ⟨hread, hleft⟩ := hholds.read limit
    rw [hread, hleft.toList_eq, hlist]
    exact ⟨rfl, rfl⟩

end BurnerTelemetry.ByteRing
