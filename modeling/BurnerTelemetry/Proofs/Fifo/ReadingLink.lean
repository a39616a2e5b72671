import BurnerTelemetry.Proofs.Fifo.HandoffQueue
import BurnerTelemetry.ReadingLink

/-!
The reading link as a queue. Readings that were all taken by the link wait behind those before
them, and taking every reading gives them in the order in which they were sent.
-/
namespace BurnerTelemetry.ReadingLink

/-- The readings that wait, oldest first. -/
def Holds (l : ReadingLink) (readings : List Reading) : Prop := l.queue.Holds readings

theorem holds_empty : empty.Holds [] := HandoffQueue.holds_empty

variable {l : ReadingLink} {held : List Reading}

theorem dvd_word : 8 ∣ 2 ^ 64 := by decide

theorem send_of_disconnected (hreader : l.queue.hasReader = false) (r : Reading) :
    l.send r = (.error .disconnected, l) := by
  rw [send, hreader]
  rfl

theorem sides_send (l : ReadingLink) (r : Reading) :
    (l.send r).2.queue.hasReader = l.queue.hasReader ∧
      (l.send r).2.queue.hasWriter = l.queue.hasWriter := by
  unfold ReadingLink.send
  split
  · split
    · rename_i queue hpush
      exact HandoffQueue.sides_push hpush
    · exact ⟨rfl, rfl⟩
  · exact ⟨rfl, rfl⟩

theorem signalled_send (l : ReadingLink) (r : Reading) : (l.send r).2.signalled = l.signalled := by
  unfold ReadingLink.send
  split
  · split
    · rfl
    · rfl
  · rfl

theorem signalled_sendAll (l : ReadingLink) (readings : List Reading) :
    (l.sendAll readings).2.signalled = l.signalled := by
  induction readings generalizing l with
  | nil => rfl
  | cons r rest ih =>
    have hsend := l.signalled_send r
    rw [ReadingLink.sendAll]
    split
    · rename_i next heq
      rw [heq] at hsend
      exact (ih next).trans hsend
    · rename_i next heq
      rw [heq] at hsend
      exact (ih next).trans hsend

theorem sides_receive (l : ReadingLink) :
    l.receive.2.queue.hasReader = l.queue.hasReader ∧
      l.receive.2.queue.hasWriter = l.queue.hasWriter := by
  have hpop := HandoffQueue.sides_pop l.queue
  unfold ReadingLink.receive
  split
  · rename_i r queue heq
    rw [heq] at hpop
    exact hpop
  · rename_i queue heq
    rw [heq] at hpop
    exact hpop

theorem sides_receiveUpTo (l : ReadingLink) (count : Nat) :
    (l.receiveUpTo count).2.queue.hasReader = l.queue.hasReader ∧
      (l.receiveUpTo count).2.queue.hasWriter = l.queue.hasWriter := by
  induction count generalizing l with
  | zero => exact ⟨rfl, rfl⟩
  | succ count ih =>
    have hfirst := l.sides_receive
    rw [ReadingLink.receiveUpTo]
    split
    · rename_i r next heq
      rw [heq] at hfirst
      exact ⟨(ih next).1.trans hfirst.1, (ih next).2.trans hfirst.2⟩
    · rename_i next heq
      rw [heq] at hfirst
      exact hfirst

/-- A reading that finds room waits behind the others, and nothing is counted for it. -/
theorem Holds.send_of_lt (h : l.Holds held) (hreader : l.queue.hasReader = true)
    (hroom : held.length < 8) (r : Reading) :
    ∃ queue : HandoffQueue Reading 8, l.send r = (.ok (), { l with queue }) ∧
      queue.Holds (held ++ [r]) ∧ queue.hasReader = l.queue.hasReader ∧
      queue.hasWriter = l.queue.hasWriter := by
  obtain ⟨queue, hpush, hqueue⟩ := HandoffQueue.Holds.push h hroom (by omega)
    (HandoffQueue.add_one_mod_of_dvd dvd_word _) r
  refine ⟨queue, ?_, hqueue⟩
  rw [send, if_pos hreader, hpush]

/-- A reading that finds no room is counted, and all else is as before. -/
theorem Holds.send_of_not_lt (h : l.Holds held) (hreader : l.queue.hasReader = true)
    (hroom : ¬ held.length < 8) (r : Reading) :
    l.send r =
      (.error .full, { l with stats.readingsDropped := l.stats.readingsDropped + 1 }) := by
  have hle := HandoffQueue.Holds.length_le h
  have hfull := HandoffQueue.push_full h (by omega) r
  rw [send, if_pos hreader, hfull]

/-- A reading that is taken waits behind the others, and nothing is counted for it. -/
theorem Holds.send (h : l.Holds held) {r : Reading} (hok : (l.send r).1 = .ok ()) :
    (l.send r).2.Holds (held ++ [r]) ∧ (l.send r).2.stats = l.stats := by
  cases hreader : l.queue.hasReader with
  | false =>
    rw [send_of_disconnected hreader] at hok
    cases hok
  | true =>
    by_cases hroom : held.length < 8
    · obtain ⟨queue, hsend, hqueue, _⟩ := h.send_of_lt hreader hroom r
      rw [hsend]
      exact ⟨hqueue, rfl⟩
    · rw [h.send_of_not_lt hreader hroom] at hok
      cases hok

theorem sendAll_le (l : ReadingLink) (readings : List Reading) :
    (l.sendAll readings).1 ≤ readings.length := by
  induction readings generalizing l with
  | nil => exact Nat.le_refl 0
  | cons r rest ih =>
    rw [ReadingLink.sendAll, List.length_cons]
    split
    · exact Nat.succ_le_succ (ih _)
    · exact Nat.le_succ_of_le (ih _)

/-- Readings of which none was refused all wait behind the others. -/
theorem Holds.sendAll (h : l.Holds held) {readings : List Reading}
    (hwhole : (l.sendAll readings).1 = readings.length) :
    (l.sendAll readings).2.Holds (held ++ readings) ∧ (l.sendAll readings).2.stats = l.stats := by
  induction readings generalizing l held with
  | nil =>
    rw [List.append_nil]
    exact ⟨h, rfl⟩
  | cons r rest ih =>
    rw [ReadingLink.sendAll] at hwhole ⊢
    split at hwhole
    · rename_i next hsend
      have hnext := h.send (congrArg Prod.fst hsend)
      rw [hsend] at hnext
      obtain ⟨hholds, hstats⟩ := ih hnext.1 (Nat.succ.inj hwhole)
      rw [List.append_assoc] at hholds
      exact ⟨hholds, hstats.trans hnext.2⟩
    · rename_i next _
      have hle := sendAll_le next rest
      rw [hwhole, List.length_cons] at hle
      exact absurd hle (Nat.not_succ_le_self _)

theorem receive_nil (h : l.Holds []) : l.receive = (none, l) := by
  rw [receive, HandoffQueue.pop_nil h]

/-- The oldest reading is taken and counted. -/
theorem Holds.receive {r : Reading} (h : l.Holds (r :: held)) :
    ∃ queue : HandoffQueue Reading 8,
      l.receive = (some r, { l with
        queue
        stats.readingsProcessed := l.stats.readingsProcessed + 1 }) ∧
      queue.Holds held ∧ queue.hasReader = l.queue.hasReader ∧
      queue.hasWriter = l.queue.hasWriter := by
  obtain ⟨queue, hpop, hqueue⟩ := HandoffQueue.Holds.pop h
    (HandoffQueue.add_one_mod_of_dvd dvd_word _)
  refine ⟨queue, ?_, hqueue⟩
  rw [ReadingLink.receive, hpop]

theorem Holds.receiveUpTo (h : l.Holds held) :
    ∃ next : ReadingLink, l.receiveUpTo held.length = (held, next) ∧ next.Holds [] ∧
      next.stats = { l.stats with
        readingsProcessed := l.stats.readingsProcessed + UInt32.ofNat held.length } := by
  induction held generalizing l with
  | nil =>
    have hzero : l.stats.readingsProcessed + UInt32.ofNat 0 = l.stats.readingsProcessed :=
      UInt32.add_zero _
    refine ⟨l, rfl, h, ?_⟩
    rw [List.length_nil, hzero]
  | cons r rest ih =>
    obtain ⟨queue, hreceive, hqueue, _⟩ := h.receive
    have hnext : Holds { l with
        queue
        stats.readingsProcessed := l.stats.readingsProcessed + 1 } rest := hqueue
    obtain ⟨final, hlater, hfinal, hstats⟩ := ih hnext
    refine ⟨final, ?_, hfinal, ?_⟩
    · rw [List.length_cons, ReadingLink.receiveUpTo, hreceive]
      simp only [hlater]
    · rw [hstats, List.length_cons, UInt32.ofNat_add, UInt32.add_assoc, UInt32.add_comm 1]
      rfl

/-- Every reading that waits is taken and counted. -/
theorem Holds.receiveAll (h : l.Holds held) :
    ∃ next : ReadingLink, l.receiveAll = (held, next) ∧ next.Holds [] ∧
      next.stats = { l.stats with
        readingsProcessed := l.stats.readingsProcessed + UInt32.ofNat held.length } := by
  have hpending : l.pending = held.length := HandoffQueue.Holds.size h
  rw [ReadingLink.receiveAll, hpending]
  exact h.receiveUpTo

end BurnerTelemetry.ReadingLink
