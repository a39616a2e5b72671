import BurnerTelemetry.Proofs.Fifo.ReadingLink

/-!
Calls of the two sides of a reading link in any order. A side that is gone makes no more calls. The
answers given so far tell everything about the link: what waits is what was taken in and not yet
handed out, and the counters are counts of answers.
-/
namespace BurnerTelemetry.ReadingLink

/-- Who looks at the counters: either side, or a view that outlives both. -/
inductive Viewer where
  | sender
  | receiver
  | handle
  deriving DecidableEq, Repr

inductive Call where
  | send (r : Reading)
  | signal
  | dropSender
  | receive
  | recordMessages (count : UInt32)
  | takeSignal
  | wait
  | dropReceiver
  | stats (viewer : Viewer)
  deriving DecidableEq, Repr

inductive Answer where
  | sent (result : Except SendError Unit)
  | received (reading : Option Reading)
  | wasRaised (raised : Bool)
  | counted (stats : LinkStats)
  | done

/-- The side that would make the call is still there. -/
def canCall (l : ReadingLink) : Call → Bool
  | .send _ | .signal | .dropSender | .stats .sender => l.queue.hasWriter
  | .receive | .recordMessages _ | .takeSignal | .wait | .dropReceiver | .stats .receiver =>
    l.queue.hasReader
  | .stats .handle => true

def answer (l : ReadingLink) : Call → Answer × ReadingLink
  | .send r => (.sent (l.send r).1, (l.send r).2)
  | .signal => (.done, l.signal)
  | .dropSender => (.done, l.dropSender)
  | .receive => (.received l.receive.1, l.receive.2)
  | .recordMessages count => (.done, l.recordMessages count)
  | .takeSignal => (.wasRaised l.takeSignal.1, l.takeSignal.2)
  | .wait => (.done, l.wait)
  | .dropReceiver => (.done, l.dropReceiver)
  | .stats _ => (.counted l.stats, l)

/-- The calls that were made, oldest first, with their answers. -/
abbrev Log := List (Call × Answer)

structure Session where
  link : ReadingLink
  log : Log

namespace Session

def start : Session := ⟨empty, []⟩

/-- Makes a call if the side that would make it is still there. -/
def step (s : Session) (call : Call) : Session :=
  if s.link.canCall call then
    ⟨(s.link.answer call).2, s.log ++ [(call, (s.link.answer call).1)]⟩
  else s

def run (s : Session) (calls : List Call) : Session := calls.foldl step s

end Session

namespace Log

/-- The readings that were taken in, in the order of their calls. -/
def accepted (log : Log) : List Reading :=
  log.filterMap fun entry =>
    match entry with
    | (.send r, .sent (.ok ())) => some r
    | _ => none

/-- The readings that were handed out. -/
def received (log : Log) : List Reading :=
  log.filterMap fun entry =>
    match entry with
    | (_, .received reading) => reading
    | _ => none

/-- The number of readings that found the queue full. -/
def fullCount (log : Log) : Nat :=
  log.countP fun entry =>
    match entry with
    | (_, .sent (.error .full)) => true
    | _ => false

/-- The sum of all recorded counts. -/
def recorded (log : Log) : Nat :=
  (log.map fun entry =>
    match entry with
    | (.recordMessages count, _) => count.toNat
    | _ => 0).sum

/-- What the counters show, which wrap at the word size. -/
def stats (log : Log) : LinkStats :=
  ⟨UInt32.ofNat log.recorded, UInt32.ofNat log.received.length, UInt32.ofNat log.fullCount⟩

/-- A signal was raised, and since then it was neither taken nor waited for. -/
def Raised (log : Log) : Prop :=
  ∃ front answer back, log = front ++ (.signal, answer) :: back ∧
    ∀ entry ∈ back, entry.1 ≠ .takeSignal ∧ entry.1 ≠ .wait

/-- The receiving side is gone. -/
def ReceiverDropped (log : Log) : Prop := .dropReceiver ∈ log.map Prod.fst

theorem accepted_append (front back : Log) :
    accepted (front ++ back) = front.accepted ++ accepted back := List.filterMap_append

theorem received_append (front back : Log) :
    received (front ++ back) = front.received ++ received back := List.filterMap_append

/-- The counts of two logs together. -/
theorem stats_append (front back : Log) :
    stats (front ++ back) =
      ⟨front.stats.messagesProcessed + back.stats.messagesProcessed,
        front.stats.readingsProcessed + back.stats.readingsProcessed,
        front.stats.readingsDropped + back.stats.readingsDropped⟩ := by
  simp only [stats, recorded, fullCount, received_append, List.map_append, List.sum_append,
    List.length_append, List.countP_append, UInt32.ofNat_add]

theorem raised_concat (log : Log) (call : Call) (a : Answer) :
    Raised (log ++ [(call, a)]) ↔
      call = .signal ∨ (call ≠ .takeSignal ∧ call ≠ .wait) ∧ log.Raised := by
  constructor
  · rintro ⟨front, answer, back, hlog, hback⟩
    rcases List.eq_nil_or_concat back with rfl | ⟨back, last, rfl⟩
    · obtain ⟨_, hlast⟩ := List.append_inj' hlog rfl
      cases hlast
      exact .inl rfl
    · rw [List.concat_eq_append, ← List.cons_append, ← List.append_assoc] at hlog
      obtain ⟨hfront, hlast⟩ := List.append_inj' hlog rfl
      cases hlast
      right
      refine ⟨hback (call, a) (by simp), front, answer, back, hfront, ?_⟩
      intro entry hentry
      exact hback entry (by simp [hentry])
  · rintro (rfl | ⟨hcall, front, answer, back, rfl, hback⟩)
    · exact ⟨log, a, [], rfl, fun _ h => absurd h List.not_mem_nil⟩
    · refine ⟨front, answer, back ++ [(call, a)], by simp, ?_⟩
      intro entry hentry
      rcases List.mem_append.1 hentry with hentry | hentry
      · exact hback entry hentry
      · rw [List.mem_singleton.1 hentry]
        exact hcall

theorem receiverDropped_concat (log : Log) (call : Call) (a : Answer) :
    ReceiverDropped (log ++ [(call, a)]) ↔ log.ReceiverDropped ∨ call = .dropReceiver := by
  rw [ReceiverDropped, List.map_append, List.mem_append, eq_comm (a := call)]
  simp [ReceiverDropped]

end Log

/-- The log tells what waits, what the counters show, whether the signal is up and whether anybody
is left to receive. -/
structure Accounted (l : ReadingLink) (held : List Reading) (log : Log) : Prop where
  holds : l.Holds held
  order : log.received ++ held = log.accepted
  stats : l.stats = log.stats
  signalled : l.signalled = true ↔ log.Raised
  reader : l.queue.hasReader = true ↔ ¬ log.ReceiverDropped

theorem accounted_empty : Accounted empty [] [] := by
  refine ⟨holds_empty, rfl, rfl, ?_, ?_⟩
  · constructor
    · intro h
      cases h
    · rintro ⟨front, answer, back, hlog, _⟩
      exact absurd hlog (by simp)
  · simp [Log.ReceiverDropped, empty, HandoffQueue.empty]

variable {l : ReadingLink} {held : List Reading} {log : Log}

/-- One more entry, which tells what became of the queue, the counters, the signal and the
receiving side. -/
theorem Accounted.entry (h : l.Accounted held log) {entry : Call × Answer} {next : ReadingLink}
    {left : List Reading} (hholds : next.Holds left)
    (horder : Log.received [entry] ++ left = held ++ Log.accepted [entry])
    (hstats : next.stats =
      ⟨l.stats.messagesProcessed + (Log.stats [entry]).messagesProcessed,
        l.stats.readingsProcessed + (Log.stats [entry]).readingsProcessed,
        l.stats.readingsDropped + (Log.stats [entry]).readingsDropped⟩)
    (hsignalled : next.signalled = true ↔ Log.Raised (log ++ [entry]))
    (hreader : next.queue.hasReader = true ↔ ¬ Log.ReceiverDropped (log ++ [entry])) :
    next.Accounted left (log ++ [entry]) := by
  refine ⟨hholds, ?_, ?_, hsignalled, hreader⟩
  · rw [Log.received_append, Log.accepted_append, List.append_assoc, horder, ← List.append_assoc,
      h.order]
  · rw [hstats, h.stats, Log.stats_append]

/-- An entry that moves no reading and counts nothing. -/
theorem Accounted.quiet (h : l.Accounted held log) {entry : Call × Answer} {next : ReadingLink}
    (hreceived : Log.received [entry] = []) (haccepted : Log.accepted [entry] = [])
    (hcounts : Log.stats [entry] = ⟨0, 0, 0⟩) (hholds : next.Holds held)
    (hstats : next.stats = l.stats)
    (hsignalled : next.signalled = true ↔ Log.Raised (log ++ [entry]))
    (hreader : next.queue.hasReader = true ↔ ¬ Log.ReceiverDropped (log ++ [entry])) :
    next.Accounted held (log ++ [entry]) := by
  refine h.entry hholds ?_ ?_ hsignalled hreader
  · rw [hreceived, haccepted, List.nil_append, List.append_nil]
  · rw [hcounts, hstats]
    simp only [UInt32.add_zero]

theorem Accounted.signal_kept (h : l.Accounted held log) (call : Call) (a : Answer)
    (hraise : call ≠ .signal) (hlower : call ≠ .takeSignal ∧ call ≠ .wait) :
    l.signalled = true ↔ Log.Raised (log ++ [(call, a)]) := by
  rw [Log.raised_concat, h.signalled]
  exact ⟨fun hraised => .inr ⟨hlower, hraised⟩, fun hany => (hany.resolve_left hraise).2⟩

theorem Accounted.reader_kept (h : l.Accounted held log) (call : Call) (a : Answer)
    (hdrop : call ≠ .dropReceiver) :
    l.queue.hasReader = true ↔ ¬ Log.ReceiverDropped (log ++ [(call, a)]) := by
  rw [Log.receiverDropped_concat, h.reader, not_or]
  exact ⟨fun hkept => ⟨hkept, hdrop⟩, fun hboth => hboth.1⟩

theorem Accounted.send (h : l.Accounted held log) (r : Reading) :
    ∃ left, (l.send r).2.Accounted left (log ++ [(.send r, .sent (l.send r).1)]) := by
  have hsignalled := h.signal_kept (.send r) (.sent (l.send r).1) nofun ⟨nofun, nofun⟩
  have hdropped := h.reader_kept (.send r) (.sent (l.send r).1) nofun
  cases hreader : l.queue.hasReader with
  | false =>
    rw [send_of_disconnected hreader] at hsignalled hdropped ⊢
    exact ⟨held, h.quiet rfl rfl rfl h.holds rfl hsignalled hdropped⟩
  | true =>
    by_cases hroom : held.length < 8
    · obtain ⟨queue, hsend, hqueue, hsameReader, _⟩ := h.holds.send_of_lt hreader hroom r
      rw [← hsameReader] at hdropped
      rw [hsend] at hsignalled hdropped ⊢
      refine ⟨held ++ [r], h.entry hqueue rfl ?_ hsignalled hdropped⟩
      change l.stats = ⟨l.stats.messagesProcessed + 0, l.stats.readingsProcessed + 0,
        l.stats.readingsDropped + 0⟩
      simp only [UInt32.add_zero]
    · rw [h.holds.send_of_not_lt hreader hroom] at hsignalled hdropped ⊢
      refine ⟨held, h.entry h.holds (List.append_nil held).symm ?_ hsignalled hdropped⟩
      change _ = LinkStats.mk (l.stats.messagesProcessed + 0) (l.stats.readingsProcessed + 0)
        (l.stats.readingsDropped + 1)
      simp only [UInt32.add_zero]

theorem Accounted.receive (h : l.Accounted held log) :
    l.receive.2.Accounted held.tail (log ++ [(.receive, .received l.receive.1)]) := by
  have hsignalled := h.signal_kept .receive (.received l.receive.1) nofun ⟨nofun, nofun⟩
  have hdropped := h.reader_kept .receive (.received l.receive.1) nofun
  cases held with
  | nil =>
    rw [receive_nil h.holds] at hsignalled hdropped ⊢
    exact h.quiet rfl rfl rfl h.holds rfl hsignalled hdropped
  | cons r rest =>
    obtain ⟨queue, hreceive, hqueue, hsameReader, _⟩ := h.holds.receive
    rw [← hsameReader] at hdropped
    rw [hreceive] at hsignalled hdropped ⊢
    refine h.entry hqueue (List.append_nil _).symm ?_ hsignalled hdropped
    change _ = LinkStats.mk (l.stats.messagesProcessed + 0) (l.stats.readingsProcessed + 1)
      (l.stats.readingsDropped + 0)
    simp only [UInt32.add_zero]

/-- Every call leaves the link accounted for by the longer log. -/
theorem Accounted.answer (h : l.Accounted held log) (call : Call) :
    ∃ left, (l.answer call).2.Accounted left (log ++ [(call, (l.answer call).1)]) := by
  have hraised := Log.raised_concat log call (l.answer call).1
  cases call with
  | send r => exact h.send r
  | receive => exact ⟨held.tail, h.receive⟩
  | signal =>
    refine ⟨held, h.quiet rfl rfl rfl h.holds rfl ?_ (h.reader_kept _ _ nofun)⟩
    rw [hraised]
    exact ⟨fun _ => .inl rfl, fun _ => rfl⟩
  | takeSignal =>
    refine ⟨held, h.quiet rfl rfl rfl h.holds rfl ?_ (h.reader_kept _ _ nofun)⟩
    rw [hraised]
    exact ⟨nofun, fun hany => absurd rfl (hany.resolve_left nofun).1.1⟩
  | wait =>
    refine ⟨held, h.quiet rfl rfl rfl h.holds rfl ?_ (h.reader_kept _ _ nofun)⟩
    rw [hraised]
    exact ⟨nofun, fun hany => absurd rfl (hany.resolve_left nofun).1.2⟩
  | recordMessages count =>
    refine ⟨held, h.entry h.holds (List.append_nil held).symm ?_
      (h.signal_kept _ _ nofun ⟨nofun, nofun⟩) (h.reader_kept _ _ nofun)⟩
    change _ = LinkStats.mk (l.stats.messagesProcessed + UInt32.ofNat (count.toNat + 0))
      (l.stats.readingsProcessed + 0) (l.stats.readingsDropped + 0)
    simp only [Nat.add_zero, UInt32.ofNat_toNat, UInt32.add_zero]
    rfl
  | dropSender =>
    have hholds : l.dropSender.Holds held := HandoffQueue.Holds.dropWriter h.holds
    exact ⟨held, h.quiet rfl rfl rfl hholds rfl (h.signal_kept _ _ nofun ⟨nofun, nofun⟩)
      (h.reader_kept _ _ nofun)⟩
  | dropReceiver =>
    have hholds : l.dropReceiver.Holds held := HandoffQueue.Holds.dropReader h.holds
    refine ⟨held, h.quiet rfl rfl rfl hholds rfl (h.signal_kept _ _ nofun ⟨nofun, nofun⟩) ?_⟩
    rw [Log.receiverDropped_concat]
    exact ⟨nofun, fun hkept => absurd (.inr rfl) hkept⟩
  | stats viewer =>
    exact ⟨held, h.quiet rfl rfl rfl h.holds rfl (h.signal_kept _ _ nofun ⟨nofun, nofun⟩)
      (h.reader_kept _ _ nofun)⟩

theorem Session.accounted_step {s : Session} {held : List Reading}
    (h : s.link.Accounted held s.log) (call : Call) :
    ∃ left, (s.step call).link.Accounted left (s.step call).log := by
  unfold Session.step
  split
  · exact h.answer call
  · exact ⟨held, h⟩

theorem Session.accounted_run {s : Session} {held : List Reading}
    (h : s.link.Accounted held s.log) (calls : List Call) :
    ∃ left, (s.run calls).link.Accounted left (s.run calls).log := by
  induction calls generalizing s held with
  | nil => exact ⟨held, h⟩
  | cons call rest ih =>
    obtain ⟨left, hstep⟩ := Session.accounted_step h call
    exact ih hstep

/-- After any calls of the two sides, each side until it is gone: what was handed out and what
waits are together what was taken in, in that order, and no more than eight wait. The counters,
whoever looks at them, are the counts of the answers so far. A reading is lost without a trace if
the receiver is gone, lost and counted if eight wait, and waits behind the others otherwise; what
waits can be received to the end, also when the sender is gone. The signal is up exactly when it
was raised after it was last taken or waited for. -/
theorem calls_accounted (calls : List Call) :
    let s := Session.start.run calls
    let l := s.link
    let log := s.log
    (log.received ++ l.toList = log.accepted ∧ l.toList.length ≤ 8 ∧
        l.pending = l.toList.length) ∧
      (∀ viewer, l.answer (.stats viewer) =
        (.counted ⟨UInt32.ofNat log.recorded, UInt32.ofNat log.received.length,
          UInt32.ofNat log.fullCount⟩, l)) ∧
      (∀ r, (log.ReceiverDropped → l.send r = (.error .disconnected, l)) ∧
        (¬ log.ReceiverDropped → l.toList.length < 8 →
          (l.send r).1 = .ok () ∧ (l.send r).2.toList = l.toList ++ [r] ∧
            (l.send r).2.stats = l.stats) ∧
        (¬ log.ReceiverDropped → l.toList.length = 8 →
          l.send r = (.error .full,
            { l with stats.readingsDropped := l.stats.readingsDropped + 1 }))) ∧
      (l.receive.1 = l.toList.head? ∧ l.receive.2.toList = l.toList.tail) ∧
      (∃ final : ReadingLink, l.dropSender.receiveUpTo l.toList.length = (l.toList, final) ∧
        final.receive.1 = none) ∧
      (l.takeSignal.1 = true ↔ log.Raised) := by
  intro s l log
  obtain ⟨held, h⟩ : ∃ held, l.Accounted held log := Session.accounted_run accounted_empty calls
  have hlist : l.toList = held := HandoffQueue.Holds.toList_eq h.holds
  have hdropped : log.ReceiverDropped ↔ l.queue.hasReader = false := by
    rw [← Bool.not_eq_true, h.reader, not_not]
  rw [hlist]
  refine ⟨⟨h.order, h.holds.length_le, h.holds.size⟩, ?_, ?_, ?_, ?_, h.signalled⟩
  · intro viewer
    rw [ReadingLink.answer, h.stats]
    rfl
  · intro r
    refine ⟨?_, ?_, ?_⟩
    · intro hgone
      exact send_of_disconnected (hdropped.1 hgone) r
    · intro hkept hroom
      obtain ⟨queue, hsend, hqueue, _⟩ := h.holds.send_of_lt (h.reader.2 hkept) hroom r
      rw [hsend]
      exact ⟨rfl, hqueue.toList_eq, rfl⟩
    · intro hkept hfull
      exact h.holds.send_of_not_lt (h.reader.2 hkept) (by omega) r
  · have hleft := h.receive.holds
    refine ⟨?_, HandoffQueue.Holds.toList_eq hleft⟩
    cases held with
    | nil => rw [receive_nil h.holds]; rfl
    | cons r rest =>
      obtain ⟨queue, hreceive, _⟩ := h.holds.receive
      rw [hreceive]
      rfl
  · have hholds : l.dropSender.Holds held := HandoffQueue.Holds.dropWriter h.holds
    obtain ⟨final, hall, hfinal, _⟩ := hholds.receiveUpTo
    refine ⟨final, hall, ?_⟩
    rw [receive_nil hfinal]

end BurnerTelemetry.ReadingLink
