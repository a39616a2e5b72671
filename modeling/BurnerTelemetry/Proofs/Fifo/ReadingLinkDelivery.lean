import BurnerTelemetry.Proofs.Fifo.ReadingLinkCalls

/-!
What becomes of the readings that are sent over a link. The calls in front of a reading tell whether
it is taken in, counted as lost or lost without a trace, and as long as there is a receiver every
reading is taken in or counted. Sending many readings is sending one after another.
-/
namespace BurnerTelemetry.ReadingLink

namespace Log

instance (log : Log) : Decidable log.ReceiverDropped :=
  inferInstanceAs (Decidable (Call.dropReceiver ∈ log.map Prod.fst))

/-- The readings that were sent, whatever became of them. -/
def offered (log : Log) : List Reading :=
  log.filterMap fun entry =>
    match entry with
    | (.send r, _) => some r
    | _ => none

/-- The readings that were taken in and not yet handed out. -/
def waiting (log : Log) : List Reading := log.accepted.drop log.received.length

/-- What the sender of the next reading is told. -/
def verdict (log : Log) : Except SendError Unit :=
  if log.ReceiverDropped then .error .disconnected
  else if log.waiting.length < 8 then .ok ()
  else .error .full

theorem offered_append (front back : Log) :
    offered (front ++ back) = front.offered ++ offered back := List.filterMap_append

theorem fullCount_append (front back : Log) :
    fullCount (front ++ back) = front.fullCount + fullCount back := List.countP_append

/-- Every reading met with the verdict of the calls in front of it, and as long as the receiver is
there each was taken in or counted as lost. -/
structure Answered (log : Log) : Prop where
  told : ∀ (front : Log) r a back, log = front ++ (.send r, a) :: back → a = .sent front.verdict
  counted : ¬ log.ReceiverDropped → log.offered.length = log.accepted.length + log.fullCount

theorem answered_nil : Answered [] :=
  ⟨fun _ _ _ _ h => absurd h.symm (List.append_ne_nil_of_right_ne_nil _ (List.cons_ne_nil _ _)),
    fun _ => rfl⟩

theorem Answered.concat {log : Log} (h : log.Answered) {call : Call} {a : Answer}
    (hverdict : ∀ r, call = .send r → a = .sent log.verdict)
    (hcounted : ¬ ReceiverDropped (log ++ [(call, a)]) →
      (offered [(call, a)]).length = (accepted [(call, a)]).length + fullCount [(call, a)]) :
    Answered (log ++ [(call, a)]) := by
  constructor
  · intro front r b back hlog
    rcases List.eq_nil_or_concat back with rfl | ⟨back, last, rfl⟩
    · obtain ⟨rfl, hentry⟩ := List.append_inj' hlog rfl
      cases hentry
      exact hverdict r rfl
    · rw [List.concat_eq_append, ← List.cons_append, ← List.append_assoc] at hlog
      exact h.told front r b back (List.append_inj' hlog rfl).1
  · intro hkept
    have hbefore : ¬ log.ReceiverDropped :=
      fun hdropped => hkept ((receiverDropped_concat log call a).2 (.inl hdropped))
    have hnew := hcounted hkept
    have hold := h.counted hbefore
    rw [offered_append, accepted_append, fullCount_append, List.length_append, List.length_append]
    omega

end Log

variable {l : ReadingLink} {held : List Reading} {log : Log}

theorem Accounted.waiting_eq (h : l.Accounted held log) : log.waiting = held := by
  rw [Log.waiting, ← h.order, List.drop_left]

/-- A reading is taken in if there is a receiver and room. -/
theorem Accounted.send_verdict (h : l.Accounted held log) (r : Reading) :
    (l.send r).1 = log.verdict := by
  rw [Log.verdict, h.waiting_eq]
  by_cases hdropped : log.ReceiverDropped
  · have hreader : l.queue.hasReader = false := by
      rw [← Bool.not_eq_true, h.reader, not_not]
      exact hdropped
    rw [if_pos hdropped, send_of_disconnected hreader]
  · have hreader := h.reader.2 hdropped
    rw [if_neg hdropped]
    by_cases hroom : held.length < 8
    · obtain ⟨queue, hsend, _⟩ := h.holds.send_of_lt hreader hroom r
      rw [if_pos hroom, hsend]
    · rw [if_neg hroom, h.holds.send_of_not_lt hreader hroom]

theorem Accounted.answered (h : l.Accounted held log) (hlog : log.Answered) (call : Call) :
    Log.Answered (log ++ [(call, (l.answer call).1)]) := by
  cases call with
  | send r =>
    have hverdict := h.send_verdict r
    refine hlog.concat (fun _ _ => congrArg Answer.sent hverdict) (fun hkept => ?_)
    have hthere : ¬ log.ReceiverDropped :=
      fun hdropped => hkept ((Log.receiverDropped_concat _ _ _).2 (.inl hdropped))
    rw [ReadingLink.answer, hverdict, Log.verdict, if_neg hthere]
    split
    · rfl
    · rfl
  | _ => exact hlog.concat (fun _ hsend => by cases hsend) (fun _ => rfl)

namespace Session

/-- The log tells all about the link, and every reading met with the verdict of the log. -/
structure Told (s : Session) : Prop where
  accounted : ∃ held, s.link.Accounted held s.log
  answered : s.log.Answered

theorem told_start : start.Told := ⟨⟨[], accounted_empty⟩, Log.answered_nil⟩

theorem Told.step {s : Session} (h : s.Told) (call : Call) : (s.step call).Told := by
  obtain ⟨held, haccounted⟩ := h.accounted
  refine ⟨accounted_step haccounted call, ?_⟩
  unfold Session.step
  split
  · exact haccounted.answered h.answered call
  · exact h.answered

theorem Told.run {s : Session} (h : s.Told) (calls : List Call) : (s.run calls).Told := by
  induction calls generalizing s with
  | nil => exact h
  | cons call rest ih => exact ih (h.step call)

theorem Told.order {s : Session} (h : s.Told) :
    s.log.received ++ s.link.toList = s.log.accepted := by
  obtain ⟨held, haccounted⟩ := h.accounted
  have hlist : s.link.toList = held := HandoffQueue.Holds.toList_eq haccounted.holds
  rw [hlist]
  exact haccounted.order

/-- While there is a receiver, the readings that were sent are those that it took, those that wait
and those that were refused, by the counters that wrap. -/
theorem Told.balanced {s : Session} (h : s.Told) (hkept : ¬ s.log.ReceiverDropped) :
    UInt32.ofNat s.log.offered.length = s.link.stats.readingsProcessed +
      UInt32.ofNat s.link.toList.length + s.link.stats.readingsDropped := by
  obtain ⟨held, haccounted⟩ := h.accounted
  have hcounted := h.answered.counted hkept
  rw [← h.order, List.length_append] at hcounted
  rw [hcounted, haccounted.stats, UInt32.ofNat_add, UInt32.ofNat_add]
  rfl

theorem offered_step (s : Session) {call : Call} (hcall : ∀ r, call ≠ .send r) :
    (s.step call).log.offered = s.log.offered := by
  unfold Session.step
  split
  · rw [Log.offered_append]
    cases call with
    | send r => exact absurd rfl (hcall r)
    | _ => exact List.append_nil _
  · rfl

theorem hasWriter_step (s : Session) {call : Call} (hcall : call ≠ .dropSender) :
    (s.step call).link.queue.hasWriter = s.link.queue.hasWriter := by
  unfold Session.step
  split
  · cases call with
    | send r => exact (sides_send s.link r).2
    | receive => exact (sides_receive s.link).2
    | dropSender => exact absurd rfl hcall
    | _ => rfl
  · rfl

theorem run_append (s : Session) (front back : List Call) :
    s.run (front ++ back) = (s.run front).run back := List.foldl_append

theorem hasWriter_run (s : Session) {calls : List Call} (hcalls : .dropSender ∉ calls) :
    (s.run calls).link.queue.hasWriter = s.link.queue.hasWriter := by
  induction calls generalizing s with
  | nil => rfl
  | cons call rest ih =>
    rw [List.mem_cons, not_or] at hcalls
    exact (ih (s.step call) hcalls.2).trans (s.hasWriter_step (Ne.symm hcalls.1))

theorem step_of_writer (s : Session) (hwriter : s.link.queue.hasWriter = true) (r : Reading) :
    s.step (.send r) = ⟨(s.link.send r).2, s.log ++ [(.send r, .sent (s.link.send r).1)]⟩ :=
  if_pos hwriter

/-- The entries of readings that are sent one after another. -/
def sendLog (l : ReadingLink) : List Reading → Log
  | [] => []
  | r :: rest => (.send r, .sent (l.send r).1) :: sendLog (l.send r).2 rest

/-- Sending many readings is sending one after another. -/
theorem run_sends (s : Session) (hwriter : s.link.queue.hasWriter = true)
    (readings : List Reading) :
    s.run (readings.map Call.send) =
      ⟨(s.link.sendAll readings).2, s.log ++ sendLog s.link readings⟩ := by
  induction readings generalizing s with
  | nil => exact congrArg (Session.mk s.link) (List.append_nil s.log).symm
  | cons r rest ih =>
    have hkept : (s.step (.send r)).link.queue.hasWriter = s.link.queue.hasWriter :=
      s.hasWriter_step nofun
    have hnext := ih (s.step (.send r)) (hkept.trans hwriter)
    have hrun : s.run ((r :: rest).map Call.send) = (s.step (.send r)).run (rest.map Call.send) :=
      rfl
    rw [hrun, hnext, s.step_of_writer hwriter, ReadingLink.sendAll, sendLog, List.append_assoc]
    cases hsend : s.link.send r with
    | mk answer next =>
      cases answer with
      | ok done => rfl
      | error e => rfl

theorem calls_sendLog (l : ReadingLink) (readings : List Reading) :
    (sendLog l readings).map Prod.fst = readings.map Call.send := by
  induction readings generalizing l with
  | nil => rfl
  | cons r rest ih => exact congrArg (Call.send r :: ·) (ih _)

theorem offered_sendLog (l : ReadingLink) (readings : List Reading) :
    (sendLog l readings).offered = readings := by
  induction readings generalizing l with
  | nil => rfl
  | cons r rest ih => exact congrArg (r :: ·) (ih _)

theorem length_accepted_sendLog (l : ReadingLink) (readings : List Reading) :
    (sendLog l readings).accepted.length = (l.sendAll readings).1 := by
  induction readings generalizing l with
  | nil => rfl
  | cons r rest ih =>
    have hnext := ih (l.send r).2
    rw [ReadingLink.sendAll, sendLog]
    cases hsend : l.send r with
    | mk answer next =>
      rw [hsend] at hnext
      cases answer with
      | ok done => exact congrArg (fun n => n + 1) hnext
      | error e => exact hnext

end Session

end BurnerTelemetry.ReadingLink
