import BurnerTelemetry.Proofs.Fifo.ReadingLink
import BurnerTelemetry.Proofs.Reporter.Session

/-!
The accounts of a reporter. Each counter of the reporter and of the link is a count over the
readings that rounds have taken or over the reports that were handed over, and the attributes are
those of the valid readings, written in the order in which they were sent, with the stale rule once
behind the readings of each round.
-/
namespace BurnerTelemetry

open Attribute (Changes Destination Snapshot Store)

namespace Reporter

/-- What a session comes to, without registry, queue and counters. -/
structure Account where
  now : UInt64
  /-- The readings that were sent and wait for a round. -/
  waiting : List Reading
  /-- The readings that rounds took. -/
  taken : List Reading
  snapshot : Snapshot
  isStale : Bool

namespace Account

def start (now : UInt64) : Account := ⟨now, [], [], Snapshot.initial now, false⟩

/-- A reading is taken, and written if it is valid. -/
def take (a : Account) (r : Reading) : Account :=
  if r.valid then
    { a with
      taken := a.taken ++ [r]
      snapshot := a.snapshot.update r a.now
      isStale := false }
  else { a with taken := a.taken ++ [r] }

/-- Everything is off when the last write is as old as the timeout, unless it is off already. -/
def clear (a : Account) (timeout : UInt64) : Account :=
  if a.isStale = false ∧ timeout.toNat ≤ a.now.toNat - a.snapshot.updatedAt.toNat then
    { a with snapshot := a.snapshot.update Reading.silent a.now, isStale := true }
  else a

def step (timeout : UInt64) (a : Account) : Event → Account
  | .send r => if a.waiting.length < 8 then { a with waiting := a.waiting ++ [r] } else a
  | .round => (a.waiting.foldl take { a with waiting := [] }).clear timeout
  | .setClock now => { a with now }
  | .advance elapsed => { a with now := a.now + elapsed }
  | .refuse _ => a

def run (timeout : UInt64) (a : Account) (events : List Event) : Account :=
  events.foldl (step timeout) a

theorem taken_take (a : Account) (r : Reading) : (a.take r).taken = a.taken ++ [r] := by
  unfold take
  split
  · rfl
  · rfl

theorem waiting_take (a : Account) (r : Reading) : (a.take r).waiting = a.waiting := by
  unfold take
  split
  · rfl
  · rfl

theorem taken_clear (a : Account) (timeout : UInt64) : (a.clear timeout).taken = a.taken := by
  unfold clear
  split
  · rfl
  · rfl

theorem waiting_clear (a : Account) (timeout : UInt64) : (a.clear timeout).waiting = a.waiting := by
  unfold clear
  split
  · rfl
  · rfl

theorem takeAll (a : Account) (readings : List Reading) :
    (readings.foldl take a).taken = a.taken ++ readings ∧
      (readings.foldl take a).waiting = a.waiting := by
  induction readings generalizing a with
  | nil => exact ⟨(List.append_nil _).symm, rfl⟩
  | cons r rest ih =>
    obtain ⟨htaken, hwaiting⟩ := ih (a.take r)
    rw [taken_take, List.append_assoc] at htaken
    rw [waiting_take] at hwaiting
    exact ⟨htaken, hwaiting⟩

/-- A round takes all that waits. -/
theorem taken_round (timeout : UInt64) (a : Account) :
    (a.step timeout .round).taken = a.taken ++ a.waiting ∧ (a.step timeout .round).waiting = [] := by
  obtain ⟨htaken, hwaiting⟩ := takeAll { a with waiting := [] } a.waiting
  rw [step, taken_clear, waiting_clear]
  exact ⟨htaken, hwaiting⟩

end Account

/-- The attributes are those of the account, and the tally counts the readings that were taken and
the reports that were handed over. -/
structure Books (timeout : UInt64) (r : Reporter) (a : Account) (attempts : List Attempt) :
    Prop where
  keeps : r.staleTimeout = timeout
  distinct : r.store.registry.Distinct
  now : r.store.now = a.now
  snapshot : r.store.snapshot = a.snapshot
  isStale : r.store.isStale = a.isStale
  applied : r.tally.applied = a.taken.countP (fun reading => reading.valid)
  faults : r.tally.faults = a.taken.countP (fun reading => reading.valid && reading.hasFault)
  sent : r.tally.sent = attempts.countP (fun t => t.accepted)
  failed : r.tally.failed = attempts.countP (fun t => !t.accepted)

namespace Books

variable {timeout : UInt64} {r : Reporter} {a : Account} {attempts : List Attempt}

theorem start (now : UInt64) (targets : List (String × UInt16)) (interval timeout : UInt64) :
    Books timeout (ofStore (Store.withTargets now targets) interval timeout) (Account.start now)
      [] := by
  obtain ⟨registry, hstore, hregistered⟩ := Store.withTargets_eq now targets
  rw [hstore]
  exact ⟨rfl, hregistered.distinct, rfl, rfl, rfl, rfl, rfl, rfl, rfl⟩

/-- A valid reading is written and counted, and an invalid one does nothing. -/
theorem absorb (h : Books timeout r a attempts) (reading : Reading) :
    Books timeout (r.absorb reading).2 (a.take reading) attempts := by
  cases hvalid : reading.valid with
  | false =>
    have htake : a.take reading = { a with taken := a.taken ++ [reading] } :=
      if_neg (by rw [hvalid]; exact Bool.false_ne_true)
    rw [r.absorb_invalid hvalid, htake]
    refine ⟨h.keeps, h.distinct, h.now, h.snapshot, h.isStale, ?_, ?_, h.sent, h.failed⟩
    · rw [h.applied, List.countP_append, List.countP_singleton, hvalid]
      rfl
    · rw [h.faults, List.countP_append, List.countP_singleton, hvalid]
      rfl
  | true =>
    have htake : a.take reading = { a with
        taken := a.taken ++ [reading]
        snapshot := a.snapshot.update reading a.now
        isStale := false } := if_pos hvalid
    rw [r.absorb_valid hvalid, htake]
    refine ⟨h.keeps, h.distinct.noteChanges _, h.now, ?_, rfl, ?_, ?_, h.sent, h.failed⟩
    · change r.store.snapshot.update reading r.store.now = a.snapshot.update reading a.now
      rw [h.snapshot, h.now]
    · rw [h.applied, List.countP_append, List.countP_singleton, hvalid]
      rfl
    · rw [h.faults, List.countP_append, List.countP_singleton, hvalid, Bool.true_and]

theorem absorbAll (h : Books timeout r a attempts) (readings : List Reading) :
    Books timeout (r.absorbAll readings).2 (readings.foldl Account.take a) attempts := by
  induction readings generalizing r a with
  | nil => exact h
  | cons reading rest ih => exact ih (h.absorb reading)

/-- The stale rule finds the attributes as old as in the account. -/
theorem expire (h : Books timeout r a attempts) :
    Books timeout r.expire (a.clear timeout) attempts := by
  have hage : r.store.age = a.now.toNat - a.snapshot.updatedAt.toNat := by
    rw [Store.age, h.now, h.snapshot]
  by_cases hdue : a.isStale = false ∧ timeout.toNat ≤ a.now.toNat - a.snapshot.updatedAt.toNat
  · have hfires : r.store.isStale = false ∧ r.staleTimeout.toNat ≤ r.store.age := by
      rw [h.isStale, h.keeps, hage]
      exact hdue
    rw [expire_eq, if_pos hfires, Account.clear, if_pos hdue]
    refine ⟨h.keeps, h.distinct.noteChanges _, h.now, ?_, rfl, h.applied, h.faults, h.sent,
      h.failed⟩
    change r.store.snapshot.update Reading.silent r.store.now =
      a.snapshot.update Reading.silent a.now
    rw [h.snapshot, h.now]
  · have hquiet : ¬ (r.store.isStale = false ∧ r.staleTimeout.toNat ≤ r.store.age) := by
      rw [h.isStale, h.keeps, hage]
      exact hdue
    rw [expire_eq, if_neg hquiet, Account.clear, if_neg hdue]
    exact h

/-- Every report that is due is handed over, and counted as it was met. -/
theorem reportDue (h : Books timeout r a attempts) (refuses : Destination → Bool) :
    Books timeout (r.reportDue refuses).2 a (attempts ++ (r.reportDue refuses).1) := by
  have hdistinct := distinct_reportDue h.distinct refuses
  rw [reportDue_eq h.distinct] at hdistinct ⊢
  refine ⟨h.keeps, hdistinct, h.now, h.snapshot, h.isStale, h.applied, h.faults, ?_, ?_⟩
  · rw [List.countP_append, ← h.sent, List.countP_map]
    rfl
  · rw [List.countP_append, ← h.failed, List.countP_map]
    simp only [Function.comp_def, attemptTo, Bool.not_not]
    rfl

end Books

theorem applied_absorbAll (r : Reporter) (readings : List Reading) :
    (r.absorbAll readings).1 = readings.countP (fun reading => reading.valid) := by
  induction readings generalizing r with
  | nil => rfl
  | cons reading rest ih =>
    have happlied : (r.absorb reading).1 = reading.valid := by
      cases hvalid : reading.valid with
      | false => rw [r.absorb_invalid hvalid]
      | true => rw [r.absorb_valid hvalid]
    have hcons : (r.absorbAll (reading :: rest)).1 =
        (if (r.absorb reading).1 then 1 else 0) + ((r.absorb reading).2.absorbAll rest).1 := rfl
    rw [hcons, happlied, ih, List.countP_cons, Nat.add_comm]

namespace Session

/-- The books agree with the account, and the link holds what waits and counts what was taken and
which reports were accepted. -/
structure Accounted (timeout : UInt64) (s : Session) (a : Account) : Prop where
  books : Books timeout s.reporter a s.attempts
  holds : s.link.Holds a.waiting
  reader : s.link.queue.hasReader = true
  processed : s.link.stats.readingsProcessed = UInt32.ofNat a.taken.length
  messages : s.link.stats.messagesProcessed = UInt32.ofNat (s.attempts.countP (fun t => t.accepted))

variable {timeout : UInt64} {s : Session} {a : Account}

theorem Accounted.send (h : s.Accounted timeout a) (r : Reading) :
    (s.step (.send r)).Accounted timeout (a.step timeout (.send r)) := by
  have hreader := (s.link.sides_send r).1.trans h.reader
  rw [Session.step, Account.step]
  by_cases hroom : a.waiting.length < 8
  · obtain ⟨queue, hsend, hqueue, _⟩ := h.holds.send_of_lt h.reader hroom r
    rw [hsend] at hreader ⊢
    rw [if_pos hroom]
    exact ⟨{ h.books with }, hqueue, hreader, h.processed, h.messages⟩
  · rw [h.holds.send_of_not_lt h.reader hroom, if_neg hroom]
    exact ⟨h.books, h.holds, h.reader, h.processed, h.messages⟩

/-- What is there to report is what the account has behind the round. -/
theorem Accounted.prepared (h : s.Accounted timeout a) :
    Books timeout (s.reporter.prepared s.link) (a.step timeout .round) s.attempts := by
  obtain ⟨next, hreceive, _⟩ := h.holds.receiveAll
  have hbatch : Books timeout s.reporter { a with waiting := [] } s.attempts := { h.books with }
  rw [Reporter.prepared, hreceive]
  exact (hbatch.absorbAll a.waiting).expire

theorem link_round (s : Session) :
    s.round.link = s.link.receiveAll.2.recordMessages
      (UInt32.ofNat (s.round.attempts.countP (fun t => t.accepted))) := rfl

/-- A round takes what waits, and counts it and the reports that were accepted. -/
theorem Accounted.round (h : s.Accounted timeout a) :
    (s.step .round).Accounted timeout (a.step timeout .round) := by
  obtain ⟨next, hreceive, hempty, hstats⟩ := h.holds.receiveAll
  obtain ⟨htaken, hwaiting⟩ := Account.taken_round timeout a
  have hreader := (s.link.sides_receiveUpTo s.link.pending).1.trans h.reader
  rw [← ReadingLink.receiveAll, hreceive] at hreader
  have hlink : (s.step .round).link = next.recordMessages
      (UInt32.ofNat (s.round.attempts.countP (fun t => t.accepted))) := by
    rw [Session.step, link_round, hreceive]
  refine ⟨h.prepared.reportDue s.refuses, ?_, ?_, ?_, ?_⟩
  · rw [hlink, hwaiting]
    exact hempty
  · rw [hlink]
    exact hreader
  · rw [hlink]
    change next.stats.readingsProcessed = _
    rw [hstats, htaken, List.length_append, UInt32.ofNat_add, h.processed]
  · rw [hlink]
    change next.stats.messagesProcessed + _ = UInt32.ofNat ((s.attempts ++ _).countP _)
    rw [hstats, List.countP_append, UInt32.ofNat_add, h.messages]

theorem Accounted.applied_round (h : s.Accounted timeout a) :
    s.round.applied = a.waiting.countP (fun reading => reading.valid) := by
  obtain ⟨next, hreceive, _⟩ := h.holds.receiveAll
  rw [Session.round, Reporter.round, hreceive]
  exact applied_absorbAll s.reporter a.waiting

/-- A report is accepted exactly if its destination takes reports. -/
theorem Accounted.accepted_round (h : s.Accounted timeout a) :
    ∀ t ∈ s.round.attempts, t.accepted = !s.refuses t.destination := by
  rw [Session.round, round_attempts, reportDue_eq h.prepared.distinct]
  intro t ht
  obtain ⟨subscriber, _, rfl⟩ := List.mem_map.1 ht
  rfl

theorem Accounted.step (h : s.Accounted timeout a) (event : Event) :
    (s.step event).Accounted timeout (a.step timeout event) := by
  cases event with
  | send r => exact h.send r
  | round => exact h.round
  | setClock now =>
    exact ⟨{ h.books with now := rfl }, h.holds, h.reader, h.processed, h.messages⟩
  | advance elapsed =>
    have hnow : s.reporter.store.now + elapsed = a.now + elapsed := by rw [h.books.now]
    exact ⟨{ h.books with now := hnow }, h.holds, h.reader, h.processed, h.messages⟩
  | refuse refuses => exact ⟨h.books, h.holds, h.reader, h.processed, h.messages⟩

theorem Accounted.run (h : s.Accounted timeout a) (events : List Event) :
    (s.run events).Accounted timeout (a.run timeout events) := by
  induction events generalizing s a with
  | nil => exact h
  | cons event rest ih => exact ih (h.step event)

theorem accounted_start (now : UInt64) (targets : List (String × UInt16))
    (interval timeout : UInt64) (refuses : Destination → Bool) :
    (start now targets interval timeout ReadingLink.empty refuses).Accounted timeout
      (Account.start now) :=
  ⟨Books.start now targets interval timeout, ReadingLink.holds_empty, rfl, rfl, rfl⟩

/-- In any session every round takes all the readings that wait and answers how many of them were
valid. The counters of the reporter are those of the readings that rounds have taken: how many were
valid, and how many of these had an error code; the link counts all of them. The reports that were
sent are those that were accepted, which the link counts too, and the failures those that were
refused, as there is no report that cannot be written. The attributes are what the valid readings
leave when they are written in the order in which they were sent, with the stale rule once behind
those of each round. -/
theorem rounds_accounted (now : UInt64) (targets : List (String × UInt16))
    (interval timeout : UInt64) (refuses : Destination → Bool) (events : List Event) :
    let s := (start now targets interval timeout ReadingLink.empty refuses).run events
    let a := (Account.start now).run timeout events
    let tally := s.reporter.tally
    let stats := s.link.stats
    let store := s.reporter.store
    (s.link.toList = a.waiting ∧ s.link.receiveAll.1 = a.waiting ∧
        (s.step .round).link.toList = [] ∧
        s.round.applied = a.waiting.countP (fun r => r.valid)) ∧
      (tally.applied = a.taken.countP (fun r => r.valid) ∧
        stats.readingsProcessed = UInt32.ofNat a.taken.length ∧
        tally.faults = a.taken.countP (fun r => r.valid && r.errorCode != 0)) ∧
      (tally.sent = s.attempts.countP (fun t => t.accepted) ∧
        stats.messagesProcessed = UInt32.ofNat tally.sent ∧
        tally.failed = s.attempts.countP (fun t => !t.accepted) ∧
        (∀ t ∈ s.round.attempts, t.accepted = !s.refuses t.destination) ∧
        ∀ buffer changes, ∃ bytes,
          (payload buffer (s.reporter.prepared s.link).store.snapshot changes).1 = .ok bytes) ∧
      store.snapshot = a.snapshot ∧ store.isStale = a.isStale ∧ store.now = a.now := by
  intro s a tally stats store
  have h : s.Accounted timeout a :=
    (accounted_start now targets interval timeout refuses).run events
  have hround := h.round.holds
  rw [(Account.taken_round timeout a).2] at hround
  obtain ⟨next, hreceive, _⟩ := h.holds.receiveAll
  have hmessages : stats.messagesProcessed = UInt32.ofNat tally.sent := by
    rw [h.messages, h.books.sent]
  exact ⟨⟨h.holds.toList_eq, congrArg Prod.fst hreceive, hround.toList_eq, h.applied_round⟩,
    ⟨h.books.applied, h.processed, h.books.faults⟩,
    ⟨h.books.sent, hmessages, h.books.failed, h.accepted_round,
      fun buffer changes => ⟨_, Attribute.Report.payload_eq_bytes buffer _ changes⟩⟩,
    h.books.snapshot, h.books.isStale, h.books.now⟩

/-- Of two readings one is invalid, and the other tells of a fault. -/
example :
    let s := (start 0 [("10.0.0.1", 5540)] 0 5000 ReadingLink.empty (fun _ => false)).run
      [.send ⟨true, 30, 80, 3, true⟩, .send Reading.invalid, .round]
    s.reporter.tally = ⟨1, 1, 0, 1⟩ ∧ s.link.stats = ⟨1, 2, 0⟩ := by
  decide +kernel

end Session

end Reporter

end BurnerTelemetry
