import BurnerTelemetry.Proofs.Reporter.Delivery

/-!
Sessions of a reporter: readings are sent over the link, rounds are made, the clock is set or
moves on, and destinations begin or cease to refuse reports, in any order. What a round does
before its reports comes down to writes of readings to the attributes.
-/
namespace BurnerTelemetry

open Attribute (Destination Store)

namespace Reporter

theorem absorb_invalid (r : Reporter) {reading : Reading} (h : reading.valid = false) :
    r.absorb reading = (false, r) := by
  simp only [absorb, Store.apply, h, Bool.false_eq_true, if_false]

/-- A valid reading is written, and counted as a fault too if it has an error code. -/
theorem absorb_valid (r : Reporter) {reading : Reading} (h : reading.valid = true) :
    r.absorb reading = (true, { r with
      store := ({ r.store with isStale := false }.write reading).2
      tally.applied := r.tally.applied + 1
      tally.faults := r.tally.faults + (if reading.hasFault then 1 else 0) }) := by
  simp only [absorb, Store.apply, h, if_true]

/-- The stale rule writes a silent reading when the attributes are old enough and not yet stale. -/
theorem expire_eq (r : Reporter) :
    r.expire = if r.store.isStale = false ∧ r.staleTimeout.toNat ≤ r.store.age then
      { r with store := ({ r.store with isStale := true }.write Reading.silent).2 } else r := by
  rw [expire, Store.expire?]
  cases hstale : r.store.isStale with
  | true => rfl
  | false =>
    by_cases hold : r.staleTimeout.toNat ≤ r.store.age
    · have hdue : false = false ∧ r.staleTimeout.toNat ≤ r.store.age := ⟨rfl, hold⟩
      rw [if_pos hdue, decide_eq_false (Nat.not_lt_of_le hold)]
      rfl
    · have hnotDue : ¬ (false = false ∧ r.staleTimeout.toNat ≤ r.store.age) :=
        fun hdue => hold hdue.2
      rw [if_neg hnotDue, decide_eq_true (Nat.lt_of_not_le hold)]
      rfl

theorem expire_cases (r : Reporter) :
    r.expire = r ∨
      (r.staleTimeout.toNat ≤ r.store.age ∧ r.expire = { r with
        store := ({ r.store with isStale := true }.write Reading.silent).2 }) := by
  rw [expire_eq]
  split
  · rename_i hdue
    exact .inr ⟨hdue.2, rfl⟩
  · exact .inl rfl

/-- The reporter of a round when it comes to the reports. -/
def prepared (r : Reporter) (l : ReadingLink) : Reporter :=
  (r.absorbAll l.receiveAll.1).2.expire

theorem now_absorbAll (r : Reporter) (readings : List Reading) :
    (r.absorbAll readings).2.store.now = r.store.now := by
  induction readings generalizing r with
  | nil => rfl
  | cons reading rest ih =>
    refine (ih (r.absorb reading).2).trans ?_
    cases hvalid : reading.valid with
    | false => rw [r.absorb_invalid hvalid]
    | true =>
      rw [r.absorb_valid hvalid]
      rfl

theorem now_prepared (r : Reporter) (l : ReadingLink) :
    (r.prepared l).store.now = r.store.now := by
  refine Eq.trans ?_ (r.now_absorbAll l.receiveAll.1)
  rcases (r.absorbAll l.receiveAll.1).2.expire_cases with hsame | ⟨_, hwrite⟩
  · rw [prepared, hsame]
  · rw [prepared, hwrite]
    rfl

theorem round_attempts (r : Reporter) (l : ReadingLink) (refuses : Destination → Bool) :
    (r.round l refuses).attempts = ((r.prepared l).reportDue refuses).1 := rfl

theorem round_reporter (r : Reporter) (l : ReadingLink) (refuses : Destination → Bool) :
    (r.round l refuses).reporter = ((r.prepared l).reportDue refuses).2 := rfl

inductive Event where
  | send (reading : Reading)
  | round
  | setClock (now : UInt64)
  | advance (elapsed : UInt64)
  | refuse (refuses : Destination → Bool)

structure Session where
  reporter : Reporter
  link : ReadingLink
  /-- The destinations that take no report at present. -/
  refuses : Destination → Bool
  /-- All reports so far, accepted or not, oldest first. -/
  attempts : List Attempt

namespace Session

/-- A fresh store with some targets, and a link in any state. -/
def start (now : UInt64) (targets : List (String × UInt16)) (interval staleTimeout : UInt64)
    (link : ReadingLink) (refuses : Destination → Bool) : Session :=
  ⟨ofStore (Store.withTargets now targets) interval staleTimeout, link, refuses, []⟩

/-- The round that would be made now. -/
def round (s : Session) : Round := s.reporter.round s.link s.refuses

def step (s : Session) : Event → Session
  | .send reading => { s with link := (s.link.send reading).2 }
  | .round =>
    { s with
      reporter := s.round.reporter
      link := s.round.link
      attempts := s.attempts ++ s.round.attempts }
  | .setClock now => { s with reporter.store := s.reporter.store.setClock now }
  | .advance elapsed => { s with reporter.store := s.reporter.store.advance elapsed }
  | .refuse refuses => { s with refuses }

def run (s : Session) (events : List Event) : Session := events.foldl step s

end Session

end Reporter

end BurnerTelemetry
