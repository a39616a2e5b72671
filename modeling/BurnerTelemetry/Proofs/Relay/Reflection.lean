import BurnerTelemetry.Proofs.Relay.Promotion
import BurnerTelemetry.Proofs.Reporter.Agreement

/-!
A reporter that has taken some messages while the clock stood still. Its attributes, its counts
and what it has told or has still to tell to its subscribers are those of the messages, however
many rounds there were; a round at which nobody refuses leaves nothing to tell.
-/
namespace BurnerTelemetry

open Attribute (Changes Destination Field Registry Snapshot Store Subscriber)
open Wire (Status)

namespace Attribute

/-- Without an interval a subscriber is due as soon as something is pending for it. -/
theorem Subscriber.isDue_zero (t : Subscriber) (now : UInt64) :
    t.isDue now 0 = !t.pending.isEmpty := by
  unfold isDue
  cases t.reportedAt <;> simp

namespace Store

/-- The store has taken these messages at `now`. Who was not told of a change is still to be told
of it, and nobody is told of anything else. -/
structure Reflects (s : Store) (now : UInt64) (destinations : List Destination)
    (messages : List Status) (attempts : List Attempt) : Prop where
  clock : s.now = now
  subscribed : s.registry.destinations = destinations
  attributes : s.snapshot.attributes = Attributes.zero.after messages
  version : s.snapshot.version = UInt32.ofNat (Attributes.zero.changeCount messages)
  updatedAt : messages ≠ [] → s.snapshot.updatedAt = now
  upToDate : s.UpToDate attempts
  reported : ∀ t ∈ s.registry.subscribers, ∀ f : Field,
    (f.isIn t.pending || (Relay.lastTold attempts t.destination f.cluster).isSome) =
      f.isIn (Attributes.zero.changed messages)

variable {s : Store} {now : UInt64} {destinations : List Destination} {messages : List Status}
  {attempts : List Attempt}

theorem reflects_start (created now : UInt64) (targets : List (String × UInt16)) :
    ((withTargets created targets).setClock now).Reflects now
      (withTargets created targets).registry.destinations [] [] := by
  obtain ⟨registry, hstore, hregistered⟩ := withTargets_eq created targets
  have hupToDate := upToDate_withTargets created targets
  rw [hstore] at hupToDate ⊢
  constructor
  · rfl
  · rfl
  · rfl
  · rfl
  · exact fun hne => absurd rfl hne
  · exact hupToDate.of_same rfl rfl
  · intro t ht f
    rw [hregistered.pending t ht, Field.isIn_none]
    exact (Field.isIn_none f).symm

theorem Reflects.write (h : s.Reflects now destinations messages attempts) {m : Status}
    (hm : m.WellFormed) :
    (s.write m.reading).2.Reflects now destinations (messages ++ [m]) attempts := by
  constructor
  · exact h.clock
  · exact (Registry.destinations_noteChanges _ _).trans h.subscribed
  · rw [Attributes.after_concat]
    exact Snapshot.attributes_update s.snapshot hm s.now
  · rw [Attributes.changeCount_concat, UInt32.ofNat_add, ← h.version, ← h.attributes]
    exact Snapshot.version_update_message s.snapshot hm s.now
  · intro _
    exact (Snapshot.updatedAt_update _ _ _).trans h.clock
  · exact h.upToDate.write m.reading
  · intro t ht f
    simp only [Store.write, Registry.subscribers_noteChanges, List.mem_map] at ht
    obtain ⟨u, hu, rfl⟩ := ht
    have hchanges : (s.snapshot.update m.reading s.now).changesSince s.snapshot =
        m.attributes.changesSince (Attributes.zero.after messages) := by
      rw [Snapshot.changesSince_eq, Snapshot.attributes_update _ hm, h.attributes]
    rw [hchanges, Attributes.changed_concat, Field.isIn_union, Field.isIn_union,
      ← h.reported u hu f]
    exact Bool.or_right_comm _ _ _

theorem Reflects.of_isStale (h : s.Reflects now destinations messages attempts)
    (isStale : Bool) :
    Store.Reflects { s with isStale } now destinations messages attempts :=
  ⟨h.clock, h.subscribed, h.attributes, h.version, h.updatedAt, h.upToDate.of_same rfl rfl,
    h.reported⟩

/-- A silent reading changes nothing but the time as long as no message has come. -/
theorem write_silent (h : s.snapshot.attributes = Attributes.zero) :
    (s.write Reading.silent).2 =
      { s with snapshot := { s.snapshot with updatedAt := s.now } } := by
  obtain ⟨⟨flame, fan, temperature, updatedAt, version⟩, registry, clock, isStale⟩ := s
  obtain ⟨rfl, rfl, rfl⟩ := Attributes.mk.inj h
  have hchanges : (Snapshot.mk false 0 0 clock version).changesSince
      ⟨false, 0, 0, updatedAt, version⟩ = Changes.none := rfl
  have hnext : Snapshot.update ⟨false, 0, 0, updatedAt, version⟩ Reading.silent clock =
      ⟨false, 0, 0, clock, version⟩ := rfl
  simp only [Store.write, hnext, hchanges, Registry.noteChanges, Changes.isEmpty_none, if_true]

theorem Reflects.write_silent (h : s.Reflects now destinations [] attempts) :
    (s.write Reading.silent).2.Reflects now destinations [] attempts := by
  rw [Store.write_silent h.attributes]
  constructor
  · exact h.clock
  · exact h.subscribed
  · exact h.attributes
  · exact h.version
  · exact fun hne => absurd rfl hne
  · constructor
    · exact h.upToDate.distinct
    · exact h.upToDate.temperature_le
    · intro t ht f hf
      cases f
      · exact h.upToDate.told t ht .flame hf
      · exact h.upToDate.told t ht .fan hf
      · exact h.upToDate.told t ht .temperature hf
  · exact h.reported

/-- Whoever has nothing left to hear was told the present value of whatever ever changed. -/
theorem Reflects.lastTold (h : s.Reflects now destinations messages attempts) {t : Subscriber}
    (ht : t ∈ s.registry.subscribers) (hpending : t.pending = Changes.none) (f : Field) :
    Relay.lastTold attempts t.destination f.cluster =
      if f.isIn (Attributes.zero.changed messages) then some (f.value s.snapshot) else none := by
  have hreported := h.reported t ht f
  have htold := h.upToDate.told t ht f (by rw [hpending, Field.isIn_none])
  rw [hpending, Field.isIn_none, Bool.false_or] at hreported
  rw [← hreported]
  cases hlast : Relay.lastTold attempts t.destination f.cluster with
  | none => rfl
  | some v =>
    rw [hlast] at htold
    exact congrArg some htold

end Store

end Attribute

namespace Reporter

/-- The reporter has taken these messages at `now`, and sends its reports without delay. -/
structure Reflects (r : Reporter) (now : UInt64) (destinations : List Destination)
    (messages : List Status) (attempts : List Attempt) : Prop where
  interval : r.interval = 0
  timeout : r.staleTimeout ≠ 0
  store : r.store.Reflects now destinations messages attempts
  applied : r.tally.applied = messages.length
  faults : r.tally.faults = messages.countP (fun m => m.errorCode != 0)
  failed : r.tally.failed = 0

variable {r : Reporter} {now : UInt64} {destinations : List Destination}
  {messages : List Status} {attempts : List Attempt}

theorem Reflects.absorb (h : r.Reflects now destinations messages attempts) {m : Status}
    (hm : m.WellFormed) :
    (r.absorb m.reading).2.Reflects now destinations (messages ++ [m]) attempts := by
  have hvalid : m.reading.valid = true := by cases m <;> rfl
  have hfault : m.reading.hasFault = (m.errorCode != 0) := by cases m <;> rfl
  rw [r.absorb_valid hvalid]
  constructor
  · exact h.interval
  · exact h.timeout
  · exact (h.store.of_isStale false).write hm
  · simp only [h.applied, List.length_append, List.length_singleton]
  · simp only [h.faults, hfault, List.countP_append, List.countP_singleton]
  · exact h.failed

theorem Reflects.absorbAll (h : r.Reflects now destinations messages attempts)
    {queued : List Status} (hqueued : ∀ m ∈ queued, m.WellFormed) :
    (r.absorbAll (queued.map Status.reading)).2.Reflects now destinations (messages ++ queued)
      attempts := by
  induction queued generalizing r messages with
  | nil =>
    rw [List.append_nil]
    exact h
  | cons m rest ih =>
    have hnext := h.absorb (hqueued m List.mem_cons_self)
    have hrest := ih hnext (fun n hn => hqueued n (List.mem_cons_of_mem m hn))
    rw [List.append_assoc] at hrest
    exact hrest

theorem Reflects.expire (h : r.Reflects now destinations messages attempts) :
    r.expire.Reflects now destinations messages attempts := by
  rcases r.expire_cases with hsame | ⟨hage, hwrite⟩
  · rw [hsame]
    exact h
  · -- the rule fires only while no message has come, since the clock stands still
    have hnone : messages = [] := by
      by_contra hne
      rw [Store.age, h.store.clock, h.store.updatedAt hne, Nat.sub_self] at hage
      exact h.timeout (UInt64.toNat_inj.1 (Nat.le_zero.1 hage))
    subst hnone
    rw [hwrite]
    exact ⟨h.interval, h.timeout, (h.store.of_isStale true).write_silent, h.applied, h.faults,
      h.failed⟩

/-- Reports that nobody refuses tell all that is pending and leave nothing. -/
theorem subscribers_reportDue_all (h : r.store.registry.Distinct) (hinterval : r.interval = 0) :
    ∀ t ∈ (r.reportDue (fun _ => false)).2.store.registry.subscribers,
      t.pending = Changes.none ∧
        ∃ u ∈ r.store.registry.subscribers, u.destination = t.destination ∧
          ∀ f : Field, Relay.lastTold (r.reportDue (fun _ => false)).1 t.destination f.cluster =
            if f.isIn u.pending then some (f.value r.store.snapshot) else none := by
  intro t ht
  rw [subscribers_reportDue h, List.mem_map] at ht
  obtain ⟨u, hu, rfl⟩ := ht
  have htold := lastTold_reportDue h (fun _ => false) hu
  simp only [hinterval, Subscriber.isDue_zero, and_true] at htold ⊢
  by_cases hpending : u.pending = Changes.none
  · have hnotDue : ¬ (!u.pending.isEmpty) = true := by
      rw [hpending]
      decide
    rw [if_neg hnotDue]
    refine ⟨hpending, u, hu, rfl, ?_⟩
    intro f
    rw [htold f, hpending, Field.isIn_none]
    rfl
  · have hdue : (!u.pending.isEmpty) = true := by
      rw [Bool.not_eq_true', Bool.eq_false_iff]
      exact fun hempty => hpending ((Changes.isEmpty_iff _).1 hempty)
    rw [if_pos hdue]
    refine ⟨rfl, u, hu, rfl, ?_⟩
    intro f
    rw [Subscriber.reported_destination, htold f, hdue]
    simp only [true_and]

theorem Reflects.reportDue (h : r.Reflects now destinations messages attempts) :
    (r.reportDue (fun _ => false)).2.Reflects now destinations messages
      (attempts ++ (r.reportDue (fun _ => false)).1) := by
  have hdistinct := h.store.upToDate.distinct
  have hall := subscribers_reportDue_all hdistinct h.interval
  have hupToDate := upToDate_reportDue h.store.upToDate (fun _ => false)
  rw [reportDue_eq hdistinct] at hall hupToDate ⊢
  constructor
  · exact h.interval
  · exact h.timeout
  · constructor
    · exact h.store.clock
    · exact (Store.destinations_reportedTo _ _).trans h.store.subscribed
    · exact h.store.attributes
    · exact h.store.version
    · exact h.store.updatedAt
    · exact hupToDate
    · intro t ht f
      obtain ⟨hpending, u, hu, hdestination, htold⟩ := hall t ht
      rw [hpending, Field.isIn_none, Relay.lastTold_append, htold f, ← h.store.reported u hu f,
        hdestination]
      cases f.isIn u.pending
      · simp
      · simp
  · exact h.applied
  · exact h.faults
  · simp [afterAttempts, h.failed]

/-- A round takes the messages that wait and leaves nothing to tell. -/
theorem Reflects.round (h : r.Reflects now destinations messages attempts)
    {queued : List Status} (hqueued : ∀ m ∈ queued, m.WellFormed) {l : ReadingLink}
    (hlink : l.receiveAll.1 = queued.map Status.reading) :
    (r.round l (fun _ => false)).reporter.Reflects now destinations (messages ++ queued)
        (attempts ++ (r.round l (fun _ => false)).attempts) ∧
      ∀ t ∈ (r.round l (fun _ => false)).reporter.store.registry.subscribers,
        t.pending = Changes.none := by
  have hready : (r.prepared l).Reflects now destinations (messages ++ queued) attempts := by
    rw [prepared, hlink]
    exact (h.absorbAll hqueued).expire
  rw [round_reporter, round_attempts]
  constructor
  · exact hready.reportDue
  · intro t ht
    exact (subscribers_reportDue_all hready.store.upToDate.distinct hready.interval t ht).1

end Reporter

end BurnerTelemetry
