import BurnerTelemetry.Proofs.Attribute.Snapshot
import BurnerTelemetry.Proofs.Reporter.Session

/-!
No change of an attribute is lost to a subscriber. At any time an attribute that is not pending
for a subscriber has the value that its destination was told last; writes make an attribute
pending when they change it, and only an accepted report, which tells the values of that moment,
leaves nothing pending.
-/
namespace BurnerTelemetry

open Attribute (Changes Destination Field Registry Snapshot Store Subscriber)

namespace Attribute.Store

/-- Each destination has been told all of the attributes but what is pending for it. -/
structure UpToDate (s : Store) (attempts : List Attempt) : Prop where
  distinct : s.registry.Distinct
  temperature_le : s.snapshot.temperature.toNat ≤ Reading.temperatureLimit
  told : ∀ t ∈ s.registry.subscribers, ∀ f : Field, f.isIn t.pending = false →
    (Relay.lastTold attempts t.destination f.cluster).getD f.unreported = f.value s.snapshot

variable {s : Store} {attempts : List Attempt}

theorem upToDate_withTargets (now : UInt64) (targets : List (String × UInt16)) :
    (withTargets now targets).UpToDate [] := by
  obtain ⟨registry, hstore, hregistered⟩ := withTargets_eq now targets
  rw [hstore]
  constructor
  · exact hregistered.distinct
  · exact Nat.zero_le _
  · intro t _ f _
    cases f <;> rfl

/-- The clock and the mark of stale attributes play no part. -/
theorem UpToDate.of_same {s' : Store} (h : s.UpToDate attempts) (hregistry : s'.registry = s.registry)
    (hsnapshot : s'.snapshot = s.snapshot) : s'.UpToDate attempts := by
  constructor
  · rw [hregistry]
    exact h.distinct
  · rw [hsnapshot]
    exact h.temperature_le
  · rw [hregistry, hsnapshot]
    exact h.told

/-- An attribute that a write changes becomes pending, and the others keep their values. -/
theorem UpToDate.write (h : s.UpToDate attempts) (r : Reading) :
    (s.write r).2.UpToDate attempts := by
  constructor
  · exact h.distinct.noteChanges _
  · change (s.snapshot.update r s.now).temperature.toNat ≤ Reading.temperatureLimit
    rw [Snapshot.temperature_update]
    exact Nat.min_le_right _ _
  · intro t ht f hf
    simp only [Store.write, Registry.subscribers_noteChanges, List.mem_map] at ht
    obtain ⟨u, hu, rfl⟩ := ht
    obtain ⟨hpending, hchanges⟩ := Bool.or_eq_false_iff.1 ((Field.isIn_union _ _ f).symm.trans hf)
    have hvalue : f.value (s.snapshot.update r s.now) = f.value s.snapshot :=
      Field.value_of_not_isIn hchanges
    exact (h.told u hu f hpending).trans hvalue.symm

end Attribute.Store

namespace Reporter

variable {r : Reporter} {attempts : List Attempt}

theorem upToDate_absorb (h : r.store.UpToDate attempts) (reading : Reading) :
    (r.absorb reading).2.store.UpToDate attempts := by
  cases hvalid : reading.valid with
  | false =>
    rw [r.absorb_invalid hvalid]
    exact h
  | true =>
    rw [r.absorb_valid hvalid]
    have hfresh : Store.UpToDate { r.store with isStale := false } attempts := h.of_same rfl rfl
    exact hfresh.write reading

theorem upToDate_absorbAll (h : r.store.UpToDate attempts) (readings : List Reading) :
    (r.absorbAll readings).2.store.UpToDate attempts := by
  induction readings generalizing r with
  | nil => exact h
  | cons reading rest ih => exact ih (upToDate_absorb h reading)

theorem upToDate_expire (h : r.store.UpToDate attempts) :
    r.expire.store.UpToDate attempts := by
  rcases r.expire_cases with hsame | ⟨_, hwrite⟩
  · rw [hsame]
    exact h
  · rw [hwrite]
    have hstale : Store.UpToDate { r.store with isStale := true } attempts := h.of_same rfl rfl
    exact hstale.write Reading.silent

theorem upToDate_prepared (h : r.store.UpToDate attempts) (l : ReadingLink) :
    (r.prepared l).store.UpToDate attempts :=
  upToDate_expire (upToDate_absorbAll h l.receiveAll.1)

/-- The reports of a round tell a subscriber what is pending for it, if it is due and takes its
report, and nothing otherwise. -/
theorem lastTold_reportDue (h : r.store.registry.Distinct) (refuses : Destination → Bool)
    {t : Subscriber} (ht : t ∈ r.store.registry.subscribers) (f : Field) :
    Relay.lastTold (r.reportDue refuses).1 t.destination f.cluster =
      if (t.isDue r.store.now r.interval = true ∧ refuses t.destination = false) ∧
        f.isIn t.pending = true then some (f.value r.store.snapshot) else none := by
  rw [reportDue_eq h]
  have hdistinct : ((r.store.registry.due r.store.now r.interval).map
      (fun u => u.destination)).Nodup :=
    (List.filter_sublist.map _).nodup h.destinations
  by_cases hdue : t.isDue r.store.now r.interval = true
  · have hmem : t ∈ r.store.registry.due r.store.now r.interval :=
      List.mem_filter.2 ⟨ht, hdue⟩
    rw [Relay.lastTold_map_attemptTo hdistinct hmem]
    cases hrefused : refuses t.destination with
    | true => simp [Relay.lastTold_refused hrefused]
    | false => simp [Relay.lastTold_accepted hrefused, hdue]
  · have hothers : ∀ u ∈ r.store.registry.due r.store.now r.interval,
        u.destination ≠ t.destination := by
      intro u hu he
      obtain ⟨hin, hisDue⟩ := List.mem_filter.1 hu
      have hsame : u = t := List.inj_on_of_nodup_map h.destinations hin ht he
      exact hdue (hsame ▸ hisDue)
    rw [Relay.lastTold_not_mem hothers]
    simp [hdue]

/-- The attempts of a round go to the subscribers that are due. -/
theorem mem_attempts_reportDue (h : r.store.registry.Distinct) (refuses : Destination → Bool)
    (a : Attempt) :
    a ∈ (r.reportDue refuses).1 ↔
      ∃ t ∈ r.store.registry.subscribers, t.isDue r.store.now r.interval = true ∧
        a = attemptTo r.store.snapshot refuses t := by
  rw [reportDue_eq h, List.mem_map]
  constructor
  · rintro ⟨t, ht, rfl⟩
    obtain ⟨hin, hisDue⟩ := List.mem_filter.1 ht
    exact ⟨t, hin, hisDue, rfl⟩
  · rintro ⟨t, hin, hisDue, rfl⟩
    exact ⟨t, List.mem_filter.2 ⟨hin, hisDue⟩, rfl⟩

/-- Whoever still has something pending behind the reports is as before them, because it was not
due or because it refused its report. -/
theorem pending_reportDue (h : r.store.registry.Distinct) (refuses : Destination → Bool)
    {t : Subscriber} (ht : t ∈ (r.reportDue refuses).2.store.registry.subscribers)
    (hpending : t.pending ≠ Changes.none) :
    t ∈ r.store.registry.subscribers ∧
      (t.isDue r.store.now r.interval = false ∨
        ∃ a ∈ (r.reportDue refuses).1, a.handle = t.handle ∧ a.destination = t.destination ∧
          a.accepted = false) := by
  rw [subscribers_reportDue h, List.mem_map] at ht
  obtain ⟨u, hu, rfl⟩ := ht
  by_cases hreported : u.isDue r.store.now r.interval = true ∧ refuses u.destination = false
  · rw [if_pos hreported] at hpending
    exact absurd rfl hpending
  · rw [if_neg hreported]
    refine ⟨hu, ?_⟩
    cases hdue : u.isDue r.store.now r.interval with
    | false => exact .inl rfl
    | true =>
      right
      have hrefused : refuses u.destination = true := by
        rw [hdue] at hreported
        simpa using hreported
      refine ⟨attemptTo r.store.snapshot refuses u, ?_, rfl, rfl, ?_⟩
      · exact (mem_attempts_reportDue h refuses _).2 ⟨u, hu, hdue, rfl⟩
      · rw [attemptTo, hrefused]
        rfl

/-- A refused report leaves its subscriber as it was. -/
theorem refused_reportDue (h : r.store.registry.Distinct) (refuses : Destination → Bool)
    {a : Attempt} (ha : a ∈ (r.reportDue refuses).1) (hrefused : a.accepted = false) :
    ∃ t ∈ r.store.registry.subscribers, t.handle = a.handle ∧ t.destination = a.destination ∧
      t ∈ (r.reportDue refuses).2.store.registry.subscribers := by
  obtain ⟨t, ht, _, rfl⟩ := (mem_attempts_reportDue h refuses a).1 ha
  have hrefuses : refuses t.destination = true := by
    rw [attemptTo] at hrefused
    simpa using hrefused
  refine ⟨t, ht, rfl, rfl, ?_⟩
  rw [subscribers_reportDue h, List.mem_map]
  refine ⟨t, ht, if_neg ?_⟩
  rintro ⟨_, haccepted⟩
  rw [hrefuses] at haccepted
  cases haccepted

theorem upToDate_reportDue (h : r.store.UpToDate attempts) (refuses : Destination → Bool) :
    (r.reportDue refuses).2.store.UpToDate (attempts ++ (r.reportDue refuses).1) := by
  constructor
  · exact distinct_reportDue h.distinct refuses
  · rw [snapshot_reportDue h.distinct]
    exact h.temperature_le
  · intro t ht f hf
    rw [subscribers_reportDue h.distinct, List.mem_map] at ht
    obtain ⟨u, hu, rfl⟩ := ht
    rw [snapshot_reportDue h.distinct]
    have htold := lastTold_reportDue h.distinct refuses hu f
    by_cases hreported : u.isDue r.store.now r.interval = true ∧ refuses u.destination = false
    · rw [if_pos hreported, Subscriber.reported_destination, Relay.lastTold_append, htold]
      by_cases hpending : f.isIn u.pending = true
      · rw [if_pos ⟨hreported, hpending⟩]
        rfl
      · rw [if_neg (fun hboth => hpending hboth.2), Option.none_or]
        exact h.told u hu f (Bool.eq_false_iff.2 hpending)
    · rw [if_neg hreported] at hf ⊢
      rw [Relay.lastTold_append, htold, if_neg (fun hboth => hreported hboth.1), Option.none_or]
      exact h.told u hu f hf

theorem upToDate_round (h : r.store.UpToDate attempts) (l : ReadingLink)
    (refuses : Destination → Bool) :
    (r.round l refuses).reporter.store.UpToDate (attempts ++ (r.round l refuses).attempts) := by
  rw [round_reporter, round_attempts]
  exact upToDate_reportDue (upToDate_prepared h l) refuses

namespace Session

theorem upToDate_step {s : Session} (h : s.reporter.store.UpToDate s.attempts) (event : Event) :
    (s.step event).reporter.store.UpToDate (s.step event).attempts := by
  cases event with
  | send reading => exact h
  | round => exact upToDate_round h s.link s.refuses
  | setClock now => exact h.of_same rfl rfl
  | advance elapsed => exact h.of_same rfl rfl
  | refuse refuses => exact h

theorem upToDate_run {s : Session} (h : s.reporter.store.UpToDate s.attempts)
    (events : List Event) :
    (s.run events).reporter.store.UpToDate (s.run events).attempts := by
  induction events generalizing s with
  | nil => exact h
  | cons event rest ih => exact ih (upToDate_step h event)

/-- After every round, each attribute that is not pending for a subscriber has the value that the
subscriber was told last, or the value of silence if it was told none. Something is pending only
for a subscriber that was not due or refused its report, and a refusal leaves its subscriber as
it was. -/
theorem nothing_lost (now : UInt64) (targets : List (String × UInt16))
    (interval staleTimeout : UInt64) (link : ReadingLink) (refuses : Destination → Bool)
    (events : List Event) :
    let before := (start now targets interval staleTimeout link refuses).run events
    let ready := before.reporter.prepared before.link
    let after := before.step .round
    let snapshot := after.reporter.store.snapshot
    let subscribers := after.reporter.store.registry.subscribers
    (subscribers.map (fun t => t.handle)).Nodup ∧
      (∀ t ∈ subscribers,
        (t.pending.flame = false →
          (Relay.lastTold after.attempts t.destination Attribute.onOffCluster).getD
            (.onOff false) = .onOff snapshot.flame) ∧
        (t.pending.fan = false →
          (Relay.lastTold after.attempts t.destination Attribute.levelCluster).getD
            (.level 0) = .level snapshot.fan) ∧
        (t.pending.temperature = false →
          ∃ value : Int32,
            (Relay.lastTold after.attempts t.destination Attribute.temperatureCluster).getD
              (.centidegrees 0) = .centidegrees value ∧
            value.toInt = 100 * snapshot.temperature.toNat)) ∧
      (∀ t ∈ subscribers, t.pending ≠ Changes.none →
        t ∈ ready.store.registry.subscribers ∧
          (t.isDue ready.store.now ready.interval = false ∨
            ∃ a ∈ before.round.attempts, a.handle = t.handle ∧ a.destination = t.destination ∧
              a.accepted = false)) ∧
      (∀ a ∈ before.round.attempts, a.accepted = false →
        ∃ t ∈ ready.store.registry.subscribers, t.handle = a.handle ∧
          t.destination = a.destination ∧ t ∈ subscribers) := by
  intro before ready after snapshot subscribers
  have hstart : (start now targets interval staleTimeout link refuses).reporter.store.UpToDate
      [] := Store.upToDate_withTargets now targets
  have hbefore : before.reporter.store.UpToDate before.attempts := upToDate_run hstart events
  have hready : ready.store.registry.Distinct := (upToDate_prepared hbefore before.link).distinct
  have hafter : after.reporter.store.UpToDate after.attempts := upToDate_step hbefore .round
  refine ⟨hafter.distinct.handles, ?_, ?_, ?_⟩
  · intro t ht
    refine ⟨hafter.told t ht .flame, hafter.told t ht .fan, ?_⟩
    intro hpending
    refine ⟨Int32.ofNat snapshot.centidegrees, hafter.told t ht .temperature hpending, ?_⟩
    exact Snapshot.toInt_centidegrees snapshot
  · intro t ht hpending
    exact pending_reportDue hready before.refuses ht hpending
  · intro a ha hrefused
    exact refused_reportDue hready before.refuses ha hrefused

end Session

end Reporter

end BurnerTelemetry
