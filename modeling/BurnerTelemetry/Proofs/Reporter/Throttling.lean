import BurnerTelemetry.Proofs.Reporter.History

/-!
How often a subscriber gets reports. What is pending for it and when it took the last report is
told by what has happened; a round makes one attempt for each subscriber that has something pending
and whose last report is long enough ago, and no other. Main statement: two reports that a
subscriber takes one after the other are an interval apart, whatever the clock did between them, and
their versions differ by the number of writes between them that changed something.
-/
namespace BurnerTelemetry

open Attribute (Changes Destination Field Registry Snapshot Store Subscriber)

/-- The report tells attributes of this version. -/
def Attempt.Carries (a : Attempt) (version : UInt32) : Prop :=
  ∃ entries, Attribute.Report.decode a.payload = .ok entries ∧ entries ≠ [] ∧
    ∀ entry ∈ entries, entry.version = version

namespace Reporter

/-- A subscriber is as what has happened tells. -/
structure Told (history : History) (t : Subscriber) : Prop where
  reportedAt : t.reportedAt = (history.reportTimes t.handle).getLast?
  pending : t.pending = (history.since t.handle).changes

/-- An attempt was due after what had happened, and reports that. -/
structure Lawful (interval : UInt64) (front : History) (time : UInt64) (a : Attempt) : Prop where
  due : ∀ last ∈ (front.reportTimes a.handle).getLast?,
    interval.toNat ≤ time.toNat - last.toNat
  pending : (front.since a.handle).changes ≠ Changes.none
  payload : ∃ snapshot : Snapshot, snapshot.version = UInt32.ofNat front.changeCount ∧
    a.payload = Attribute.Report.bytes snapshot (front.since a.handle).changes

/-- A reporter keeps its interval: its subscribers are as told, and so were all that got reports. -/
structure Throttled (interval : UInt64) (history : History) (r : Reporter) : Prop where
  keeps : r.interval = interval
  distinct : r.store.registry.Distinct
  told : ∀ t ∈ r.store.registry.subscribers, Told history t
  version : r.store.snapshot.version = UInt32.ofNat history.changeCount
  lawful : ∀ front time a back, history = front ++ .attempted time a :: back →
    Lawful interval front time a

variable {interval : UInt64} {history : History} {r next : Reporter} {l : ReadingLink}

theorem Told.written {t : Subscriber} (h : Told history t) (changes : Changes) :
    Told (history ++ [.written changes]) { t with pending := t.pending.union changes } := by
  have hother : (Happening.written changes).reports t.handle = false := rfl
  constructor
  · rw [h.reportedAt, History.reportTimes_append]
    exact congrArg List.getLast? (List.append_nil _).symm
  · rw [History.since_concat_of_not_reports hother, History.changes_concat, ← h.pending]
    rfl

/-- An attempt that the subscriber did not take does nothing to it. -/
theorem Told.attempted_other {t : Subscriber} (h : Told history t) {time : UInt64} {a : Attempt}
    (hother : (Happening.attempted time a).reports t.handle = false) :
    Told (history ++ [.attempted time a]) t := by
  constructor
  · have hnone : History.reportTimes [.attempted time a] t.handle = [] :=
      History.reportTimes_of_not_reports (fun _ hm => List.mem_singleton.1 hm ▸ hother)
    rw [h.reportedAt, History.reportTimes_append, hnone, List.append_nil]
  · rw [History.since_concat_of_not_reports hother, History.changes_concat, ← h.pending]
    exact (Changes.union_none _).symm

theorem told_reported {t : Subscriber} {time : UInt64} {a : Attempt}
    (hreports : (Happening.attempted time a).reports t.handle = true) :
    Told (history ++ [.attempted time a]) (t.reported time) := by
  constructor
  · rw [Subscriber.reported_handle, History.reportTimes_append,
      History.reportTimes_of_reports hreports, List.getLast?_concat]
    rfl
  · rw [Subscriber.reported_handle, History.since_concat_of_reports hreports]
    rfl

/-- A report that names something carries the version of its attributes. -/
theorem carries_of_payload {a : Attempt} {snapshot : Snapshot} {changes : Changes}
    (hchanges : changes ≠ Changes.none)
    (hpayload : a.payload = Attribute.Report.bytes snapshot changes) :
    a.Carries snapshot.version := by
  refine ⟨Attribute.Report.entries snapshot changes, ?_, ?_, ?_⟩
  · rw [hpayload, Attribute.Report.decode_bytes]
  · intro hnil
    rw [Attribute.Report.entries_eq_map, List.map_eq_nil_iff, List.filter_eq_nil_iff] at hnil
    exact hchanges (Field.eq_none_of_not_isIn (fun f hf => Bool.eq_false_iff.2 (hnil f hf)))
  · intro entry hentry
    rw [Attribute.Report.entries_eq_map] at hentry
    obtain ⟨f, _, rfl⟩ := List.mem_map.1 hentry
    rfl

namespace Throttled

/-- The clock, the mark of stale attributes and the tally play no part. -/
theorem of_same (h : Throttled interval history r) (hkeeps : next.interval = r.interval)
    (hregistry : next.store.registry = r.store.registry)
    (hsnapshot : next.store.snapshot = r.store.snapshot) : Throttled interval history next := by
  constructor
  · exact hkeeps.trans h.keeps
  · rw [hregistry]
    exact h.distinct
  · rw [hregistry]
    exact h.told
  · rw [hsnapshot]
    exact h.version
  · exact h.lawful

/-- A write is told to every subscriber, and raises the version if it changes something. -/
theorem write (h : Throttled interval history r) (reading : Reading) (isStale : Bool)
    (hkeeps : next.interval = r.interval)
    (hstore : next.store = ({ r.store with isStale }.write reading).2) :
    Throttled interval (history ++ [.written ({ r.store with isStale }.write reading).1]) next := by
  constructor
  · exact hkeeps.trans h.keeps
  · rw [hstore]
    exact h.distinct.noteChanges _
  · intro t ht
    rw [hstore] at ht
    simp only [Store.write, Registry.subscribers_noteChanges, List.mem_map] at ht
    obtain ⟨u, hu, rfl⟩ := ht
    exact (h.told u hu).written _
  · rw [hstore]
    change (r.store.snapshot.update reading r.store.now).version = _
    change _ = UInt32.ofNat (History.changeCount (history ++ [.written
      ((r.store.snapshot.update reading r.store.now).changesSince r.store.snapshot)]))
    rw [Snapshot.version_update, h.version, History.changeCount_append,
      History.changeCount_written]
    split
    · rfl
    · exact (UInt32.ofNat_add _ 1).symm
  · intro front time a back hsplit
    rcases History.eq_or_of_concat hsplit with ⟨_, hlast⟩ | ⟨rest, hbefore⟩
    · cases hlast
    · exact h.lawful front time a rest hbefore

/-- What a subscriber is sent is what is pending for it, and what it takes is no longer pending. -/
theorem reportTo (h : Throttled interval history r) {t : Subscriber}
    (ht : t ∈ r.store.registry.subscribers) (hdue : t.isDue r.store.now interval = true)
    (refuses : Destination → Bool) :
    Throttled interval
      (history ++ [.attempted r.store.now (attemptTo r.store.snapshot refuses t)])
      (r.reportTo refuses t).2 := by
  have hlawful : Lawful interval history r.store.now (attemptTo r.store.snapshot refuses t) := by
    have htold := h.told t ht
    obtain ⟨hpending, hspaced⟩ := Subscriber.isDue_iff.1 hdue
    refine ⟨?_, htold.pending ▸ hpending, r.store.snapshot, h.version, ?_⟩
    · intro last hlast
      have hreported : t.reportedAt = some last := htold.reportedAt.trans hlast
      rw [hreported] at hspaced
      simpa using hspaced
    · rw [attemptTo, htold.pending]
  have hattempts : ∀ front time a back,
      history ++ [.attempted r.store.now (attemptTo r.store.snapshot refuses t)] =
        front ++ .attempted time a :: back → Lawful interval front time a := by
    intro front time a back hsplit
    rcases History.eq_or_of_concat hsplit with ⟨rfl, hlast⟩ | ⟨rest, hbefore⟩
    · cases hlast
      exact hlawful
    · exact h.lawful front time a rest hbefore
  have hversion : r.store.snapshot.version = UInt32.ofNat (History.changeCount
      (history ++ [.attempted r.store.now (attemptTo r.store.snapshot refuses t)])) := by
    rw [History.changeCount_append, h.version]
    rfl
  cases hrefuses : refuses t.destination with
  | true =>
    rw [reportTo_refused hrefuses]
    refine ⟨h.keeps, h.distinct, ?_, hversion, hattempts⟩
    intro u hu
    refine (h.told u hu).attempted_other ?_
    rw [Happening.reports, attemptTo, hrefuses]
    rfl
  | false =>
    rw [reportTo_accepted hrefuses]
    refine ⟨h.keeps, h.distinct.markReported _ _, ?_, hversion, hattempts⟩
    intro u hu
    change u ∈ (r.store.registry.markReported t.handle r.store.now).subscribers at hu
    rw [Registry.subscribers_markReported h.distinct, List.mem_map] at hu
    obtain ⟨v, hv, rfl⟩ := hu
    by_cases hsame : v.handle = t.handle
    · rw [if_pos hsame]
      apply told_reported
      simp [Happening.reports, attemptTo, hrefuses, hsame]
    · rw [if_neg hsame]
      refine (h.told v hv).attempted_other ?_
      simp [Happening.reports, attemptTo, Ne.symm hsame]

theorem reportToAll (h : Throttled interval history r) (refuses : Destination → Bool)
    {due : List Subscriber} (hdistinct : (due.map (fun t => t.handle)).Nodup)
    (hdue : ∀ t ∈ due, t ∈ r.store.registry.subscribers ∧ t.isDue r.store.now interval = true) :
    Throttled interval
      (history ++ (r.reportToAll refuses due).1.map (.attempted r.store.now))
      (r.reportToAll refuses due).2 := by
  induction due generalizing r history with
  | nil =>
    rw [Reporter.reportToAll, List.map_nil, List.append_nil]
    exact h
  | cons t rest ih =>
    obtain ⟨hother, hrest⟩ := List.nodup_cons.1 hdistinct
    obtain ⟨ht, hisDue⟩ := hdue t List.mem_cons_self
    have hnext := h.reportTo ht hisDue refuses
    -- A report to the first touches neither the others nor the clock, so they are still due.
    have hothers : ∀ u ∈ rest, u ∈ (r.reportTo refuses t).2.store.registry.subscribers ∧
        u.isDue (r.reportTo refuses t).2.store.now interval = true := by
      intro u hu
      obtain ⟨hin, hdueNow⟩ := hdue u (List.mem_cons_of_mem t hu)
      have hne : u.handle ≠ t.handle := fun he => hother (List.mem_map.2 ⟨u, hu, he⟩)
      rw [now_reportTo]
      exact ⟨mem_reportTo h.distinct hin hne refuses, hdueNow⟩
    have hall := ih hnext hrest hothers
    rw [now_reportTo, List.append_assoc] at hall
    rw [reportToAll_cons]
    exact hall

theorem absorb (h : Throttled interval history r) (reading : Reading) :
    Throttled interval (history ++ r.readingWrites reading) (r.absorb reading).2 := by
  cases hvalid : reading.valid with
  | false =>
    have hnone : r.readingWrites reading = [] := by simp [readingWrites, Store.apply, hvalid]
    rw [hnone, List.append_nil, r.absorb_invalid hvalid]
    exact h
  | true =>
    have hone : r.readingWrites reading =
        [.written ({ r.store with isStale := false }.write reading).1] := by
      simp [readingWrites, Store.apply, hvalid]
    rw [hone, r.absorb_valid hvalid]
    exact h.write reading false rfl rfl

theorem absorbAll (h : Throttled interval history r) (readings : List Reading) :
    Throttled interval (history ++ r.writes readings) (r.absorbAll readings).2 := by
  induction readings generalizing r history with
  | nil =>
    rw [writes, List.append_nil]
    exact h
  | cons reading rest ih =>
    have hall := ih (h.absorb reading)
    rw [List.append_assoc] at hall
    exact hall

theorem expire (h : Throttled interval history r) :
    Throttled interval (history ++ r.staleWrites) r.expire := by
  unfold staleWrites Reporter.expire Store.expire?
  by_cases hyoung : (r.store.isStale || decide (r.store.age < r.staleTimeout.toNat)) = true
  · rw [if_pos hyoung, List.append_nil]
    exact h
  · rw [if_neg hyoung]
    exact h.write Reading.silent true rfl rfl

theorem prepared (h : Throttled interval history r) (l : ReadingLink) :
    Throttled interval (history ++ r.roundWrites l) (r.prepared l) := by
  rw [roundWrites, ← List.append_assoc]
  exact (h.absorbAll l.receiveAll.1).expire

theorem reportDue (h : Throttled interval history r) (refuses : Destination → Bool) :
    Throttled interval (history ++ (r.reportDue refuses).1.map (.attempted r.store.now))
      (r.reportDue refuses).2 := by
  have hdistinct : ((r.store.registry.due r.store.now r.interval).map (fun t => t.handle)).Nodup :=
    (List.filter_sublist.map _).nodup h.distinct.handles
  refine h.reportToAll refuses hdistinct ?_
  intro t ht
  rw [h.keeps] at ht
  exact List.mem_filter.1 ht

theorem step {s : Session} (h : Throttled interval history s.reporter) (event : Event) :
    Throttled interval (history ++ s.happenings event) (s.step event).reporter := by
  cases event with
  | round =>
    have hround := (h.prepared s.link).reportDue s.refuses
    rw [now_prepared, List.append_assoc] at hround
    exact hround
  | send reading =>
    rw [Session.happenings, List.append_nil]
    exact h
  | setClock now =>
    rw [Session.happenings, List.append_nil]
    exact h.of_same rfl rfl rfl
  | advance elapsed =>
    rw [Session.happenings, List.append_nil]
    exact h.of_same rfl rfl rfl
  | refuse refuses =>
    rw [Session.happenings, List.append_nil]
    exact h

theorem run {s : Session} (h : Throttled interval history s.reporter) (events : List Event) :
    Throttled interval (history ++ s.history events) (s.run events).reporter := by
  induction events generalizing s history with
  | nil =>
    rw [Session.history, List.append_nil]
    exact h
  | cons event rest ih =>
    have hall := ih (h.step event)
    rw [List.append_assoc] at hall
    exact hall

theorem start (now : UInt64) (targets : List (String × UInt16))
    (interval staleTimeout : UInt64) (link : ReadingLink) (refuses : Destination → Bool) :
    Throttled interval []
      (Session.start now targets interval staleTimeout link refuses).reporter := by
  obtain ⟨registry, hstore, hregistered⟩ := Store.withTargets_eq now targets
  rw [Session.start, hstore]
  constructor
  · rfl
  · exact hregistered.distinct
  · intro t ht
    exact ⟨hregistered.reportedAt t ht, hregistered.pending t ht⟩
  · rfl
  · intro front time a back hsplit
    exact absurd hsplit.symm (List.append_ne_nil_of_right_ne_nil front (List.cons_ne_nil _ _))

/-- Between a report that a subscriber takes and the next attempt to report to it lie the interval
and at least one change, and as many changes as lie between them lie between their versions. -/
theorem spaced (h : Throttled interval history r) {front mid back : History}
    {first second : Attempt} {time later : UInt64}
    (hsplit : history = front ++ .attempted time first :: (mid ++ .attempted later second :: back))
    (hfirst : first.accepted = true) (hsame : second.handle = first.handle)
    (hmid : ∀ h ∈ mid, h.reports first.handle = false) :
    interval.toNat ≤ later.toNat - time.toNat ∧ 0 < mid.changeCount ∧
      ∃ version, first.Carries version ∧
        second.Carries (version + UInt32.ofNat mid.changeCount) := by
  have hreports : (Happening.attempted time first).reports first.handle = true := by
    simp [Happening.reports, hfirst]
  have hbefore : history = (front ++ .attempted time first :: mid) ++
      .attempted later second :: back := by
    rw [hsplit, List.append_assoc, List.cons_append]
  have hearlier := h.lawful front time first _ hsplit
  have hlater := h.lawful _ later second back hbefore
  -- Behind `first` nothing is a report to this subscriber: it is the last one before `second`.
  have hsince : History.since (front ++ .attempted time first :: mid) second.handle = mid := by
    rw [hsame]
    exact History.since_append hreports hmid
  have hlast : time ∈
      (History.reportTimes (front ++ .attempted time first :: mid) second.handle).getLast? := by
    rw [hsame, ← List.singleton_append, History.reportTimes_append, History.reportTimes_append,
      History.reportTimes_of_reports hreports, History.reportTimes_of_not_reports hmid,
      List.append_nil, List.getLast?_concat]
    rfl
  have hchanged := hlater.pending
  rw [hsince] at hchanged
  obtain ⟨snapshot, hversion, hpayload⟩ := hearlier.payload
  obtain ⟨next, hnext, hnextPayload⟩ := hlater.payload
  rw [hsince] at hnextPayload
  refine ⟨hlater.due time hlast, History.changeCount_pos hchanged, snapshot.version,
    carries_of_payload hearlier.pending hpayload, ?_⟩
  have hraised : next.version = snapshot.version + UInt32.ofNat mid.changeCount := by
    have hcount : History.changeCount (.attempted time first :: mid) = mid.changeCount := rfl
    rw [hnext, hversion, History.changeCount_append, hcount, UInt32.ofNat_add]
  rw [← hraised]
  exact carries_of_payload hchanged hnextPayload

end Throttled

/-- A round makes an attempt for every subscriber that is due, in the order of the registry. -/
theorem attempts_round (h : (r.prepared l).store.registry.Distinct) (refuses : Destination → Bool) :
    (r.round l refuses).attempts =
      ((r.prepared l).store.registry.due r.store.now (r.prepared l).interval).map
        (attemptTo (r.prepared l).store.snapshot refuses) := by
  rw [round_attempts, reportDue_eq h, now_prepared]

namespace Session

/-- Reports are throttled exactly. In any session, a round makes at most one attempt for each
subscriber, in the order of the registry: for those with something pending when the readings are
taken in and the stale rule has run, and whose last report, if they took any, is at least an
interval ago. An attempt reports what is pending for its subscriber, which is what was written since
that report, whatever others were sent. So between two reports that a subscriber takes one after the
other the clock has gone forward by the interval, if there is one, and their versions differ by the
number of writes between them that changed something, which is not zero. -/
theorem reports_throttled (now : UInt64) (targets : List (String × UInt16))
    (interval staleTimeout : UInt64) (link : ReadingLink) (refuses : Destination → Bool)
    (events : List Event) :
    let fresh := start now targets interval staleTimeout link refuses
    let s := fresh.run events
    let ready := (s.reporter.prepared s.link).store
    let before : History := fresh.history events ++ s.reporter.roundWrites s.link
    (ready.registry.handles.Nodup ∧
        (s.round.attempts.map (fun a => a.handle)).Sublist ready.registry.handles) ∧
      (∀ t ∈ ready.registry.subscribers,
        t.reportedAt = (before.reportTimes t.handle).getLast? ∧
          t.pending = (before.since t.handle).changes ∧
          ((∃ a ∈ s.round.attempts, a.handle = t.handle) ↔
            t.pending ≠ Changes.none ∧ (t.reportedAt = none ∨ ∃ last, t.reportedAt = some last ∧
              interval.toNat ≤ s.reporter.store.now.toNat - last.toNat)) ∧
          ∀ a ∈ s.round.attempts, a.handle = t.handle → a.destination = t.destination ∧
            Attribute.Report.decode a.payload =
              .ok ((Field.all.filter (fun f => f.isIn t.pending)).map
                (fun f => f.entry ready.snapshot))) ∧
      ∀ (front mid back : History) (first second : Attempt) (time later : UInt64),
        fresh.history events =
            front ++ .attempted time first :: (mid ++ .attempted later second :: back) →
          first.accepted = true → second.accepted = true → second.handle = first.handle →
          (∀ h ∈ mid, h.reports first.handle = false) →
            (0 < interval → time.toNat + interval.toNat ≤ later.toNat) ∧
              0 < mid.changeCount ∧ ∃ version, first.Carries version ∧
                second.Carries (version + UInt32.ofNat mid.changeCount) := by
  intro fresh s ready before
  have hrun : Throttled interval (fresh.history events) s.reporter :=
    (Throttled.start now targets interval staleTimeout link refuses).run events
  have hready : Throttled interval before (s.reporter.prepared s.link) := hrun.prepared s.link
  have hattempts : s.round.attempts =
      (ready.registry.due s.reporter.store.now interval).map
        (attemptTo ready.snapshot s.refuses) := by
    rw [Session.round, attempts_round hready.distinct, hready.keeps]
  have hone : ∀ t ∈ ready.registry.subscribers, ∀ a ∈ s.round.attempts, a.handle = t.handle →
      t.isDue s.reporter.store.now interval = true ∧ a = attemptTo ready.snapshot s.refuses t := by
    intro t ht a ha hhandle
    rw [hattempts] at ha
    obtain ⟨u, hu, rfl⟩ := List.mem_map.1 ha
    obtain ⟨hin, hdue⟩ := List.mem_filter.1 hu
    obtain rfl : u = t := List.inj_on_of_nodup_map hready.distinct.handles hin ht hhandle
    exact ⟨hdue, rfl⟩
  refine ⟨⟨hready.distinct.handles, ?_⟩, ?_, ?_⟩
  · rw [hattempts, List.map_map]
    exact List.filter_sublist.map _
  · intro t ht
    have htold := hready.told t ht
    refine ⟨htold.reportedAt, htold.pending, ?_, ?_⟩
    · rw [← Subscriber.isDue_iff]
      constructor
      · rintro ⟨a, ha, hhandle⟩
        exact (hone t ht a ha hhandle).1
      · intro hdue
        refine ⟨attemptTo ready.snapshot s.refuses t, ?_, rfl⟩
        rw [hattempts]
        exact List.mem_map_of_mem (List.mem_filter.2 ⟨ht, hdue⟩)
    · intro a ha hhandle
      obtain ⟨_, rfl⟩ := hone t ht a ha hhandle
      have hpayload : (attemptTo ready.snapshot s.refuses t).payload =
          Attribute.Report.bytes ready.snapshot t.pending := by rw [attemptTo]
      refine ⟨rfl, ?_⟩
      rw [hpayload, Attribute.Report.decode_bytes, Attribute.Report.entries_eq_map]
  · intro front mid back first second time later hsplit hfirst _ hsame hmid
    obtain ⟨hspaced, hchanged, hversions⟩ := hrun.spaced hsplit hfirst hsame hmid
    refine ⟨?_, hchanged, hversions⟩
    intro hpos
    have hpositive : 0 < interval.toNat := UInt64.lt_iff_toNat_lt.1 hpos
    omega

/-- The second change waits until the interval is over. -/
example :
    ((start 0 [("10.0.0.1", 5540)] 100 5000 ReadingLink.empty (fun _ => false)).history
      [.send ⟨true, 30, 80, 0, true⟩, .round, .advance 50, .send ⟨true, 40, 80, 0, true⟩, .round,
        .advance 50, .round]).reportTimes 0 = [0, 100] := by
  decide +kernel

end Session

end Reporter

end BurnerTelemetry
