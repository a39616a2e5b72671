import BurnerTelemetry.Proofs.Attribute.ReportRoundTrip
import BurnerTelemetry.Proofs.Attribute.Subscribers
import BurnerTelemetry.Relay

/-!
The reports of a round. Every subscriber that is due gets one attempt, with the report of what is
pending for it; an attempt that is accepted leaves nothing pending, one that is refused leaves
the subscriber as it was, and neither touches the attributes or the other subscribers.
-/
namespace BurnerTelemetry

open Attribute (Changes Destination Field Registry Snapshot Store Subscriber)

namespace Attribute.Store

/-- The store behind accepted reports to these handles. -/
def reportedTo (s : Store) (handles : List UInt32) : Store :=
  { s with
    registry.subscribers :=
      s.registry.subscribers.map (fun t => if t.handle ∈ handles then t.reported s.now else t) }

@[simp] theorem snapshot_reportedTo (s : Store) (handles : List UInt32) :
    (s.reportedTo handles).snapshot = s.snapshot := rfl

theorem reportedTo_nil (s : Store) : s.reportedTo [] = s := by
  have hsame : s.registry.subscribers.map
      (fun t => if t.handle ∈ [] then t.reported s.now else t) = s.registry.subscribers :=
    List.map_id'' (fun t => if_neg List.not_mem_nil) _
  rw [reportedTo, hsame]

theorem destinations_reportedTo (s : Store) (handles : List UInt32) :
    (s.reportedTo handles).registry.destinations = s.registry.destinations :=
  Attribute.map_key_reported Subscriber.reported_destination (fun t => t.handle ∈ handles) _ s.now

theorem distinct_reportedTo {s : Store} (h : s.registry.Distinct) (handles : List UInt32) :
    (s.reportedTo handles).registry.Distinct := by
  constructor
  · rw [Registry.handles, reportedTo, Attribute.map_key_reported Subscriber.reported_handle]
    exact h.handles
  · rw [destinations_reportedTo]
    exact h.destinations

/-- A mark is a report to one handle. -/
theorem markReported_eq {s : Store} (h : s.registry.Distinct) (handle : UInt32) :
    s.markReported handle s.now = s.reportedTo [handle] := by
  have hsubscribers := Registry.subscribers_markReported h handle s.now
  simp only [Registry.markReported] at hsubscribers
  simp only [markReported, Registry.markReported, hsubscribers, reportedTo, List.mem_singleton]

/-- Reports to some handles and then to others are reports to all of them. -/
theorem reportedTo_append (s : Store) (first second : List UInt32) :
    (s.reportedTo first).reportedTo second = s.reportedTo (first ++ second) := by
  have hsubscribers : ((s.reportedTo first).reportedTo second).registry.subscribers =
      (s.reportedTo (first ++ second)).registry.subscribers := by
    simp only [reportedTo, List.map_map]
    apply List.map_congr_left
    intro t _
    by_cases hfirst : t.handle ∈ first
    · by_cases hsecond : t.handle ∈ second
      · simp [hfirst, hsecond, Subscriber.reported]
      · simp [hfirst, hsecond, Subscriber.reported]
    · simp [hfirst]
  simp only [reportedTo] at hsubscribers ⊢
  rw [hsubscribers]

end Attribute.Store

namespace Reporter

/-- What a buffer holds when the report of the named attributes is written. -/
def overwritten (buffer : Buffer) (s : Snapshot) (changes : Changes) : Buffer :=
  (payload buffer s changes).2

/-- A report can always be written. -/
theorem payload_eq (buffer : Buffer) (s : Snapshot) (changes : Changes) :
    payload buffer s changes =
      (.ok (Attribute.Report.bytes s changes), overwritten buffer s changes) :=
  Prod.ext (Attribute.Report.payload_eq_bytes buffer s changes) rfl

/-- The attempt to report to a subscriber what is pending for it. -/
def attemptTo (s : Snapshot) (refuses : Destination → Bool) (t : Subscriber) : Attempt :=
  ⟨t.handle, t.destination, Attribute.Report.bytes s t.pending, !refuses t.destination⟩

/-- The reporter behind an attempt to report to each of these subscribers. -/
def afterAttempts (r : Reporter) (refuses : Destination → Bool) (due : List Subscriber) :
    Reporter :=
  { r with
    store := r.store.reportedTo
      ((due.filter (fun t => !refuses t.destination)).map (fun t => t.handle))
    buffer := due.foldl (fun buffer t => overwritten buffer r.store.snapshot t.pending) r.buffer
    tally.sent := r.tally.sent + due.countP (fun t => !refuses t.destination)
    tally.failed := r.tally.failed + due.countP (fun t => refuses t.destination) }

theorem reportTo_refused {r : Reporter} {refuses : Destination → Bool} {t : Subscriber}
    (h : refuses t.destination = true) :
    r.reportTo refuses t = (some (attemptTo r.store.snapshot refuses t),
      { r with
        buffer := overwritten r.buffer r.store.snapshot t.pending
        tally.failed := r.tally.failed + 1 }) := by
  unfold reportTo
  rw [payload_eq, attemptTo]
  simp only [h, if_true, Bool.not_true]

theorem reportTo_accepted {r : Reporter} {refuses : Destination → Bool} {t : Subscriber}
    (h : refuses t.destination = false) :
    r.reportTo refuses t = (some (attemptTo r.store.snapshot refuses t),
      { r with
        buffer := overwritten r.buffer r.store.snapshot t.pending
        store := r.store.markReported t.handle r.store.now
        tally.sent := r.tally.sent + 1 }) := by
  unfold reportTo
  rw [payload_eq, attemptTo]
  simp only [h, Bool.false_eq_true, if_false, Bool.not_false]

/-- The first of some subscribers is reported to, and then the others. -/
theorem reportToAll_cons (r : Reporter) (refuses : Destination → Bool) (t : Subscriber)
    (rest : List Subscriber) :
    r.reportToAll refuses (t :: rest) =
      (attemptTo r.store.snapshot refuses t ::
          ((r.reportTo refuses t).2.reportToAll refuses rest).1,
        ((r.reportTo refuses t).2.reportToAll refuses rest).2) := by
  rw [reportToAll]
  cases hrefuses : refuses t.destination with
  | true =>
    rw [reportTo_refused hrefuses]
    rfl
  | false =>
    rw [reportTo_accepted hrefuses]
    rfl

/-- A subscriber that is not reported to is as it was. -/
theorem mem_reportTo {r : Reporter} {t u : Subscriber} (h : r.store.registry.Distinct)
    (hu : u ∈ r.store.registry.subscribers) (hother : u.handle ≠ t.handle)
    (refuses : Destination → Bool) :
    u ∈ (r.reportTo refuses t).2.store.registry.subscribers := by
  cases hrefuses : refuses t.destination with
  | true =>
    rw [reportTo_refused hrefuses]
    exact hu
  | false =>
    rw [reportTo_accepted hrefuses]
    change u ∈ (r.store.registry.markReported t.handle r.store.now).subscribers
    rw [Registry.subscribers_markReported h, List.mem_map]
    exact ⟨u, hu, if_neg hother⟩

theorem now_reportTo (r : Reporter) (refuses : Destination → Bool) (t : Subscriber) :
    (r.reportTo refuses t).2.store.now = r.store.now := by
  cases hrefuses : refuses t.destination with
  | true => rw [reportTo_refused hrefuses]
  | false =>
    rw [reportTo_accepted hrefuses]
    rfl

/-- Attempts for some subscribers and then for others are attempts for all of them. -/
theorem afterAttempts_append (r : Reporter) (refuses : Destination → Bool)
    (first second : List Subscriber) :
    (r.afterAttempts refuses first).afterAttempts refuses second =
      r.afterAttempts refuses (first ++ second) := by
  simp only [afterAttempts, Store.snapshot_reportedTo, Store.reportedTo_append,
    List.filter_append, List.map_append, List.foldl_append, List.countP_append, Nat.add_assoc]

theorem reportTo_eq {r : Reporter} (h : r.store.registry.Distinct)
    (refuses : Destination → Bool) (t : Subscriber) :
    r.reportTo refuses t =
      (some (attemptTo r.store.snapshot refuses t), r.afterAttempts refuses [t]) := by
  cases hrefuses : refuses t.destination with
  | true =>
    rw [reportTo_refused hrefuses]
    simp [afterAttempts, hrefuses, Store.reportedTo_nil]
  | false =>
    rw [reportTo_accepted hrefuses, Store.markReported_eq h]
    simp [afterAttempts, hrefuses]

theorem reportToAll_eq {r : Reporter} (h : r.store.registry.Distinct)
    (refuses : Destination → Bool) (due : List Subscriber) :
    r.reportToAll refuses due =
      (due.map (attemptTo r.store.snapshot refuses), r.afterAttempts refuses due) := by
  induction due generalizing r with
  | nil =>
    simp only [reportToAll, afterAttempts, List.filter_nil, List.map_nil, List.foldl_nil,
      List.countP_nil, Nat.add_zero, Store.reportedTo_nil]
  | cons t rest ih =>
    have hrest := ih (r := r.afterAttempts refuses [t]) (Store.distinct_reportedTo h _)
    rw [reportToAll_cons, reportTo_eq h, hrest, afterAttempts_append]
    rfl

theorem reportDue_eq {r : Reporter} (h : r.store.registry.Distinct)
    (refuses : Destination → Bool) :
    r.reportDue refuses =
      ((r.store.registry.due r.store.now r.interval).map (attemptTo r.store.snapshot refuses),
        r.afterAttempts refuses (r.store.registry.due r.store.now r.interval)) :=
  reportToAll_eq h refuses _

theorem mem_accepted_handles {r : Reporter} (h : r.store.registry.Distinct)
    (refuses : Destination → Bool) {t : Subscriber} (ht : t ∈ r.store.registry.subscribers) :
    t.handle ∈ ((r.store.registry.due r.store.now r.interval).filter
        (fun u => !refuses u.destination)).map (fun u => u.handle) ↔
      t.isDue r.store.now r.interval = true ∧ refuses t.destination = false := by
  rw [List.mem_map]
  constructor
  · rintro ⟨u, hu, he⟩
    obtain ⟨hdue, haccepted⟩ := List.mem_filter.1 hu
    obtain ⟨hin, hisDue⟩ := List.mem_filter.1 hdue
    have hsame : u = t := List.inj_on_of_nodup_map h.handles hin ht he
    subst hsame
    exact ⟨hisDue, by simpa using haccepted⟩
  · rintro ⟨hisDue, haccepted⟩
    refine ⟨t, List.mem_filter.2 ⟨List.mem_filter.2 ⟨ht, hisDue⟩, ?_⟩, rfl⟩
    simpa using haccepted

/-- Those that were due and took their report are reported to; the others are as they were. -/
theorem subscribers_reportDue {r : Reporter} (h : r.store.registry.Distinct)
    (refuses : Destination → Bool) :
    (r.reportDue refuses).2.store.registry.subscribers =
      r.store.registry.subscribers.map (fun t =>
        if t.isDue r.store.now r.interval = true ∧ refuses t.destination = false then
          t.reported r.store.now
        else t) := by
  rw [reportDue_eq h]
  simp only [afterAttempts, Store.reportedTo]
  apply List.map_congr_left
  intro t ht
  simp only [mem_accepted_handles h refuses ht]

theorem snapshot_reportDue {r : Reporter} (h : r.store.registry.Distinct)
    (refuses : Destination → Bool) :
    (r.reportDue refuses).2.store.snapshot = r.store.snapshot := by
  rw [reportDue_eq h]
  rfl

theorem distinct_reportDue {r : Reporter} (h : r.store.registry.Distinct)
    (refuses : Destination → Bool) : (r.reportDue refuses).2.store.registry.Distinct := by
  rw [reportDue_eq h]
  exact Store.distinct_reportedTo h _

end Reporter

namespace Relay

/-- The value that a destination was told last of the attribute in a cluster. -/
def lastTold (attempts : List Attempt) (d : Destination) (cluster : UInt32) :
    Option Attribute.Value :=
  ((delivered attempts).filter (fun told => told.1 == d && told.2.cluster == cluster)).getLast?.map
    (fun told => told.2.value)

theorem delivered_append (first second : List Attempt) :
    delivered (first ++ second) = delivered first ++ delivered second := by
  rw [delivered, List.filter_append, List.flatMap_append]
  rfl

/-- What was told later hides what was told before. -/
theorem lastTold_append (first second : List Attempt) (d : Destination) (cluster : UInt32) :
    lastTold (first ++ second) d cluster =
      (lastTold second d cluster).or (lastTold first d cluster) := by
  rw [lastTold, delivered_append, List.filter_append, List.getLast?_append, Option.map_or]
  rfl

theorem delivered_refused {s : Snapshot} {refuses : Destination → Bool} {t : Subscriber}
    (h : refuses t.destination = true) : delivered [Reporter.attemptTo s refuses t] = [] := by
  simp only [delivered, Reporter.attemptTo, h, Bool.not_true, List.filter_cons,
    Bool.false_eq_true, if_false, List.filter_nil, List.flatMap_nil]

theorem delivered_accepted {s : Snapshot} {refuses : Destination → Bool} {t : Subscriber}
    (h : refuses t.destination = false) :
    delivered [Reporter.attemptTo s refuses t] =
      (Attribute.Report.entries s t.pending).map (fun e => (t.destination, e)) := by
  simp only [delivered, Reporter.attemptTo, h, Bool.not_false, List.filter_cons, if_true,
    List.filter_nil, List.flatMap_singleton, Attribute.Report.decode_bytes]

/-- An accepted report tells the pending attributes and no others. -/
theorem lastTold_accepted {s : Snapshot} {refuses : Destination → Bool} {t : Subscriber}
    (h : refuses t.destination = false) (f : Field) :
    lastTold [Reporter.attemptTo s refuses t] t.destination f.cluster =
      if f.isIn t.pending then some (f.value s) else none := by
  have hentries : (Attribute.Report.entries s t.pending).filter
      (fun e => e.cluster == f.cluster) = if f.isIn t.pending then [f.entry s] else [] := by
    rw [Attribute.Report.entries_eq_map, List.filter_map]
    change ((Field.all.filter (fun g => g.isIn t.pending)).filter
      (fun g => g.cluster == f.cluster)).map (fun g => g.entry s) = _
    rw [Field.filter_cluster]
    cases f.isIn t.pending <;> rfl
  have htold : ((Attribute.Report.entries s t.pending).map (fun e => (t.destination, e))).filter
      (fun told => told.1 == t.destination && told.2.cluster == f.cluster) =
        ((Attribute.Report.entries s t.pending).filter (fun e => e.cluster == f.cluster)).map
          (fun e => (t.destination, e)) := by
    rw [List.filter_map]
    simp only [Function.comp_def, beq_self_eq_true, Bool.true_and]
  rw [lastTold, delivered_accepted h, htold, hentries]
  cases f.isIn t.pending <;> rfl

theorem lastTold_refused {s : Snapshot} {refuses : Destination → Bool} {t : Subscriber}
    (h : refuses t.destination = true) (d : Destination) (cluster : UInt32) :
    lastTold [Reporter.attemptTo s refuses t] d cluster = none := by
  rw [lastTold, delivered_refused h]
  rfl

/-- A report tells nothing to other destinations. -/
theorem lastTold_other {s : Snapshot} {refuses : Destination → Bool} {t : Subscriber}
    {d : Destination} (h : t.destination ≠ d) (cluster : UInt32) :
    lastTold [Reporter.attemptTo s refuses t] d cluster = none := by
  cases hr : refuses t.destination with
  | true => exact lastTold_refused hr d cluster
  | false =>
    have hnone : ((Attribute.Report.entries s t.pending).map
        (fun e => (t.destination, e))).filter
          (fun told => told.1 == d && told.2.cluster == cluster) = [] := by
      rw [List.filter_eq_nil_iff]
      intro told htold hboth
      obtain ⟨e, _, rfl⟩ := List.mem_map.1 htold
      exact h (beq_iff_eq.1 (Bool.and_eq_true_iff.1 hboth).1)
    rw [lastTold, delivered_accepted hr, hnone]
    rfl

theorem lastTold_not_mem {s : Snapshot} {refuses : Destination → Bool} {l : List Subscriber}
    {d : Destination} (h : ∀ t ∈ l, t.destination ≠ d) (cluster : UInt32) :
    lastTold (l.map (Reporter.attemptTo s refuses)) d cluster = none := by
  induction l with
  | nil => rfl
  | cons t rest ih =>
    have hrest := ih (fun u hu => h u (List.mem_cons_of_mem t hu))
    rw [List.map_cons, ← List.singleton_append, lastTold_append, hrest,
      lastTold_other (h t List.mem_cons_self), Option.or_none]

/-- Of attempts to report to different destinations each is told by its own. -/
theorem lastTold_map_attemptTo {s : Snapshot} {refuses : Destination → Bool}
    {l : List Subscriber} (hdistinct : (l.map (fun t => t.destination)).Nodup) {t : Subscriber}
    (ht : t ∈ l) (cluster : UInt32) :
    lastTold (l.map (Reporter.attemptTo s refuses)) t.destination cluster =
      lastTold [Reporter.attemptTo s refuses t] t.destination cluster := by
  induction l with
  | nil => exact absurd ht List.not_mem_nil
  | cons u rest ih =>
    obtain ⟨hnotIn, hrest⟩ := List.nodup_cons.1 hdistinct
    rw [List.map_cons, ← List.singleton_append, lastTold_append]
    rcases List.mem_cons.1 ht with rfl | hmem
    · have hothers : ∀ v ∈ rest, v.destination ≠ t.destination := by
        intro v hv he
        exact hnotIn (List.mem_map.2 ⟨v, hv, he⟩)
      rw [lastTold_not_mem hothers, Option.none_or]
    · have hother : u.destination ≠ t.destination := by
        intro he
        exact hnotIn (List.mem_map.2 ⟨t, hmem, he.symm⟩)
      rw [ih hrest hmem, lastTold_other hother, Option.or_none]

end Relay

end BurnerTelemetry
