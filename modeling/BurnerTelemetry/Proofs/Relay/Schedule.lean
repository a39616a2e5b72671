import BurnerTelemetry.Proofs.Fifo.ByteRing
import BurnerTelemetry.Proofs.Fifo.ReadingLink
import BurnerTelemetry.Proofs.Relay.Reflection
import BurnerTelemetry.Proofs.Wire.CleanStream

/-!
The relay under any schedule. Pieces of a stream are pushed, drained and reported at any times; as
long as nothing is dropped on the way, every message of the stream has been taken by the reporter,
waits in the link, or is still among the bytes, in this order. So the outcome is that of the
messages and of nothing else.
-/
namespace BurnerTelemetry

open Attribute (Changes Destination Field Store)
open Wire (Reassembly Sighting Status Stream)

namespace Intake

variable {i : Intake} {bytes rest : Bytes} {messages : List Status} {l : ReadingLink}
  {held : List Reading}

/-- A drain finds the messages that are complete; if the link takes every one, they wait in it. -/
theorem drain_stream (hring : i.ring.Holds bytes) (hwindow : Status.Unfinished i.reassembly.window)
    (hstream : Stream (i.reassembly.window ++ bytes) messages rest) (hlink : l.Holds held)
    (hwhole : (i.drain l).1 = i.found.length) :
    (i.drain l).2.1.ring.Holds [] ∧ (i.drain l).2.1.reassembly.window = rest ∧
      (i.drain l).2.2.Holds (held ++ messages.map Status.reading) ∧
      (i.drain l).2.2.stats = l.stats := by
  obtain ⟨hflatten, hempty⟩ := hring.readPieces (show 0 < pieceSize by decide)
  rw [← hflatten] at hstream
  have hall := Reassembly.receiveAll_stream hstream hwindow
  have hreadings : (messages.map Status.sighting).map (fun s => s.reading) =
      messages.map Status.reading := List.map_map
  simp only [found, drain, hall, hreadings, List.length_map] at hwhole ⊢
  obtain ⟨hholds, hstats⟩ := hlink.sendAll (hwhole.trans (List.length_map _).symm)
  refine ⟨hempty, rfl, ?_⟩
  split
  · exact ⟨hholds, hstats⟩
  · exact ⟨hholds, hstats⟩

end Intake

namespace Relay

/-- The bytes that the events push. -/
def pushed (events : List Event) : Bytes :=
  events.flatMap (fun event =>
    match event with
    | .push bytes => bytes
    | _ => [])

/-- The events, and a drain and a round behind them. -/
def closing (events : List Event) : List Event := events ++ [.drain, .round]

/-- The event drops nothing: the ring stores each byte, the link takes each reading. -/
def TakesAll (r : Relay) : Event → Prop
  | .push bytes => (r.intake.ring.storeAll bytes).1 = bytes.length
  | .drain => (r.intake.drain r.link).1 = r.intake.found.length
  | .round => True

/-- Nothing is dropped while the events go on. -/
def Lossless (r : Relay) : List Event → Prop
  | [] => True
  | event :: rest => r.TakesAll event ∧ (r.step event).2.Lossless rest

instance (r : Relay) (event : Event) : Decidable (r.TakesAll event) := by
  cases event <;> unfold TakesAll <;> infer_instance

instance decidableLossless (r : Relay) : (events : List Event) → Decidable (r.Lossless events)
  | [] => isTrue trivial
  | event :: rest =>
    have := decidableLossless (r.step event).2 rest
    inferInstanceAs (Decidable (r.TakesAll event ∧ (r.step event).2.Lossless rest))

/-- The relay has taken `applied`, the link holds `queued`, and the window, the ring and the bytes
`future` that are still to be pushed make up `coming`. -/
structure Tracks (r : Relay) (now : UInt64) (destinations : List Destination)
    (attempts : List Attempt) (applied queued coming : List Status) (held future : Bytes) :
    Prop where
  reporter : r.reporter.Reflects now destinations applied attempts
  wellFormed : ∀ m ∈ queued, m.WellFormed
  link : r.link.Holds (queued.map Status.reading)
  processed : r.link.stats.readingsProcessed = UInt32.ofNat applied.length
  ring : r.intake.ring.Holds held
  window : Status.Unfinished r.intake.reassembly.window
  stream : Stream (r.intake.reassembly.window ++ (held ++ future)) coming []

variable {r : Relay} {now : UInt64} {destinations : List Destination} {attempts : List Attempt}
  {applied queued coming : List Status} {held future : Bytes}

/-- Pushed bytes that are stored move from what is to come into the ring. -/
theorem Tracks.push {bytes : Bytes}
    (h : r.Tracks now destinations attempts applied queued coming held (bytes ++ future))
    (hwhole : r.TakesAll (.push bytes)) :
    (r.step (.push bytes)).2.Tracks now destinations attempts applied queued coming
      (held ++ bytes) future := by
  have hstream := h.stream
  rw [← List.append_assoc held] at hstream
  exact ⟨h.reporter, h.wellFormed, h.link, h.processed, h.ring.pushAll_whole hwhole, h.window,
    hstream⟩

theorem step_drain_attempts (r : Relay) : (r.step .drain).1 = [] := rfl

/-- A drain moves the messages that are complete from the bytes into the link. -/
theorem Tracks.drain
    (h : r.Tracks now destinations attempts applied queued coming held future)
    (hwhole : r.TakesAll .drain) :
    ∃ found later, coming = found ++ later ∧
      (r.step .drain).2.Tracks now destinations attempts applied (queued ++ found) later []
        future := by
  have hstream := h.stream
  rw [← List.append_assoc] at hstream
  obtain ⟨found, later, middle, hcoming, hfound, hlater⟩ := hstream.split
  obtain ⟨hring, hwindow, hlink, hstats⟩ :=
    Intake.drain_stream h.ring h.window hfound h.link hwhole
  refine ⟨found, later, hcoming, ?_⟩
  constructor
  · exact h.reporter
  · intro m hm
    rcases List.mem_append.1 hm with hm | hm
    · exact h.wellFormed m hm
    · exact hfound.wellFormed m hm
  · rw [List.map_append]
    exact hlink
  · exact (congrArg LinkStats.readingsProcessed hstats).trans h.processed
  · exact hring
  · exact hwindow ▸ hfound.unfinished
  · exact hwindow ▸ hlater

/-- A round moves the messages that wait in the link to the reporter. -/
theorem Tracks.round
    (h : r.Tracks now destinations attempts applied queued coming held future) :
    (r.step .round).2.Tracks now destinations (attempts ++ (r.step .round).1)
        (applied ++ queued) [] coming held future ∧
      ∀ t ∈ (r.step .round).2.reporter.store.registry.subscribers, t.pending = Changes.none := by
  obtain ⟨link, hreceive, hlink, hstats⟩ := h.link.receiveAll
  obtain ⟨hreporter, hpending⟩ := h.reporter.round h.wellFormed (congrArg Prod.fst hreceive)
  have hcounted : ∃ count, (r.step .round).2.link = r.link.receiveAll.2.recordMessages count :=
    ⟨_, rfl⟩
  obtain ⟨count, hcounted⟩ := hcounted
  rw [hreceive] at hcounted
  refine ⟨?_, hpending⟩
  constructor
  · exact hreporter
  · exact fun m hm => absurd hm List.not_mem_nil
  · rw [hcounted]
    exact hlink
  · rw [hcounted, List.length_append, UInt32.ofNat_add, ← h.processed]
    simp only [ReadingLink.recordMessages, hstats, List.length_map]
  · exact h.ring
  · exact h.window
  · exact h.stream

/-- Whatever happens, messages only move on, and none is passed by another. -/
theorem Tracks.step {event : Event}
    (h : r.Tracks now destinations attempts applied queued coming held
      (pushed [event] ++ future)) (hwhole : r.TakesAll event) :
    ∃ applied' queued' coming' held',
      applied ++ queued ++ coming = applied' ++ queued' ++ coming' ∧
        (r.step event).2.Tracks now destinations (attempts ++ (r.step event).1) applied' queued'
          coming' held' future := by
  cases event with
  | push bytes =>
    have hbytes : pushed [.push bytes] = bytes := List.flatMap_singleton _ _
    rw [hbytes] at h
    refine ⟨applied, queued, coming, held ++ bytes, rfl, ?_⟩
    have hnext := h.push hwhole
    rw [← List.append_nil attempts] at hnext
    exact hnext
  | drain =>
    obtain ⟨found, later, rfl, hnext⟩ := Tracks.drain h hwhole
    refine ⟨applied, queued ++ found, later, [], ?_, ?_⟩
    · simp only [List.append_assoc]
    · rw [← List.append_nil attempts] at hnext
      exact hnext
  | round =>
    refine ⟨applied ++ queued, [], coming, held, ?_, (Tracks.round h).1⟩
    rw [List.append_nil]

theorem Tracks.run {events : List Event}
    (h : r.Tracks now destinations attempts applied queued coming held
      (pushed events ++ future)) (hwhole : r.Lossless events) :
    ∃ applied' queued' coming' held',
      applied ++ queued ++ coming = applied' ++ queued' ++ coming' ∧
        (r.run events).2.Tracks now destinations (attempts ++ (r.run events).1) applied' queued'
          coming' held' future := by
  induction events generalizing r attempts applied queued coming held with
  | nil =>
    refine ⟨applied, queued, coming, held, rfl, ?_⟩
    rw [← List.append_nil attempts] at h
    exact h
  | cons event rest ih =>
    obtain ⟨hevent, hrest⟩ := hwhole
    have hpushed : pushed (event :: rest) = pushed [event] ++ pushed rest := by
      rw [← List.singleton_append, pushed, List.flatMap_append]
      rfl
    rw [hpushed, List.append_assoc] at h
    obtain ⟨applied₁, queued₁, coming₁, held₁, hmessages, hnext⟩ := Tracks.step h hevent
    obtain ⟨applied', queued', coming', held', hlater, hfinal⟩ := ih hnext hrest
    refine ⟨applied', queued', coming', held', hmessages.trans hlater, ?_⟩
    rw [List.append_assoc] at hfinal
    exact hfinal

/-- A relay at rest: the clock stands at `now`, the store was made at `created` and has been given
some targets, and reports are not delayed. -/
def atRest (created now : UInt64) (targets : List (String × UInt16)) (staleTimeout : UInt64) :
    Relay :=
  ⟨Intake.empty, ReadingLink.empty,
    Reporter.ofStore ((Store.withTargets created targets).setClock now) 0 staleTimeout⟩

theorem tracks_atRest (created now : UInt64) (targets : List (String × UInt16))
    {staleTimeout : UInt64} (htimeout : staleTimeout ≠ 0) {messages : List Status}
    (hmessages : ∀ m ∈ messages, m.WellFormed) :
    (atRest created now targets staleTimeout).Tracks now
      (Store.withTargets created targets).registry.destinations [] [] [] messages []
      (messages.flatMap Status.toBytes) := by
  have hempty : Status.Unfinished [] := ⟨.frame false 0 0 0, by decide, by decide, by decide⟩
  constructor
  · exact ⟨rfl, htimeout, Store.reflects_start created now targets, rfl, rfl, rfl⟩
  · exact fun m hm => absurd hm List.not_mem_nil
  · exact ReadingLink.holds_empty
  · rfl
  · exact ByteRing.holds_empty
  · exact hempty
  · exact ⟨hmessages, (List.append_nil _).symm, hempty⟩

theorem lossless_append (first second : List Event) :
    r.Lossless (first ++ second) ↔ r.Lossless first ∧ (r.run first).2.Lossless second := by
  induction first generalizing r with
  | nil => simp [Lossless, run]
  | cons event rest ih => simp only [List.cons_append, Lossless, run, ih, and_assoc]

/-- With all bytes pushed, a drain and a round leave no message anywhere on the way. -/
theorem Tracks.drain_round
    (h : r.Tracks now destinations attempts applied queued coming held [])
    (hwhole : r.Lossless [.drain, .round]) :
    (r.run [.drain, .round]).2.Tracks now destinations
        (attempts ++ (r.run [.drain, .round]).1) (applied ++ queued ++ coming) [] [] [] [] ∧
      ∀ t ∈ (r.run [.drain, .round]).2.reporter.store.registry.subscribers,
        t.pending = Changes.none := by
  obtain ⟨found, later, rfl, hdrained⟩ := Tracks.drain h hwhole.1
  have hnone : later = [] := by
    have hstream := hdrained.stream
    rw [List.append_nil, List.append_nil] at hstream
    exact (Reassembly.stream_of_unfinished hstream hdrained.window).1
  subst hnone
  have hrun : r.run [.drain, .round] = (r.step .drain).2.step .round := by
    simp only [Relay.run, step_drain_attempts, List.nil_append, List.append_nil]
  rw [hrun, List.append_nil, List.append_assoc]
  exact Tracks.round hdrained

/-- When all bytes have been pushed, a drain and a round bring every message to the reporter. -/
theorem tracks_outcome {messages : List Status} (hmessages : ∀ m ∈ messages, m.WellFormed)
    (created now : UInt64) (targets : List (String × UInt16)) {staleTimeout : UInt64}
    (htimeout : staleTimeout ≠ 0) {events : List Event}
    (hpushed : pushed events = messages.flatMap Status.toBytes)
    (hlossless : (atRest created now targets staleTimeout).Lossless (closing events)) :
    let outcome := (atRest created now targets staleTimeout).run (closing events)
    outcome.2.Tracks now (Store.withTargets created targets).registry.destinations outcome.1
        messages [] [] [] [] ∧
      ∀ t ∈ outcome.2.reporter.store.registry.subscribers, t.pending = Changes.none := by
  intro outcome
  have hstart := tracks_atRest created now targets htimeout hmessages
  rw [← hpushed, ← List.append_nil (pushed events)] at hstart
  obtain ⟨hfirst, hend⟩ := (lossless_append events _).1 hlossless
  obtain ⟨applied, queued, coming, held, hall, htracks⟩ := Tracks.run hstart hfirst
  have hfinal := Tracks.drain_round htracks hend
  rw [← hall, List.nil_append, List.nil_append, List.nil_append] at hfinal
  simp only [outcome, closing, run_append]
  exact hfinal

/-- Whenever the bytes of good messages are pushed, in whatever pieces, and whenever the relay
drains and reports, if nothing is dropped and a drain and a round come last, then the outcome is
that of the messages: the counts, the attributes and their version, and what each subscriber was
told last of each attribute. -/
theorem outcome_of_messages {messages : List Status} (hmessages : ∀ m ∈ messages, m.WellFormed)
    (created now : UInt64) (targets : List (String × UInt16)) {staleTimeout : UInt64}
    (htimeout : staleTimeout ≠ 0) {events : List Event}
    (hpushed : pushed events = messages.flatMap Status.toBytes)
    (hlossless : (atRest created now targets staleTimeout).Lossless (closing events)) :
    let outcome := (atRest created now targets staleTimeout).run (closing events)
    let attempts := outcome.1
    let final := outcome.2
    let snapshot := final.reporter.store.snapshot
    let last := Attributes.zero.after messages
    let changed := Attributes.zero.changed messages
    final.link.stats.readingsProcessed = UInt32.ofNat messages.length ∧
      final.reporter.tally.applied = messages.length ∧
      final.reporter.tally.faults = messages.countP (fun m => m.errorCode != 0) ∧
      final.reporter.tally.failed = 0 ∧
      (snapshot.flame = last.flame ∧ snapshot.fan = last.fan ∧
        snapshot.temperature = last.temperature) ∧
      snapshot.version = UInt32.ofNat (Attributes.zero.changeCount messages) ∧
      (∀ t ∈ final.reporter.store.registry.subscribers, t.pending = Changes.none) ∧
      ∀ d ∈ (Store.withTargets created targets).registry.destinations,
        lastTold attempts d Attribute.onOffCluster =
            (if changed.flame then some (.onOff last.flame) else none) ∧
          lastTold attempts d Attribute.levelCluster =
            (if changed.fan then some (.level last.fan) else none) ∧
          lastTold attempts d Attribute.temperatureCluster =
            (if changed.temperature then
              some (.centidegrees (Int32.ofNat (100 * last.temperature.toNat))) else none) := by
  intro outcome attempts final snapshot last changed
  obtain ⟨htracks, hpending⟩ :=
    tracks_outcome hmessages created now targets htimeout hpushed hlossless
  have hreporter := htracks.reporter
  have hlast : snapshot.attributes = last := hreporter.store.attributes
  obtain ⟨hflame, hfan, htemperature⟩ := Attributes.mk.inj hlast
  refine ⟨htracks.processed, hreporter.applied, hreporter.faults, hreporter.failed,
    ⟨hflame, hfan, htemperature⟩, hreporter.store.version, hpending, ?_⟩
  intro d hd
  rw [← hreporter.store.subscribed] at hd
  obtain ⟨t, ht, rfl⟩ := List.mem_map.1 hd
  have htold := hreporter.store.lastTold ht (hpending t ht)
  refine ⟨?_, ?_, ?_⟩
  · rw [← hflame]
    exact htold .flame
  · rw [← hfan]
    exact htold .fan
  · rw [← htemperature]
    exact htold .temperature

/-- A frame with an error code and a line with a temperature below zero, pushed in three pieces
with a round after the frame. -/
theorem outcome_of_frame_and_line :
    let outcome := (atRest 0 5000 [("10.0.0.7", 5540), ("10.0.0.8", 5540)] 3000).run
      (closing [.push [0xAA, 0x55, 0x64], .drain, .round, .push [0x00, 0xAA, 0x55, 70, 58],
        .drain, .round, .push [48, 44, 83, 58, 55, 44, 84, 58, 45, 53, 10]])
    let snapshot := outcome.2.reporter.store.snapshot
    outcome.2.link.stats.readingsProcessed = 2 ∧ outcome.2.reporter.tally.applied = 2 ∧
      outcome.2.reporter.tally.faults = 1 ∧
      (snapshot.flame = false ∧ snapshot.fan = 7 ∧ snapshot.temperature = 0) ∧
      snapshot.version = 2 := by
  have hmessages : ∀ m ∈ [Status.frame true 42 100 170, .line false 7 (-5) false],
      m.WellFormed := by decide
  have hpushed : pushed [.push [0xAA, 0x55, 0x64], .drain, .round,
      .push [0x00, 0xAA, 0x55, 70, 58], .drain, .round,
      .push [48, 44, 83, 58, 55, 44, 84, 58, 45, 53, 10]] =
        [Status.frame true 42 100 170, .line false 7 (-5) false].flatMap Status.toBytes := by
    decide
  have hlossless : (atRest 0 5000 [("10.0.0.7", 5540), ("10.0.0.8", 5540)] 3000).Lossless
      (closing [.push [0xAA, 0x55, 0x64], .drain, .round, .push [0x00, 0xAA, 0x55, 70, 58],
        .drain, .round, .push [48, 44, 83, 58, 55, 44, 84, 58, 45, 53, 10]]) := by
    decide +kernel
  obtain ⟨hprocessed, happlied, hfaults, _, hattributes, hversion, _⟩ := outcome_of_messages
    hmessages 0 5000 [("10.0.0.7", 5540), ("10.0.0.8", 5540)] (by decide) hpushed hlossless
  exact ⟨hprocessed, happlied, hfaults, hattributes, hversion⟩

end Relay

end BurnerTelemetry
