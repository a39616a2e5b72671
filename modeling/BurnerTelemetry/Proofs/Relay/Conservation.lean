import BurnerTelemetry.Intake
import BurnerTelemetry.Proofs.Fifo.ByteRingCalls
import BurnerTelemetry.Proofs.Fifo.ReadingLinkDelivery
import BurnerTelemetry.Proofs.Wire.Accounting

/-!
The decoding side under any calls. Bytes are pushed, drained through the window and sent on as
readings, which the other side receives until it is gone. The three counters on the way, of the
ring, of the window and of the link, tell of the same bytes and the same readings.
-/
namespace BurnerTelemetry.Intake

open Fifo (Ledger)
open Wire (Reassembly Sighting)

inductive Call where
  | push (b : UInt8)
  | pushAll (block : Bytes)
  | drain
  | receive
  | takeSignal
  | dropReceiver
  deriving DecidableEq, Repr

/-- The readings that a drain sends. -/
def readings (i : Intake) : List Reading := i.found.map (fun m => m.reading)

/-- The calls that a drain makes of the link. -/
def linkCalls (i : Intake) (l : ReadingLink) : List ReadingLink.Call :=
  i.readings.map ReadingLink.Call.send ++
    if (i.drain l).1 = 0 then [] else [.signal]

/-- The intake and its link, and what came of the calls so far. -/
structure Session where
  intake : Intake
  link : ReadingLink.Session
  /-- The bytes that the ring accepted, refused and handed out. -/
  bytes : Ledger UInt8
  /-- The bytes that the window was handed, piece by piece. -/
  pieces : List Bytes
  /-- The messages that the window yielded. -/
  found : List Sighting

namespace Session

def start : Session := ⟨empty, .start, .empty, [], []⟩

def step (s : Session) : Call → Session
  | .push b =>
    { s with
      intake.ring := s.intake.ring.push b
      bytes := ByteRing.enter s.bytes (.push b) }
  | .pushAll block =>
    { s with
      intake := s.intake.push block
      bytes := ByteRing.enter s.bytes (.pushAll block) }
  | .drain =>
    let (_, intake, link) := s.intake.drain s.link.link
    { intake
      link := ⟨link, (s.link.run (s.intake.linkCalls s.link.link)).log⟩
      bytes := s.bytes.take s.bytes.held.length
      pieces := s.pieces ++ (s.intake.ring.readPieces pieceSize).1
      found := s.found ++ s.intake.found }
  | .receive => { s with link := s.link.step .receive }
  | .takeSignal => { s with link := s.link.step .takeSignal }
  | .dropReceiver => { s with link := s.link.step .dropReceiver }

def run (s : Session) (calls : List Call) : Session := calls.foldl step s

end Session

/-- The entries that a drain adds to the log of the link. -/
def linkLog (i : Intake) (l : ReadingLink) : ReadingLink.Log :=
  ReadingLink.Session.sendLog l i.readings ++
    if (i.drain l).1 = 0 then [] else [(.signal, .done)]

theorem link_drain (i : Intake) (l : ReadingLink) :
    (i.drain l).2.2 =
      if (i.drain l).1 = 0 then (l.sendAll i.readings).2
      else (l.sendAll i.readings).2.signal := rfl

theorem dropSender_not_mem_linkCalls (i : Intake) (l : ReadingLink) :
    .dropSender ∉ i.linkCalls l := by
  rw [linkCalls]
  split
  · simp
  · simp

/-- A drain does to the link what its calls do one after another. -/
theorem run_linkCalls (i : Intake) (s : ReadingLink.Session)
    (hwriter : s.link.queue.hasWriter = true) :
    s.run (i.linkCalls s.link) = ⟨(i.drain s.link).2.2, s.log ++ i.linkLog s.link⟩ := by
  have hsends := s.run_sends hwriter i.readings
  have hkept : (s.link.sendAll i.readings).2.queue.hasWriter = true := by
    have hrun : (s.run (i.readings.map .send)).link.queue.hasWriter =
        s.link.queue.hasWriter := s.hasWriter_run (by simp)
    rw [hsends] at hrun
    exact hrun.trans hwriter
  rw [linkCalls, linkLog, ReadingLink.Session.run_append, hsends, link_drain]
  split
  · rw [List.append_nil]
    rfl
  · rw [← List.append_assoc]
    exact if_pos hkept

/-- The entries of a drain tell of the messages that it finds, of its answer and of the signal. -/
theorem linkLog_tells (i : Intake) (l : ReadingLink) :
    (i.linkLog l).offered = i.readings ∧
      (i.linkLog l).accepted.length = (i.drain l).1 ∧
      (.signal ∈ (i.linkLog l).map Prod.fst ↔ 0 < (i.drain l).1) := by
  have hoffered := ReadingLink.Session.offered_sendLog l i.readings
  have hanswer := ReadingLink.Session.length_accepted_sendLog l i.readings
  have hcalls := ReadingLink.Session.calls_sendLog l i.readings
  have hsent : (l.sendAll i.readings).1 = (i.drain l).1 := rfl
  rw [hsent] at hanswer
  have hsignal : .signal ∉ i.readings.map ReadingLink.Call.send := by simp
  rw [linkLog, ReadingLink.Log.offered_append, ReadingLink.Log.accepted_append, hoffered,
    List.length_append, hanswer, List.map_append, List.mem_append, hcalls]
  split
  · rename_i hnone
    refine ⟨List.append_nil _, rfl, fun hmem => absurd (hmem.resolve_right nofun) hsignal, ?_⟩
    exact fun hpos => absurd hnone (Nat.ne_of_gt hpos)
  · rename_i hsome
    refine ⟨List.append_nil _, rfl, fun _ => Nat.pos_of_ne_zero hsome, ?_⟩
    exact fun _ => .inr List.mem_cons_self

namespace Session

/-- The ring keeps its ledger, and what it handed out went through the window to the link. -/
structure Conserved (s : Session) : Prop where
  ring : s.intake.ring.Keeps s.bytes
  fed : s.pieces.flatten = s.bytes.taken
  short : ∀ piece ∈ s.pieces, 0 < piece.length ∧ piece.length ≤ pieceSize
  decoded : Reassembly.empty.receiveAll s.pieces = (s.found, s.intake.reassembly)
  sent : s.link.log.offered = s.found.map (fun m => m.reading)
  told : s.link.Told
  writer : s.link.link.queue.hasWriter = true

theorem conserved_start : start.Conserved :=
  ⟨ByteRing.keeps_empty, rfl, nofun, rfl, rfl, ReadingLink.Session.told_start, rfl⟩

variable {s : Session}

/-- A call of the other side sends nothing. -/
theorem Conserved.receiver (h : s.Conserved) {call : ReadingLink.Call}
    (hsend : ∀ r, call ≠ .send r) (hdrop : call ≠ .dropSender) :
    Conserved { s with link := s.link.step call } :=
  ⟨h.ring, h.fed, h.short, h.decoded, (s.link.offered_step hsend).trans h.sent, h.told.step call,
    (s.link.hasWriter_step hdrop).trans h.writer⟩

theorem Conserved.link_drain (h : s.Conserved) :
    (s.step .drain).link = s.link.run (s.intake.linkCalls s.link.link) := by
  have hrun := run_linkCalls s.intake s.link h.writer
  have hstep : (s.step .drain).link = ⟨(s.intake.drain s.link.link).2.2,
      (s.link.run (s.intake.linkCalls s.link.link)).log⟩ := rfl
  rw [hstep, hrun]

theorem Conserved.log_drain (h : s.Conserved) :
    (s.step .drain).link.log = s.link.log ++ s.intake.linkLog s.link.link := by
  rw [h.link_drain, run_linkCalls s.intake s.link h.writer]

/-- All that waits in the ring goes through the window, and each reading is sent. -/
theorem Conserved.drain (h : s.Conserved) : (s.step .drain).Conserved := by
  obtain ⟨hflatten, hring⟩ := h.ring.readPieces (show 0 < pieceSize by decide)
  refine ⟨hring, ?_, ?_, ?_, ?_, ?_, ?_⟩
  · change (s.pieces ++ (s.intake.ring.readPieces pieceSize).1).flatten =
      s.bytes.taken ++ s.bytes.held.take s.bytes.held.length
    rw [List.flatten_append, h.fed, hflatten, List.take_length]
  · intro piece hpiece
    rcases List.mem_append.1 hpiece with hpiece | hpiece
    · exact h.short piece hpiece
    · exact s.intake.ring.length_of_mem_readPieces pieceSize piece hpiece
  · change Reassembly.empty.receiveAll (s.pieces ++ (s.intake.ring.readPieces pieceSize).1) = _
    rw [Reassembly.receiveAll_append, h.decoded]
    rfl
  · rw [h.log_drain, ReadingLink.Log.offered_append, h.sent, (linkLog_tells _ _).1, readings,
      ← List.map_append]
    rfl
  · rw [h.link_drain]
    exact h.told.run _
  · rw [h.link_drain, s.link.hasWriter_run (dropSender_not_mem_linkCalls _ _), h.writer]

theorem Conserved.step (h : s.Conserved) (call : Call) : (s.step call).Conserved := by
  cases call with
  | push b =>
    have hfed : s.pieces.flatten = (s.bytes.offer ByteRing.capacity b).taken :=
      h.fed.trans (Ledger.taken_offer s.bytes b).symm
    exact ⟨h.ring.push b, hfed, h.short, h.decoded, h.sent, h.told, h.writer⟩
  | pushAll block =>
    have hfed := h.fed.trans (ByteRing.taken_offerAll s.bytes block).symm
    exact ⟨h.ring.pushAll block, hfed, h.short, h.decoded, h.sent, h.told, h.writer⟩
  | drain => exact h.drain
  | receive => exact h.receiver nofun nofun
  | takeSignal => exact h.receiver nofun nofun
  | dropReceiver => exact h.receiver nofun nofun

theorem Conserved.run (h : s.Conserved) (calls : List Call) : (s.run calls).Conserved := by
  induction calls generalizing s with
  | nil => exact h
  | cons call rest ih => exact ih (h.step call)

theorem Conserved.handed_on (h : s.Conserved) :
    s.pieces.flatten ++ s.intake.ring.toList = s.bytes.accepted := by
  rw [h.fed, h.ring.holds.toList_eq, h.ring.balanced.accepted]

theorem Conserved.traced (h : s.Conserved) :
    Reassembly.Traced s.pieces.flatten s.found s.intake.reassembly := by
  have htraced := Reassembly.traced_receiveAll s.pieces
  rw [h.decoded] at htraced
  exact htraced

/-- Every byte that the ring accepted is in it, in the window, lost, or gone with a message. -/
theorem Conserved.bytes_balanced (h : s.Conserved) :
    s.intake.ring.received = UInt32.ofNat (s.intake.ring.toList.length +
      s.intake.reassembly.window.length + s.intake.reassembly.lost +
      (s.found.map (fun m => m.stop)).sum) := by
  have hbalanced := h.traced.balanced
  have haccepted := congrArg List.length h.handed_on
  rw [List.length_append] at haccepted
  rw [h.ring.received]
  congr 1
  omega

/-- Every reading of the window was taken by the other side, waits, or was refused. -/
theorem Conserved.readings_balanced (h : s.Conserved)
    (hreader : s.link.link.queue.hasReader = true) :
    UInt32.ofNat s.intake.reassembly.decoded = s.link.link.stats.readingsProcessed +
      UInt32.ofNat s.link.link.toList.length + s.link.link.stats.readingsDropped := by
  obtain ⟨held, haccounted⟩ := h.told.accounted
  rw [← h.told.balanced (haccounted.reader.1 hreader), h.sent, List.length_map, h.traced.counted]

theorem Conserved.ring_drain (h : s.Conserved) : (s.step .drain).intake.ring.toList = [] := by
  obtain ⟨_, hempty⟩ := h.ring.holds.readPieces (show 0 < pieceSize by decide)
  exact hempty.toList_eq

theorem signalled_drain (s : Session) :
    (s.step .drain).link.link.signalled =
      (s.link.link.signalled || decide (0 < (s.intake.drain s.link.link).1)) := by
  change (s.intake.drain s.link.link).2.2.signalled = _
  rw [link_drain]
  split
  · rename_i hnone
    rw [ReadingLink.signalled_sendAll, hnone]
    exact (Bool.or_false _).symm
  · rename_i hsome
    rw [decide_eq_true (Nat.pos_of_ne_zero hsome), Bool.or_true]
    rfl

end Session

/-- After any calls, what the ring handed on and what it holds are together what it accepted, and
what it handed on went through the window in pieces of at most 64. Each reading of the window was
sent once, in order; it was taken in if the other side was there and fewer than eight were waiting,
and the others were refused. As long as the other side is there the counters of the window and of
the link agree, and the counter of the ring with the bytes that are in the ring, in the window, lost
or gone with a message. A drain empties the ring, answers how many readings were taken in and raises
the signal if there were any. -/
theorem drain_conserves (calls : List Call) :
    let s := Session.start.run calls
    let log := s.link.log
    let link := s.link.link
    let ring := s.intake.ring
    let window := s.intake.reassembly
    let sent := (s.intake.drain link).1
    let after := s.step .drain
    (ring.toList = s.bytes.held ∧ s.pieces.flatten ++ ring.toList = s.bytes.accepted ∧
        (∀ piece ∈ s.pieces, 0 < piece.length ∧ piece.length ≤ 64) ∧
        Reassembly.empty.receiveAll s.pieces = (s.found, window)) ∧
      (log.offered = s.found.map (fun m => m.reading) ∧
        (∀ (front : ReadingLink.Log) r a back, log = front ++ (.send r, a) :: back →
          a = .sent (if front.ReceiverDropped then .error .disconnected
            else if front.waiting.length < 8 then .ok () else .error .full)) ∧
        log.received ++ link.toList = log.accepted) ∧
      (link.queue.hasReader = true →
        UInt32.ofNat window.decoded = link.stats.readingsProcessed +
          UInt32.ofNat link.toList.length + link.stats.readingsDropped) ∧
      ring.received = UInt32.ofNat (ring.toList.length + window.window.length + window.lost +
        (s.found.map (fun m => m.stop)).sum) ∧
      (s.intake.drain link = (sent, after.intake, after.link.link) ∧
        after.link = s.link.run (s.intake.linkCalls link)) ∧
      (after.intake.ring.toList = [] ∧ after.bytes.accepted = s.bytes.accepted ∧
        after.pieces.flatten = s.bytes.accepted) ∧
      ∃ entries : ReadingLink.Log, after.link.log = log ++ entries ∧
        after.found.map (fun m => m.reading) =
          s.found.map (fun m => m.reading) ++ entries.offered ∧
        entries.accepted.length = sent ∧
        (.signal ∈ entries.map Prod.fst ↔ 0 < sent) ∧
        after.link.link.signalled = (link.signalled || decide (0 < sent)) := by
  intro s log link ring window sent after
  have h : s.Conserved := Session.conserved_start.run calls
  have hafter : after.Conserved := h.drain
  obtain ⟨hoffered, hanswer, hsignal⟩ := linkLog_tells s.intake link
  have hempty : after.intake.ring.toList = [] := h.ring_drain
  have hfed := hafter.handed_on
  rw [hempty, List.append_nil] at hfed
  refine ⟨⟨h.ring.holds.toList_eq, h.handed_on, h.short, h.decoded⟩,
    ⟨h.sent, h.told.answered.told, h.told.order⟩, h.readings_balanced, h.bytes_balanced,
    ⟨rfl, h.link_drain⟩, ⟨hempty, rfl, hfed⟩, s.intake.linkLog link, h.log_drain, ?_, hanswer,
    hsignal, s.signalled_drain⟩
  rw [hoffered, readings, ← List.map_append]
  rfl

/-- Of ten frames that are drained at once the link takes eight and refuses two. -/
example :
    let s := Session.start.run
      [.pushAll (List.replicate 10 (Wire.Frame.ofStatus true 0 50 60).toBytes).flatten, .drain]
    s.intake.reassembly.decoded = 10 ∧ s.link.log.accepted.length = 8 ∧
      s.link.link.stats.readingsDropped = 2 ∧ s.link.link.signalled = true := by
  decide +kernel

end BurnerTelemetry.Intake
