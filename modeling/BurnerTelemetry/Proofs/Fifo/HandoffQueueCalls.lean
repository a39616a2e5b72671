import BurnerTelemetry.Proofs.Fifo.HandoffQueue
import Mathlib.Data.List.Basic
import Mathlib.Data.List.Induction

/-!
Calls of the two sides of a handoff queue in any order, for a queue of any capacity. The counts
wrap at the word size. A capacity that is a power of two agrees with the wrap, and every other one
does as long as the count of accepted values has not come to it; then the queue is a bounded queue
without slots.
-/
namespace BurnerTelemetry.HandoffQueue

variable {α : Type} {capacity : Nat}

inductive Side where
  | writer
  | reader
  deriving DecidableEq, Repr

def Side.other : Side → Side
  | writer => reader
  | reader => writer

/-- The side still has its half of the queue. -/
def hasSide (q : HandoffQueue α capacity) : Side → Bool
  | .writer => q.hasWriter
  | .reader => q.hasReader

/-- What a side is told about the other one. -/
def isConnected (q : HandoffQueue α capacity) (side : Side) : Bool := q.hasSide side.other

inductive Call (α : Type) where
  | push (a : α)
  | pop
  | drop (side : Side)
  deriving DecidableEq, Repr

/-- The side that makes a call. -/
def Call.side : Call α → Side
  | push _ => .writer
  | pop => .reader
  | drop side => side

inductive Answer (α : Type) where
  | accepted
  | refused (a : α)
  | popped (a : Option α)
  | dropped
  deriving DecidableEq, Repr

def answer (q : HandoffQueue α capacity) : Call α → Answer α × HandoffQueue α capacity
  | .push a =>
    match q.push a with
    | .ok next => (.accepted, next)
    | .error back => (.refused back, q)
  | .pop => (.popped q.pop.1, q.pop.2)
  | .drop .writer => (.dropped, q.dropWriter)
  | .drop .reader => (.dropped, q.dropReader)

/-- The calls that were made, oldest first, with their answers. -/
abbrev Log (α : Type) := List (Call α × Answer α)

structure Session (α : Type) (capacity : Nat) where
  queue : HandoffQueue α capacity
  log : Log α

namespace Session

def start : Session α capacity := ⟨empty, []⟩

/-- Makes a call if the side that would make it is still there. -/
def step (s : Session α capacity) (call : Call α) : Session α capacity :=
  if s.queue.hasSide call.side then
    ⟨(s.queue.answer call).2, s.log ++ [(call, (s.queue.answer call).1)]⟩
  else s

def run (s : Session α capacity) (calls : List (Call α)) : Session α capacity :=
  calls.foldl step s

end Session

namespace Log

/-- The values that were accepted, in the order of their calls. -/
def accepted (log : Log α) : List α :=
  log.filterMap fun entry =>
    match entry with
    | (.push a, .accepted) => some a
    | _ => none

/-- The values that were popped. -/
def popped (log : Log α) : List α :=
  log.filterMap fun entry =>
    match entry with
    | (_, .popped a) => a
    | _ => none

/-- The side is gone. -/
def Dropped (log : Log α) (side : Side) : Prop := .drop side ∈ log.map Prod.fst

theorem accepted_append (front back : Log α) :
    accepted (front ++ back) = front.accepted ++ accepted back := List.filterMap_append

theorem popped_append (front back : Log α) :
    popped (front ++ back) = front.popped ++ popped back := List.filterMap_append

theorem dropped_concat (log : Log α) (call : Call α) (a : Answer α) (side : Side) :
    Dropped (log ++ [(call, a)]) side ↔ log.Dropped side ∨ call = .drop side := by
  rw [Dropped, List.map_append, List.mem_append, eq_comm (a := call)]
  simp [Dropped]

end Log

/-- Counts up to this one find their slots: the capacity is a power of two that a word can hold,
or the counts do not come to the end of a word. -/
def CountsFit (capacity count : Nat) : Prop := (∃ k < 64, capacity = 2 ^ k) ∨ count < 2 ^ 64

theorem CountsFit.mono {count larger : Nat} (h : CountsFit capacity larger)
    (hle : count ≤ larger) : CountsFit capacity count := by
  rcases h with hpower | hfew
  · exact .inl hpower
  · exact .inr (by omega)

/-- The slot behind the one of a count is the slot of the next count. -/
theorem CountsFit.add_one_mod {count : Nat} (h : CountsFit capacity (count + 1)) :
    (UInt64.ofNat count + 1).toNat % capacity = ((UInt64.ofNat count).toNat + 1) % capacity := by
  rcases h with ⟨k, hk, rfl⟩ | hfew
  · exact add_one_mod_of_dvd (Nat.pow_dvd_pow 2 (Nat.le_of_lt hk)) _
  · have hcount : (UInt64.ofNat count).toNat = count :=
      UInt64.toNat_ofNat_of_lt' (Nat.lt_of_succ_lt hfew)
    rw [UInt64.toNat_add, hcount, UInt64.toNat_one, Nat.mod_eq_of_lt hfew]

/-- One more value that finds room is still counted in a word. -/
theorem CountsFit.length_lt {count length : Nat} (h : CountsFit capacity (count + 1))
    (hroom : length < capacity) (hle : length ≤ count) : length + 1 < 2 ^ 64 := by
  rcases h with ⟨k, hk, rfl⟩ | hfew
  · have hpower : 2 ^ k ≤ 2 ^ 63 := Nat.pow_le_pow_right (by decide) (Nat.le_of_lt_succ hk)
    omega
  · omega

/-- The log tells what waits, what the two sides have counted and who is still there. -/
structure Accounted (q : HandoffQueue α capacity) (held : List α) (log : Log α) : Prop where
  holds : q.Holds held
  order : log.popped ++ held = log.accepted
  written : q.written = UInt64.ofNat log.accepted.length
  taken : q.taken = UInt64.ofNat log.popped.length
  sides : ∀ side, q.hasSide side = true ↔ ¬ log.Dropped side

theorem accounted_empty : (empty : HandoffQueue α capacity).Accounted [] [] := by
  refine ⟨holds_empty, rfl, rfl, rfl, ?_⟩
  intro side
  cases side <;> simp [hasSide, empty, Log.Dropped]

variable {q : HandoffQueue α capacity} {held : List α} {log : Log α}

theorem Accounted.length_le (h : q.Accounted held log) : held.length ≤ log.accepted.length := by
  rw [← h.order, List.length_append]
  exact Nat.le_add_left _ _

/-- One more entry, which tells what became of the values, the counts and the sides. -/
theorem Accounted.entry (h : q.Accounted held log) {call : Call α} {a : Answer α}
    {next : HandoffQueue α capacity} {left : List α} (hholds : next.Holds left)
    (horder : Log.popped [(call, a)] ++ left = held ++ Log.accepted [(call, a)])
    (hwritten : next.written =
      UInt64.ofNat (log.accepted.length + (Log.accepted [(call, a)]).length))
    (htaken : next.taken = UInt64.ofNat (log.popped.length + (Log.popped [(call, a)]).length))
    (hsides : ∀ side, next.hasSide side = true ↔ q.hasSide side = true ∧ call ≠ .drop side) :
    next.Accounted left (log ++ [(call, a)]) := by
  refine ⟨hholds, ?_, ?_, ?_, ?_⟩
  · rw [Log.popped_append, Log.accepted_append, List.append_assoc, horder, ← List.append_assoc,
      h.order]
  · rw [hwritten, Log.accepted_append, List.length_append]
  · rw [htaken, Log.popped_append, List.length_append]
  · intro side
    rw [hsides, h.sides, Log.dropped_concat, not_or]

/-- A call that drops nobody leaves the sides as they were. -/
theorem hasSide_kept {next : HandoffQueue α capacity} {call : Call α}
    (hwriter : next.hasWriter = q.hasWriter) (hreader : next.hasReader = q.hasReader)
    (hcall : ∀ side, call ≠ .drop side) (side : Side) :
    next.hasSide side = true ↔ q.hasSide side = true ∧ call ≠ .drop side := by
  rw [and_iff_left (hcall side)]
  cases side with
  | writer => rw [hasSide, hasSide, hwriter]
  | reader => rw [hasSide, hasSide, hreader]

theorem answer_push_of_ok {a : α} {next : HandoffQueue α capacity} (h : q.push a = .ok next) :
    q.answer (.push a) = (.accepted, next) := by
  rw [answer, h]

theorem answer_push_of_error {a back : α} (h : q.push a = .error back) :
    q.answer (.push a) = (.refused back, q) := by
  rw [answer, h]

/-- A value that finds room is accepted and waits behind the others. -/
theorem Accounted.push_of_lt (h : q.Accounted held log) (hroom : held.length < capacity)
    (hfit : CountsFit capacity (log.accepted.length + 1)) (a : α) :
    (q.answer (.push a)).2.Accounted (held ++ [a])
      (log ++ [(.push a, (q.answer (.push a)).1)]) := by
  have hwrap := hfit.add_one_mod
  rw [← h.written] at hwrap
  obtain ⟨next, hpush, hholds, _⟩ := h.holds.push hroom (hfit.length_lt hroom h.length_le) hwrap a
  rw [answer_push_of_ok hpush]
  obtain rfl := Except.ok.inj (hpush.symm.trans (push_ok_of_lt h.holds hroom a))
  refine h.entry hholds rfl ?_ h.taken (hasSide_kept rfl rfl nofun)
  change q.written + 1 = _
  rw [h.written, UInt64.ofNat_add]
  rfl

theorem Accounted.push_of_not_lt (h : q.Accounted held log) (hroom : ¬ held.length < capacity)
    (a : α) :
    (q.answer (.push a)).2.Accounted held (log ++ [(.push a, (q.answer (.push a)).1)]) := by
  have hle := h.holds.length_le
  rw [answer_push_of_error (push_full h.holds (by omega) a)]
  exact h.entry h.holds (List.append_nil held).symm h.written h.taken
    (hasSide_kept rfl rfl nofun)

theorem Accounted.pop (h : q.Accounted held log) (hfit : CountsFit capacity log.accepted.length) :
    q.pop.2.Accounted held.tail (log ++ [(.pop, .popped q.pop.1)]) := by
  cases held with
  | nil =>
    rw [pop_nil h.holds]
    exact h.entry h.holds rfl h.written h.taken
      (hasSide_kept rfl rfl nofun)
  | cons a rest =>
    have hcount : log.popped.length + 1 ≤ log.accepted.length := by
      rw [← h.order, List.length_append, List.length_cons]
      omega
    have hwrap := (hfit.mono hcount).add_one_mod
    rw [← h.taken] at hwrap
    obtain ⟨next, hpop, hholds, _⟩ := h.holds.pop hwrap
    rw [hpop]
    obtain rfl := congrArg Prod.snd (hpop.symm.trans (pop_cons h.holds))
    refine h.entry hholds (List.append_nil _).symm h.written ?_ (hasSide_kept rfl rfl nofun)
    change q.taken + 1 = _
    rw [h.taken, UInt64.ofNat_add]
    rfl

/-- A side that goes takes nothing with it. -/
theorem Accounted.drop (h : q.Accounted held log) (side : Side) :
    (q.answer (.drop side)).2.Accounted held
      (log ++ [(.drop side, (q.answer (.drop side)).1)]) := by
  cases side with
  | writer =>
    refine h.entry h.holds.dropWriter (List.append_nil held).symm h.written h.taken ?_
    intro side
    cases side <;> simp [hasSide, answer, HandoffQueue.dropWriter]
  | reader =>
    refine h.entry h.holds.dropReader (List.append_nil held).symm h.written h.taken ?_
    intro side
    cases side <;> simp [hasSide, answer, HandoffQueue.dropReader]

/-- Every call leaves the queue accounted for by the longer log, whose count has to fit. -/
theorem Accounted.answer (h : q.Accounted held log) (call : Call α)
    (hfit : CountsFit capacity
      (Log.accepted (log ++ [(call, (q.answer call).1)])).length) :
    ∃ left, (q.answer call).2.Accounted left (log ++ [(call, (q.answer call).1)]) := by
  cases call with
  | push a =>
    by_cases hroom : held.length < capacity
    · refine ⟨held ++ [a], h.push_of_lt hroom ?_ a⟩
      rw [answer_push_of_ok (push_ok_of_lt h.holds hroom a), Log.accepted_append,
        List.length_append] at hfit
      exact hfit
    · exact ⟨held, h.push_of_not_lt hroom a⟩
  | pop =>
    refine ⟨held.tail, h.pop ?_⟩
    rwa [Log.accepted_append, List.length_append] at hfit
  | drop side => exact ⟨held, h.drop side⟩

namespace Session

theorem run_concat (s : Session α capacity) (calls : List (Call α)) (call : Call α) :
    s.run (calls ++ [call]) = (s.run calls).step call := List.foldl_concat ..

/-- A call takes no value back that was accepted. -/
theorem length_accepted_step (s : Session α capacity) (call : Call α) :
    s.log.accepted.length ≤ (s.step call).log.accepted.length := by
  unfold step
  split
  · rw [Log.accepted_append, List.length_append]
    exact Nat.le_add_right _ _
  · exact Nat.le_refl _

theorem accounted_step {s : Session α capacity} {held : List α}
    (h : s.queue.Accounted held s.log) (call : Call α)
    (hfit : CountsFit capacity (s.step call).log.accepted.length) :
    ∃ left, (s.step call).queue.Accounted left (s.step call).log := by
  unfold step at hfit ⊢
  split
  · rw [if_pos ‹_›] at hfit
    exact h.answer call hfit
  · exact ⟨held, h⟩

theorem accounted_run (calls : List (Call α))
    (hfit : CountsFit capacity ((start : Session α capacity).run calls).log.accepted.length) :
    ∃ held, ((start : Session α capacity).run calls).queue.Accounted held
      ((start : Session α capacity).run calls).log := by
  induction calls using List.reverseRecOn with
  | nil => exact ⟨[], accounted_empty⟩
  | append_singleton calls call ih =>
    rw [run_concat] at hfit ⊢
    -- The bound is on the whole run; what it gives for the calls so far is what a step needs.
    obtain ⟨held, hbefore⟩ := ih (hfit.mono (length_accepted_step _ call))
    exact accounted_step hbefore call hfit

/-- A reader who is still there pops all that waits, and then nothing more. -/
theorem run_pops {s : Session α capacity} {held : List α} (h : s.queue.Accounted held s.log)
    (hreader : s.queue.hasSide .reader = true)
    (hfit : CountsFit capacity s.log.accepted.length) :
    (s.run (List.replicate held.length .pop)).log.popped = s.log.popped ++ held ∧
      (s.run (List.replicate held.length .pop)).queue.pop.1 = none := by
  induction held generalizing s with
  | nil =>
    refine ⟨(List.append_nil _).symm, ?_⟩
    change s.queue.pop.1 = none
    rw [pop_nil h.holds]
  | cons a rest ih =>
    have hnext := h.pop hfit
    have hstep : s.step .pop = ⟨s.queue.pop.2, s.log ++ [(.pop, .popped s.queue.pop.1)]⟩ :=
      if_pos hreader
    rw [pop_cons h.holds] at hnext hstep
    rw [List.length_cons, List.replicate_succ]
    change ((s.step .pop).run (List.replicate rest.length .pop)).log.popped = _ ∧
      ((s.step .pop).run (List.replicate rest.length .pop)).queue.pop.1 = none
    rw [hstep]
    have hsame : Log.accepted (s.log ++ [(.pop, .popped (some a))]) = s.log.accepted := by
      rw [Log.accepted_append]
      exact List.append_nil _
    obtain ⟨hpopped, hnone⟩ := ih (s := ⟨_, _⟩) hnext hreader (by rwa [hsame])
    refine ⟨hpopped.trans ?_, hnone⟩
    rw [Log.popped_append, List.append_assoc]
    rfl

/-- A writer who goes changes nothing for the reader. -/
theorem accounted_dropWriter {s : Session α capacity} {held : List α}
    (h : s.queue.Accounted held s.log) :
    (s.step (.drop .writer)).queue.Accounted held (s.step (.drop .writer)).log ∧
      (s.step (.drop .writer)).log.accepted = s.log.accepted ∧
      (s.step (.drop .writer)).queue.hasSide .reader = s.queue.hasSide .reader := by
  unfold step
  split
  · refine ⟨h.drop .writer, ?_, rfl⟩
    rw [Log.accepted_append]
    exact List.append_nil _
  · exact ⟨h, rfl, rfl⟩

/-- After any calls of the two sides of a queue of any capacity, each side until it is gone, as
long as the counts find their slots: what was popped and what waits are together what was accepted,
in that order. A value is accepted exactly when fewer wait than there are slots, and is otherwise
handed back. A pop hands out the oldest value, if one waits. Both sides see how many wait and
whether the other one is there; what was accepted can be popped when the writer is gone. A slot is
looked up only where there is one, so never in a queue without slots. -/
theorem calls_refine_bounded_queue (calls : List (Call α))
    (hfit : CountsFit capacity ((start : Session α capacity).run calls).log.accepted.length) :
    let s := (start : Session α capacity).run calls
    let q := s.queue
    let log := s.log
    (log.popped ++ q.toList = log.accepted ∧ q.toList.length ≤ capacity) ∧
      (∀ a, if q.toList.length < capacity then
          ∃ next, q.push a = .ok next ∧
            (CountsFit capacity (log.accepted.length + 1) → next.toList = q.toList ++ [a])
        else q.push a = .error a) ∧
      ((q.pop.1 = none ↔ q.toList = []) ∧ q.pop.1 = q.toList.head? ∧
        q.pop.2.toList = q.toList.tail) ∧
      (q.size = q.toList.length ∧ (q.isEmpty = true ↔ q.toList = []) ∧
        (q.isFull = true ↔ q.toList.length = capacity)) ∧
      (∀ side, q.isConnected side = false ↔ log.Dropped side.other) ∧
      (¬ log.Dropped .reader →
        let final := s.run (.drop .writer :: List.replicate q.toList.length .pop)
        final.log.popped = log.accepted ∧ final.queue.pop.1 = none) ∧
      ((q.isFull = false → q.written.toNat % capacity < capacity) ∧
        (q.written ≠ q.taken → q.taken.toNat % capacity < capacity)) := by
  intro s q log
  obtain ⟨held, h⟩ : ∃ held, q.Accounted held log := accounted_run calls hfit
  have hlist : q.toList = held := h.holds.toList_eq
  have hle := h.holds.length_le
  have hleft := h.pop hfit
  have hfull : q.isFull = true ↔ held.length = capacity := by
    rw [isFull, h.holds.size, decide_eq_true_eq]
    omega
  have hhead : q.pop.1 = held.head? := by
    cases held with
    | nil => rw [pop_nil h.holds]; rfl
    | cons a rest => rw [pop_cons h.holds]; rfl
  rw [hlist]
  refine ⟨⟨h.order, hle⟩, ?_, ⟨?_, hhead, hleft.holds.toList_eq⟩, ⟨h.holds.size, ?_, hfull⟩, ?_, ?_,
    ?_, ?_⟩
  · intro a
    split
    · rename_i hroom
      refine ⟨_, push_ok_of_lt h.holds hroom a, ?_⟩
      intro hnext
      have hpushed := h.push_of_lt hroom hnext a
      rw [answer_push_of_ok (push_ok_of_lt h.holds hroom a)] at hpushed
      exact hpushed.holds.toList_eq
    · exact push_full h.holds (by omega) a
  · rw [hhead, List.head?_eq_none_iff]
  · rw [isEmpty, h.holds.size, beq_iff_eq, List.length_eq_zero_iff]
  · intro side
    rw [isConnected, ← Bool.not_eq_true, h.sides, not_not]
  · intro hkept final
    obtain ⟨hgone, hsame, hreader⟩ := accounted_dropWriter h
    rw [(h.sides .reader).2 hkept] at hreader
    obtain ⟨hpopped, hnone⟩ := run_pops hgone hreader (by rwa [hsame])
    refine ⟨?_, hnone⟩
    rw [← hsame, ← hgone.order]
    exact hpopped
  · intro hroom
    rw [← Bool.not_eq_true, hfull] at hroom
    exact Nat.mod_lt _ (by omega)
  · intro hne
    have hwaits : 0 < held.length := by
      rw [List.length_pos_iff]
      rintro rfl
      exact hne (written_eq_taken h.holds)
    exact Nat.mod_lt _ (by omega)

/-- Three slots do not divide the words, and the fifth value finds them full. -/
theorem calls_refine_bounded_queue_three :
    let s := (start : Session Nat 3).run [.push 1, .push 2, .pop, .push 3, .push 4, .push 5,
      .drop .reader, .pop, .push 6]
    CountsFit 3 s.log.accepted.length ∧ s.log.popped = [1] ∧ s.queue.toList = [2, 3, 4] ∧
      s.log.popped ++ s.queue.toList = s.log.accepted ∧ s.queue.push 5 = .error 5 ∧
      s.queue.isConnected .writer = false := by
  intro s
  have hlist : s.queue.toList = [2, 3, 4] := by decide +kernel
  have hfit : CountsFit 3 s.log.accepted.length := .inr (by decide +kernel)
  obtain ⟨⟨horder, _⟩, hpush, _, _, hconnected, _⟩ := calls_refine_bounded_queue _ hfit
  have hfull := hpush 5
  change if s.queue.toList.length < 3 then _ else _ at hfull
  rw [hlist] at hfull
  have hgone : s.log.Dropped .reader := by
    unfold Log.Dropped
    decide +kernel
  exact ⟨hfit, by decide +kernel, hlist, horder, hfull, (hconnected .writer).2 hgone⟩

end Session

end BurnerTelemetry.HandoffQueue
