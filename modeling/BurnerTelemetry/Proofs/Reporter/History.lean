import BurnerTelemetry.Proofs.Attribute.Snapshot
import BurnerTelemetry.Proofs.Reporter.Session
import Mathlib.Data.List.DropRight

/-!
What happens in a session of a reporter, as far as a subscriber is concerned: writes of the
attributes, each with what it changed, and attempts to report, each with its time. The history
tells when a subscriber took reports and what has happened since the last one.
-/
namespace BurnerTelemetry

open Attribute (Changes)

namespace Reporter

inductive Happening where
  /-- The attributes were written, and these changed, or none. -/
  | written (changes : Changes)
  /-- An attempt was made to report. -/
  | attempted (time : UInt64) (attempt : Attempt)

namespace Happening

def changes : Happening → Changes
  | written changes => changes
  | attempted _ _ => Changes.none

/-- The subscriber of the handle took a report. -/
def reports (handle : UInt32) : Happening → Bool
  | written _ => false
  | attempted _ attempt => attempt.accepted && attempt.handle == handle

/-- The time of an attempt. -/
def time? : Happening → Option UInt64
  | written _ => none
  | attempted time _ => some time

end Happening

/-- What has happened, oldest first. -/
abbrev History := List Happening

namespace History

/-- Everything that has changed. -/
def changes (history : History) : Changes :=
  (history.map Happening.changes).foldr Changes.union Changes.none

/-- The number of writes that changed an attribute. -/
def changeCount (history : History) : Nat := history.countP (fun h => !h.changes.isEmpty)

/-- The times at which the subscriber of the handle took a report. -/
def reportTimes (history : History) (handle : UInt32) : List UInt64 :=
  (history.filter (Happening.reports handle)).filterMap Happening.time?

/-- What has happened since it took the last one. -/
def since (history : History) (handle : UInt32) : History :=
  history.rtakeWhile (fun h => !h.reports handle)

variable {history front back : History} {handle : UInt32} {h : Happening}

theorem changes_concat (history : History) (h : Happening) :
    changes (history ++ [h]) = history.changes.union h.changes := by
  rw [changes, List.map_append]
  exact Changes.foldr_union_concat _ _

theorem changeCount_append (front back : History) :
    changeCount (front ++ back) = front.changeCount + changeCount back := List.countP_append

theorem changeCount_written (changes : Changes) :
    changeCount [.written changes] = if changes.isEmpty then 0 else 1 := by
  rw [changeCount, List.countP_singleton]
  cases hempty : changes.isEmpty with
  | true => simp [Happening.changes, hempty]
  | false => simp [Happening.changes, hempty]

/-- If anything has changed, then in some write. -/
theorem changeCount_pos (hchanges : history.changes ≠ Changes.none) : 0 < history.changeCount := by
  rw [changeCount, List.countP_pos_iff]
  induction history with
  | nil => exact absurd rfl hchanges
  | cons first rest ih =>
    cases hempty : first.changes.isEmpty with
    | false => exact ⟨first, List.mem_cons_self, by rw [hempty]; rfl⟩
    | true =>
      have hrest : changes rest ≠ Changes.none := by
        intro hnone
        apply hchanges
        change first.changes.union (changes rest) = Changes.none
        rw [hnone, (Changes.isEmpty_iff _).1 hempty, Changes.union_none]
      obtain ⟨found, hfound, hchanged⟩ := ih hrest
      exact ⟨found, List.mem_cons_of_mem first hfound, hchanged⟩

theorem reportTimes_append (front back : History) (handle : UInt32) :
    reportTimes (front ++ back) handle = front.reportTimes handle ++ reportTimes back handle := by
  rw [reportTimes, List.filter_append, List.filterMap_append]
  rfl

theorem reportTimes_of_not_reports (hback : ∀ h ∈ back, h.reports handle = false) :
    back.reportTimes handle = [] := by
  rw [reportTimes, List.filter_eq_nil_iff.2 (fun h hm => Bool.eq_false_iff.1 (hback h hm))]
  rfl

theorem reportTimes_of_reports {time : UInt64} {a : Attempt}
    (hreports : (Happening.attempted time a).reports handle = true) :
    reportTimes [.attempted time a] handle = [time] := by
  rw [reportTimes, List.filter_singleton, hreports]
  rfl

theorem since_concat_of_not_reports (hother : h.reports handle = false) :
    since (history ++ [h]) handle = history.since handle ++ [h] := by
  apply List.rtakeWhile_concat_pos
  rw [hother]
  rfl

theorem since_concat_of_reports (hreports : h.reports handle = true) :
    since (history ++ [h]) handle = [] := by
  apply List.rtakeWhile_concat_neg
  rw [hreports]
  decide

/-- What has happened since a report, if there was none to the subscriber behind it. -/
theorem since_append (hreports : h.reports handle = true)
    (hback : ∀ h ∈ back, h.reports handle = false) : since (front ++ h :: back) handle = back := by
  induction back using List.reverseRecOn with
  | nil => exact since_concat_of_reports hreports
  | append_singleton back last ih =>
    have hrest := ih (fun h hm => hback h (List.mem_append_left _ hm))
    have hlast := hback last (List.mem_append_right _ (List.mem_singleton.2 rfl))
    rw [← List.cons_append, ← List.append_assoc, since_concat_of_not_reports hlast, hrest]

/-- What stands in a history with one more happening is that one, or stood there before. -/
theorem eq_or_of_concat {last : Happening} (hsplit : history ++ [last] = front ++ h :: back) :
    (front = history ∧ h = last) ∨ ∃ rest, history = front ++ h :: rest := by
  rcases List.eq_nil_or_concat back with rfl | ⟨rest, final, rfl⟩
  · obtain ⟨hfront, hlast⟩ := List.append_inj' hsplit rfl
    exact .inl ⟨hfront.symm, (List.singleton_inj.1 hlast).symm⟩
  · rw [List.concat_eq_append, ← List.cons_append, ← List.append_assoc] at hsplit
    exact .inr ⟨rest, (List.append_inj' hsplit rfl).1⟩

end History

/-- What a reading changes, if it is applied. -/
def readingWrites (r : Reporter) (reading : Reading) : History :=
  match r.store.apply reading with
  | .ok (changes, _) => [.written changes]
  | .error _ => []

/-- What readings change one after another. -/
def writes (r : Reporter) : List Reading → History
  | [] => []
  | reading :: rest => r.readingWrites reading ++ (r.absorb reading).2.writes rest

/-- What the stale rule changes, if it is time. -/
def staleWrites (r : Reporter) : History :=
  match r.store.expire? r.staleTimeout with
  | some (changes, _) => [.written changes]
  | none => []

/-- What a round changes before its reports. -/
def roundWrites (r : Reporter) (l : ReadingLink) : History :=
  r.writes l.receiveAll.1 ++ (r.absorbAll l.receiveAll.1).2.staleWrites

namespace Session

/-- What happens in a step. -/
def happenings (s : Session) : Event → History
  | .round =>
    s.reporter.roundWrites s.link ++ s.round.attempts.map (.attempted s.reporter.store.now)
  | .send _ | .setClock _ | .advance _ | .refuse _ => []

/-- What happens in a run. -/
def history (s : Session) : List Event → History
  | [] => []
  | event :: rest => s.happenings event ++ (s.step event).history rest

end Session

end Reporter

end BurnerTelemetry
