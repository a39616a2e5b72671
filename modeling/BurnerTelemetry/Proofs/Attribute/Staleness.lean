import BurnerTelemetry.Proofs.Attribute.StoreCalls
import Mathlib.Data.List.DropRight

/-!
When the attributes of a store are cleared. In any run of calls the store is stale exactly if they
were cleared since the last valid reading. Between two valid readings they are cleared once at most,
never before the timeout has passed, and stay as they are from then on.
-/
namespace BurnerTelemetry.Attribute

/-- Everything is off. -/
structure Snapshot.IsOff (s : Snapshot) : Prop where
  flame : s.flame = false
  fan : s.fan = 0
  temperature : s.temperature = 0

theorem Snapshot.isOff_update_silent (previous : Snapshot) (now : UInt64) :
    (previous.update Reading.silent now).IsOff where
  flame := previous.flame_update Reading.silent now
  fan := UInt8.toNat_inj.1 (previous.fan_update Reading.silent now)
  temperature := UInt16.toNat_inj.1 (previous.temperature_update Reading.silent now)

namespace Store

/-- The call takes in a valid reading. -/
def Call.isReading : Call → Bool
  | .apply r => r.valid
  | _ => false

/-- The attributes were cleared. -/
def clears : Call × Answer → Bool
  | (.expire _, .wrote _) => true
  | _ => false

namespace Log

/-- The calls since the last valid reading, or all of them if there was none. -/
def sinceReading (log : Log) : Log := log.rtakeWhile (fun entry => !entry.1.isReading)

/-- How often the attributes were cleared. -/
def clearings (log : Log) : Nat := log.countP clears

theorem clearings_append (front back : Log) :
    clearings (front ++ back) = front.clearings + clearings back := List.countP_append

theorem sinceReading_reading (log : Log) {entry : Call × Answer} (h : entry.1.isReading = true) :
    sinceReading (log ++ [entry]) = [] := by
  apply List.rtakeWhile_concat_neg
  rw [h]
  decide

theorem sinceReading_append (front : Log) {back : Log}
    (h : ∀ entry ∈ back, entry.1.isReading = false) :
    sinceReading (front ++ back) = front.sinceReading ++ back := by
  have hback : ∀ entry ∈ back.reverse, (!entry.1.isReading) = true := by
    intro entry hentry
    rw [h entry (List.mem_reverse.1 hentry)]
    rfl
  rw [sinceReading, sinceReading, List.rtakeWhile, List.rtakeWhile, List.reverse_append,
    List.takeWhile_append_of_pos hback, List.reverse_append, List.reverse_reverse]

theorem clearings_le_sinceReading (front : Log) {back : Log}
    (h : ∀ entry ∈ back, entry.1.isReading = false) :
    back.clearings ≤ (sinceReading (front ++ back)).clearings := by
  rw [sinceReading_append front h, clearings_append]
  exact Nat.le_add_left _ _

end Log

theorem expire?_isSome_iff (s : Store) (timeout : UInt64) :
    (s.expire? timeout).isSome = true ↔
      s.isStale = false ∧ timeout.toNat ≤ s.now.toNat - s.snapshot.updatedAt.toNat := by
  rw [expire?, age]
  split
  · rename_i hquiet
    rw [Bool.or_eq_true, decide_eq_true_iff] at hquiet
    constructor
    · intro h
      cases h
    · rintro ⟨hfresh, hlong⟩
      rcases hquiet with hstale | hshort
      · rw [hfresh] at hstale
        cases hstale
      · omega
  · rename_i hdue
    rw [Bool.or_eq_true, decide_eq_true_iff, not_or, Nat.not_lt, Bool.not_eq_true] at hdue
    exact ⟨fun _ => hdue, fun _ => rfl⟩

/-- What a call is to the stale rule: a valid reading ends it, clearing the attributes starts it,
and all other calls leave it and the attributes alone. -/
theorem answer_cases (s : Store) (call : Call) :
    (call.isReading = true ∧ ∃ r, (s.answer call).2 = ({ s with isStale := false }.write r).2) ∨
    (call.isReading = false ∧ clears (call, (s.answer call).1) = true ∧ s.isStale = false ∧
      (s.answer call).2 = ({ s with isStale := true }.write Reading.silent).2) ∨
    (call.isReading = false ∧ clears (call, (s.answer call).1) = false ∧
      (s.answer call).2.isStale = s.isStale ∧ (s.answer call).2.snapshot = s.snapshot) := by
  cases call with
  | apply r =>
    cases hvalid : r.valid with
    | true => exact .inl ⟨hvalid, r, by rw [s.answer_apply_valid hvalid]⟩
    | false =>
      refine .inr (.inr ⟨hvalid, rfl, ?_⟩)
      rw [s.answer_apply_invalid hvalid]
      exact ⟨rfl, rfl⟩
  | expire timeout =>
    rw [answer_expire]
    split
    · exact .inr (.inr ⟨rfl, rfl, rfl, rfl⟩)
    · rename_i hdue
      rw [Bool.or_eq_true, not_or, Bool.not_eq_true] at hdue
      exact .inr (.inl ⟨rfl, rfl, hdue.1, rfl⟩)
  | subscribe address port =>
    refine .inr (.inr ⟨rfl, rfl, ?_⟩)
    cases hadd : s.registry.add address port with
    | error e =>
      rw [s.answer_subscribe_error hadd]
      exact ⟨rfl, rfl⟩
    | ok added =>
      rw [s.answer_subscribe_ok hadd]
      exact ⟨rfl, rfl⟩
  | unsubscribe handle => exact .inr (.inr ⟨rfl, rfl, rfl, rfl⟩)
  | noteChanges changes => exact .inr (.inr ⟨rfl, rfl, rfl, rfl⟩)
  | markReported handle now => exact .inr (.inr ⟨rfl, rfl, rfl, rfl⟩)
  | setClock now => exact .inr (.inr ⟨rfl, rfl, rfl, rfl⟩)
  | advance elapsed => exact .inr (.inr ⟨rfl, rfl, rfl, rfl⟩)

/-- The log tells whether the store is stale, and a stale store is off. -/
structure StaleRule (s : Store) (log : Log) : Prop where
  marked : log.sinceReading.clearings = if s.isStale then 1 else 0
  off : s.isStale = true → s.snapshot.IsOff
  once : ∀ front middle back : Log, log = front ++ middle ++ back →
    (∀ entry ∈ middle, entry.1.isReading = false) → middle.clearings ≤ 1

variable {s : Store} {log : Log}

theorem staleRule_start (now : UInt64) : StaleRule (startingAt now) [] := by
  refine ⟨rfl, nofun, ?_⟩
  intro front middle back hsplit _
  obtain ⟨hmiddle, _⟩ := List.append_eq_nil_iff.1 hsplit.symm
  rw [(List.append_eq_nil_iff.1 hmiddle).2]
  exact Nat.zero_le 1

/-- The longer log is cut behind its last call or before it. -/
theorem StaleRule.once_concat (h : StaleRule s log) {entry : Call × Answer}
    (hlast : (Log.sinceReading (log ++ [entry])).clearings ≤ 1) (front middle back : Log)
    (hsplit : log ++ [entry] = front ++ middle ++ back)
    (hmiddle : ∀ entry ∈ middle, entry.1.isReading = false) : middle.clearings ≤ 1 := by
  rcases List.eq_nil_or_concat back with rfl | ⟨rest, final, rfl⟩
  · rw [List.append_nil] at hsplit
    rw [hsplit] at hlast
    exact Nat.le_trans (Log.clearings_le_sinceReading front hmiddle) hlast
  · rw [List.concat_eq_append, ← List.append_assoc] at hsplit
    exact h.once front middle rest (List.append_inj' hsplit rfl).1 hmiddle

theorem StaleRule.answer (h : StaleRule s log) (call : Call) :
    StaleRule (s.answer call).2 (log ++ [(call, (s.answer call).1)]) := by
  have hmarked : (Log.sinceReading (log ++ [(call, (s.answer call).1)])).clearings =
      if (s.answer call).2.isStale then 1 else 0 := by
    obtain ⟨hreading, r, hnext⟩ | ⟨hother, hclears, hfresh, hnext⟩ | ⟨hother, hclears, hstale, _⟩ :=
      s.answer_cases call
    · rw [Log.sinceReading_reading log hreading, hnext]
      rfl
    · rw [Log.sinceReading_append log (List.forall_mem_singleton.2 hother), Log.clearings_append,
        h.marked, hfresh, Log.clearings, List.countP_singleton, hclears, hnext]
      rfl
    · rw [Log.sinceReading_append log (List.forall_mem_singleton.2 hother), Log.clearings_append,
        h.marked, hstale, Log.clearings, List.countP_singleton, hclears]
      rfl
  have hatMost : (if (s.answer call).2.isStale then 1 else 0) ≤ 1 := by
    split
    · exact Nat.le_refl 1
    · exact Nat.zero_le 1
  refine ⟨hmarked, ?_, h.once_concat (hmarked ▸ hatMost)⟩
  obtain ⟨_, r, hnext⟩ | ⟨_, _, _, hnext⟩ | ⟨_, _, hstale, hsame⟩ := s.answer_cases call
  · rw [hnext]
    nofun
  · rw [hnext]
    exact fun _ => s.snapshot.isOff_update_silent s.now
  · rw [hstale, hsame]
    exact h.off

namespace Session

theorem staleRule_run (now : UInt64) (calls : List Call) :
    StaleRule ((start now).run calls).store ((start now).run calls).log := by
  induction calls using List.reverseRecOn with
  | nil => exact staleRule_start now
  | append_singleton calls call ih =>
    rw [run_concat]
    exact ih.answer call

variable {s : Session} {later : List Call}

/-- What is kept when the attributes are cleared, and by every call that leaves them and the stale
mark alone, is kept until the next valid reading. -/
theorem run_keeps_without_reading {P : Store → Prop} (hstart : P s.store)
    (hclear : ∀ q : Store, P q → q.isStale = false →
      P ({ q with isStale := true }.write Reading.silent).2)
    (hkeep : ∀ q next : Store, P q → next.isStale = q.isStale → next.snapshot = q.snapshot → P next)
    (hlater : ∀ call ∈ later, call.isReading = false) : P (s.run later).store := by
  induction later using List.reverseRecOn with
  | nil => exact hstart
  | append_singleton later call ih =>
    have hbefore := ih (fun c hc => hlater c (List.mem_append_left _ hc))
    have hother := hlater call (List.mem_append_right _ (List.mem_singleton.2 rfl))
    rw [run_concat, step]
    obtain ⟨hreading, _⟩ | ⟨_, _, hfresh, hnext⟩ | ⟨_, _, hstale, hsame⟩ :=
      (s.run later).store.answer_cases call
    · rw [hother] at hreading
      cases hreading
    · rw [hnext]
      exact hclear _ hbefore hfresh
    · exact hkeep _ _ hbefore hstale hsame

/-- A stale store is not cleared again. -/
theorem snapshot_run_of_isStale (hstale : s.store.isStale = true)
    (hlater : ∀ call ∈ later, call.isReading = false) :
    (s.run later).store.snapshot = s.store.snapshot := by
  have hkept : (s.run later).store.isStale = true ∧
      (s.run later).store.snapshot = s.store.snapshot := by
    apply run_keeps_without_reading (P := fun q => q.isStale = true ∧ q.snapshot = s.store.snapshot)
      ⟨hstale, rfl⟩ _ _ hlater
    · rintro q ⟨hstill, _⟩ hfresh
      rw [hstill] at hfresh
      cases hfresh
    · rintro q next ⟨hstill, hsame⟩ hmark hsnapshot
      exact ⟨hmark.trans hstill, hsnapshot.trans hsame⟩
  exact hkept.2

/-- Nothing but clearing the attributes moves the time of the last update. -/
theorem updatedAt_run (hlater : ∀ call ∈ later, call.isReading = false) :
    (s.run later).store.isStale = true ∨
      (s.run later).store.snapshot.updatedAt = s.store.snapshot.updatedAt := by
  apply run_keeps_without_reading
    (P := fun q => q.isStale = true ∨ q.snapshot.updatedAt = s.store.snapshot.updatedAt)
    (.inr rfl) _ _ hlater
  · exact fun q _ _ => .inl rfl
  · intro q next hbefore hmark hsnapshot
    rwa [hmark, hsnapshot]

theorem updatedAt_step_reading (s : Session) {r : Reading} (h : r.valid = true) :
    (s.step (.apply r)).store.snapshot.updatedAt = s.store.now := by
  rw [step, s.store.answer_apply_valid h]
  exact s.store.snapshot.updatedAt_update r s.store.now

/-- No call to clear the attributes succeeds before its timeout has passed since the last valid
reading. -/
theorem expire?_run_reading {r : Reading} {timeout : UInt64} (hvalid : r.valid = true)
    (hlater : ∀ call ∈ later, call.isReading = false) (htimeout : timeout ≠ 0)
    (hearly : ((s.step (.apply r)).run later).store.now.toNat <
      s.store.now.toNat + timeout.toNat) :
    ((s.step (.apply r)).run later).store.expire? timeout = none := by
  rw [← Option.not_isSome_iff_eq_none, expire?_isSome_iff]
  rintro ⟨hfresh, hlong⟩
  rcases updatedAt_run hlater with hstale | htime
  · rw [hfresh] at hstale
    cases hstale
  · rw [htime, updatedAt_step_reading s hvalid] at hlong
    have hpositive : 0 < timeout.toNat :=
      Nat.pos_of_ne_zero (fun hzero => htimeout (UInt64.toNat_inj.1 hzero))
    omega

end Session

/-- After any calls on a fresh store. Asked to clear the attributes, it does so exactly if it is not
stale and the last update is at least the timeout ago, where a clock that went back counts as no
time. It is stale exactly if they were cleared since the last valid reading, and no stretch of the
run without a valid reading clears them twice. While it is stale everything is off, and the snapshot
stays the same in every field until the next valid reading. After a valid reading no timeout but
zero clears them while the clock is before the time of the reading plus the timeout. -/
theorem stale_between_readings (now : UInt64) (calls : List Call) :
    let s := (Session.start now).run calls
    (∀ timeout : UInt64, (s.store.expire? timeout).isSome = true ↔ s.store.isStale = false ∧
      timeout.toNat ≤ s.store.now.toNat - s.store.snapshot.updatedAt.toNat) ∧
      (s.store.isStale = true ↔ ∃ entry ∈ s.log.sinceReading, clears entry = true) ∧
      (∀ front middle back : Log, s.log = front ++ middle ++ back →
        (∀ entry ∈ middle, entry.1.isReading = false) → middle.clearings ≤ 1) ∧
      (s.store.isStale = true → s.store.snapshot.IsOff ∧
        ∀ later : List Call, (∀ call ∈ later, call.isReading = false) →
          (s.run later).store.snapshot = s.store.snapshot) ∧
      (∀ (r : Reading) (later : List Call) (timeout : UInt64), r.valid = true →
        (∀ call ∈ later, call.isReading = false) → timeout ≠ 0 →
          ((s.step (.apply r)).run later).store.now.toNat < s.store.now.toNat + timeout.toNat →
            ((s.step (.apply r)).run later).store.expire? timeout = none) := by
  intro s
  have h : StaleRule s.store s.log := Session.staleRule_run now calls
  refine ⟨s.store.expire?_isSome_iff, ?_, h.once, ?_, ?_⟩
  · rw [← List.countP_pos_iff]
    change s.store.isStale = true ↔ 0 < s.log.sinceReading.clearings
    rw [h.marked]
    split
    · rename_i hstale
      exact ⟨fun _ => Nat.one_pos, fun _ => hstale⟩
    · rename_i hfresh
      exact ⟨fun hstale => absurd hstale hfresh, fun hpos => absurd hpos (Nat.lt_irrefl 0)⟩
  · exact fun hstale =>
      ⟨h.off hstale, fun _ hlater => Session.snapshot_run_of_isStale hstale hlater⟩
  · exact fun _ _ _ hvalid hlater htimeout hearly =>
      Session.expire?_run_reading hvalid hlater htimeout hearly

/-- A reading, silence for five milliseconds, and what leaves the cleared attributes alone. -/
theorem stale_between_readings_cleared :
    let s := (Session.start 0).run [.setClock 10, .apply ⟨true, 30, 80, 0, true⟩, .setClock 15,
      .expire 5]
    s.store.isStale = true ∧ s.store.snapshot = ⟨false, 0, 0, 15, 2⟩ ∧
      (s.run [.apply Reading.invalid, .setClock 3, .expire 0]).store.snapshot =
        s.store.snapshot ∧
      (((s.step (.apply ⟨true, 30, 80, 0, true⟩)).run [.setClock 19]).store.expire? 5) = none := by
  intro s
  have hstale : s.store.isStale = true := by decide +kernel
  have h := stale_between_readings 0 [.setClock 10, .apply ⟨true, 30, 80, 0, true⟩, .setClock 15,
    .expire 5]
  refine ⟨hstale, by decide +kernel, (h.2.2.2.1 hstale).2 _ (by decide), ?_⟩
  exact h.2.2.2.2 ⟨true, 30, 80, 0, true⟩ [.setClock 19] 5 rfl (by decide) (by decide)
    (by decide +kernel)

/-- A timeout of zero passes at once, even when the clock has gone back to before the reading. -/
theorem expire_zero_before_reading :
    let s := Session.start 5
    let q := (s.step (.apply ⟨true, 30, 80, 0, true⟩)).run [.setClock 3]
    q.store.now.toNat < s.store.now.toNat + (0 : UInt64).toNat ∧
      (q.store.expire? 0).isSome = true := by
  decide +kernel

end Store

end BurnerTelemetry.Attribute
