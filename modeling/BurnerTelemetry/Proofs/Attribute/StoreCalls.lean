import BurnerTelemetry.Proofs.Attribute.Snapshot
import BurnerTelemetry.Proofs.Attribute.Subscribers
import Mathlib.Data.List.Induction

/-!
Calls of a store in any order. The calls so far and their answers tell everything about the store:
how often the attributes changed, and for each subscriber when it was told last and what it is
still to be told.
-/
namespace BurnerTelemetry.Attribute

namespace Store

inductive Call where
  | apply (r : Reading)
  | expire (timeout : UInt64)
  | subscribe (address : String) (port : UInt16)
  | unsubscribe (handle : UInt32)
  | noteChanges (changes : Changes)
  | markReported (handle : UInt32) (now : UInt64)
  | setClock (now : UInt64)
  | advance (elapsed : UInt64)
  deriving DecidableEq, Repr

inductive Answer where
  /-- A reading, or silence, was written, and these attributes changed. -/
  | wrote (changes : Changes)
  /-- The reading was not valid, or it was not time to clear the attributes. -/
  | ignored
  /-- A new subscriber has this handle. -/
  | registered (handle : UInt32)
  /-- A subscriber that was there has this handle. -/
  | known (handle : UInt32)
  | refused (error : RegistryError)
  | removed (known : Bool)
  | done
  deriving DecidableEq, Repr

def answer (s : Store) : Call → Answer × Store
  | .apply r =>
    match s.apply r with
    | .ok (changes, next) => (.wrote changes, next)
    | .error _ => (.ignored, s)
  | .expire timeout =>
    match s.expire? timeout with
    | some (changes, next) => (.wrote changes, next)
    | none => (.ignored, s)
  | .subscribe address port =>
    match s.subscribe address port with
    | .ok (handle, next) =>
      (if handle ∈ s.registry.handles then .known handle else .registered handle, next)
    | .error e => (.refused e, s)
  | .unsubscribe handle => (.removed (s.unsubscribe handle).1, (s.unsubscribe handle).2)
  | .noteChanges changes => (.done, s.noteChanges changes)
  | .markReported handle now => (.done, s.markReported handle now)
  | .setClock now => (.done, s.setClock now)
  | .advance elapsed => (.done, s.advance elapsed)

theorem answer_apply_invalid (s : Store) {r : Reading} (h : r.valid = false) :
    s.answer (.apply r) = (.ignored, s) := by
  rw [answer, Store.apply, h]
  rfl

theorem answer_apply_valid (s : Store) {r : Reading} (h : r.valid = true) :
    s.answer (.apply r) =
      (.wrote ({ s with isStale := false }.write r).1,
        ({ s with isStale := false }.write r).2) := by
  rw [answer, Store.apply, h]
  rfl

theorem answer_expire (s : Store) (timeout : UInt64) :
    s.answer (.expire timeout) =
      if s.isStale || decide (s.age < timeout.toNat) then (.ignored, s)
      else (.wrote ({ s with isStale := true }.write Reading.silent).1,
        ({ s with isStale := true }.write Reading.silent).2) := by
  rw [answer, expire?]
  split
  · rename_i hwrite
    split at hwrite
    · cases hwrite
    · rw [if_neg ‹_›]
      cases hwrite
      rfl
  · rename_i hnone
    split at hnone
    · rw [if_pos ‹_›]
    · cases hnone

theorem answer_subscribe_error (s : Store) {address : String} {port : UInt16} {e : RegistryError}
    (h : s.registry.add address port = .error e) :
    s.answer (.subscribe address port) = (.refused e, s) := by
  rw [answer, Store.subscribe, h]
  rfl

theorem answer_subscribe_ok (s : Store) {address : String} {port : UInt16} {handle : UInt32}
    {registry : Registry} (h : s.registry.add address port = .ok (handle, registry)) :
    s.answer (.subscribe address port) =
      (if handle ∈ s.registry.handles then .known handle else .registered handle,
        { s with registry }) := by
  rw [answer, Store.subscribe, h]
  rfl

/-- The calls that were made, oldest first, with their answers. -/
abbrev Log := List (Call × Answer)

structure Session where
  store : Store
  log : Log

namespace Session

def start (now : UInt64) : Session := ⟨startingAt now, []⟩

def step (s : Session) (call : Call) : Session :=
  ⟨(s.store.answer call).2, s.log ++ [(call, (s.store.answer call).1)]⟩

def run (s : Session) (calls : List Call) : Session := calls.foldl step s

end Session

/-- The changes that an entry tells the subscribers. -/
def changesOf (entry : Call × Answer) : Changes :=
  match entry.2 with
  | .wrote changes => changes
  | _ =>
    match entry.1 with
    | .noteChanges changes => changes
    | _ => Changes.none

/-- With such an entry the account of a handle starts anew. -/
def Restarts (handle : UInt32) (entry : Call × Answer) : Prop :=
  entry.2 = .registered handle ∨ ∃ now, entry.1 = .markReported handle now

theorem not_restarts {handle : UInt32} {entry : Call × Answer}
    (hanswer : entry.2 ≠ .registered handle) (hcall : ∀ now, entry.1 ≠ .markReported handle now) :
    ¬ Restarts handle entry := by
  rintro (he | ⟨now, he⟩)
  · exact hanswer he
  · exact hcall now he

namespace Log

/-- The handles of new subscribers. -/
def registered (log : Log) : List UInt32 :=
  log.filterMap fun entry =>
    match entry.2 with
    | .registered handle => some handle
    | _ => none

/-- The number of writes that changed an attribute. -/
def changeCount (log : Log) : Nat :=
  log.countP fun entry =>
    match entry.2 with
    | .wrote changes => !changes.isEmpty
    | _ => false

/-- Everything that subscribers were told to have changed. -/
def changes (log : Log) : Changes := (log.map changesOf).foldr Changes.union Changes.none

/-- What is pending for a subscriber is what has changed since it was registered, or since the
last report to it if there was one, which is when it was reported to. -/
def Tells (log : Log) (t : Subscriber) : Prop :=
  ∃ (front : Log) (last : Call × Answer) (back : Log), log = front ++ last :: back ∧
    (∀ entry ∈ back, ¬ Restarts t.handle entry) ∧
    (last.2 = .registered t.handle ∧ t.reportedAt = none ∨
      ∃ now, last.1 = .markReported t.handle now ∧ t.handle ∈ front.registered ∧
        t.reportedAt = some now) ∧
    t.pending = back.changes

theorem registered_append (front back : Log) :
    registered (front ++ back) = front.registered ++ registered back := List.filterMap_append

theorem changeCount_append (front back : Log) :
    changeCount (front ++ back) = front.changeCount + changeCount back := List.countP_append

theorem changes_concat (log : Log) (entry : Call × Answer) :
    changes (log ++ [entry]) = log.changes.union (changesOf entry) := by
  rw [changes, List.map_append]
  exact Changes.foldr_union_concat _ _

theorem mem_registered {log : Log} {entry : Call × Answer} {handle : UInt32} (h : entry ∈ log)
    (hentry : entry.2 = .registered handle) : handle ∈ log.registered := by
  refine List.mem_filterMap.2 ⟨entry, h, ?_⟩
  rw [hentry]

theorem Tells.handle_mem {log : Log} {t : Subscriber} (h : log.Tells t) :
    t.handle ∈ log.registered := by
  obtain ⟨front, last, back, rfl, _, ⟨hlast, _⟩ | ⟨_, _, hfront, _⟩, _⟩ := h
  · exact mem_registered (List.mem_append_right _ List.mem_cons_self) hlast
  · rw [registered_append]
    exact List.mem_append_left _ hfront

/-- What an entry changes is pending besides what was. -/
theorem Tells.append {log : Log} {t : Subscriber} (h : log.Tells t) {entry : Call × Answer}
    (hentry : ¬ Restarts t.handle entry) :
    Tells (log ++ [entry]) { t with pending := t.pending.union (changesOf entry) } := by
  obtain ⟨front, last, back, rfl, hback, hlast, hpending⟩ := h
  refine ⟨front, last, back ++ [entry], by simp, ?_, hlast, ?_⟩
  · intro e he
    rcases List.mem_append.1 he with he | he
    · exact hback e he
    · rw [List.mem_singleton.1 he]
      exact hentry
  · rw [changes_concat, ← hpending]

/-- An entry about other things changes nothing. -/
theorem Tells.keep {log : Log} {t : Subscriber} (h : log.Tells t) {entry : Call × Answer}
    (hentry : ¬ Restarts t.handle entry) (hchanges : changesOf entry = Changes.none) :
    Tells (log ++ [entry]) t := by
  have htold := h.append hentry
  rwa [hchanges, Changes.union_none] at htold

theorem Tells.reported {log : Log} {t : Subscriber} (h : log.Tells t) (now : UInt64)
    (a : Answer) : Tells (log ++ [(.markReported t.handle now, a)]) (t.reported now) :=
  ⟨log, _, [], rfl, fun _ he => absurd he List.not_mem_nil, .inr ⟨now, rfl, h.handle_mem, rfl⟩,
    rfl⟩

theorem tells_registered (log : Log) (call : Call) (handle : UInt32) (d : Destination) :
    Tells (log ++ [(call, .registered handle)]) ⟨handle, d, none, Changes.none⟩ :=
  ⟨log, _, [], rfl, fun _ he => absurd he List.not_mem_nil, .inl ⟨rfl, rfl⟩, rfl⟩

end Log

end Store

open Store (Call Answer Log Restarts changesOf not_restarts)

/-- The log tells the handles that were given out, one by one, and all about the subscribers. -/
structure Registry.Accounted (r : Registry) (log : Log) : Prop where
  distinct : r.Distinct
  nextHandle : r.nextHandle = UInt32.ofNat log.registered.length
  registered : log.registered = (List.range log.registered.length).map UInt32.ofNat
  tells : ∀ t ∈ r.subscribers, log.Tells t

namespace Registry

variable {r : Registry} {log : Log}

theorem accounted_empty : empty.Accounted [] :=
  ⟨⟨List.nodup_nil, List.nodup_nil⟩, rfl, rfl, fun _ h => absurd h List.not_mem_nil⟩

theorem ofNat_inj_of_lt {i j : Nat} (hi : i < UInt32.size) (hj : j < UInt32.size)
    (h : UInt32.ofNat i = UInt32.ofNat j) : i = j := by
  have hnat := congrArg UInt32.toNat h
  rwa [UInt32.toNat_ofNat_of_lt' hi, UInt32.toNat_ofNat_of_lt' hj] at hnat

/-- The next handle is new as long as the handles have not gone round. -/
theorem Accounted.nextHandle_not_mem (h : r.Accounted log)
    (hfew : log.registered.length < UInt32.size) : r.nextHandle ∉ log.registered := by
  rw [h.nextHandle, h.registered]
  intro hm
  obtain ⟨i, hi, he⟩ := List.mem_map.1 hm
  rw [List.length_map, List.length_range] at he
  have hlt := List.mem_range.1 hi
  exact Nat.ne_of_lt hlt (ofNat_inj_of_lt (Nat.lt_trans hlt hfew) hfew he)

theorem Accounted.nextHandle_not_mem_handles (h : r.Accounted log)
    (hfew : log.registered.length < UInt32.size) : r.nextHandle ∉ r.handles := by
  intro hm
  obtain ⟨t, ht, he⟩ := List.mem_map.1 hm
  exact h.nextHandle_not_mem hfew (he ▸ (h.tells t ht).handle_mem)

/-- A handle that is given out is never given out again. -/
theorem Accounted.nodup_registered (h : r.Accounted log)
    (hfew : log.registered.length < UInt32.size) : log.registered.Nodup := by
  rw [h.registered]
  refine List.nodup_range.map_on ?_
  intro i hi j hj he
  exact ofNat_inj_of_lt (Nat.lt_trans (List.mem_range.1 hi) hfew)
    (Nat.lt_trans (List.mem_range.1 hj) hfew) he

/-- An entry that gives out no handle. -/
theorem Accounted.entry (h : r.Accounted log) {entry : Call × Answer} {next : Registry}
    (hnone : Log.registered [entry] = []) (hdistinct : next.Distinct)
    (hnext : next.nextHandle = r.nextHandle)
    (htells : ∀ t ∈ next.subscribers, Log.Tells (log ++ [entry]) t) :
    next.Accounted (log ++ [entry]) := by
  have hsame : Log.registered (log ++ [entry]) = log.registered := by
    rw [Log.registered_append, hnone, List.append_nil]
  refine ⟨hdistinct, ?_, ?_, htells⟩
  · rw [hnext, hsame, h.nextHandle]
  · rw [hsame]
    exact h.registered

/-- An entry that registers nobody and reports to nobody changes what is pending for all. -/
theorem Accounted.noteChanges (h : r.Accounted log) (entry : Call × Answer)
    (hnone : Log.registered [entry] = []) (hentry : ∀ handle, ¬ Restarts handle entry) :
    (r.noteChanges (changesOf entry)).Accounted (log ++ [entry]) := by
  refine h.entry hnone (h.distinct.noteChanges _) ?_ ?_
  · unfold Registry.noteChanges
    split
    · rfl
    · rfl
  · intro t ht
    rw [subscribers_noteChanges, List.mem_map] at ht
    obtain ⟨u, hu, rfl⟩ := ht
    exact (h.tells u hu).append (hentry u.handle)

theorem Accounted.remove (h : r.Accounted log) (handle : UInt32) (known : Bool) :
    (r.remove handle).2.Accounted (log ++ [(.unsubscribe handle, .removed known)]) := by
  refine h.entry rfl (h.distinct.remove handle) (nextHandle_remove r handle) ?_
  intro t ht
  -- The account of a handle outlives its subscriber, so whoever is left needs nothing new.
  have htold := h.tells t ((mem_remove h.distinct).1 ht).1
  exact htold.keep (not_restarts nofun nofun) rfl

theorem Accounted.markReported (h : r.Accounted log) (handle : UInt32) (now : UInt64) :
    (r.markReported handle now).Accounted (log ++ [(.markReported handle now, .done)]) := by
  refine h.entry rfl (h.distinct.markReported handle now) rfl ?_
  intro t ht
  rw [subscribers_markReported h.distinct, List.mem_map] at ht
  obtain ⟨u, hu, rfl⟩ := ht
  by_cases hhandle : u.handle = handle
  · rw [if_pos hhandle, ← hhandle]
    exact (h.tells u hu).reported now .done
  · rw [if_neg hhandle]
    refine (h.tells u hu).keep (not_restarts nofun ?_) rfl
    intro _ he
    exact hhandle (Call.markReported.inj he).1.symm

theorem Accounted.enroll (h : r.Accounted log) (hfew : log.registered.length < UInt32.size)
    {d : Destination} (hnew : d ∉ r.destinations) (address : String) (port : UInt16) :
    (r.enroll d).Accounted (log ++ [(.subscribe address port, .registered r.nextHandle)]) := by
  have hfresh := h.nextHandle_not_mem hfew
  have hregistered : Log.registered (log ++ [(.subscribe address port, .registered r.nextHandle)]) =
      log.registered ++ [r.nextHandle] := by
    rw [Log.registered_append]
    rfl
  refine ⟨h.distinct.enroll (h.nextHandle_not_mem_handles hfew) hnew, ?_, ?_, ?_⟩
  · rw [hregistered, List.length_append, List.length_singleton, UInt32.ofNat_add, ← h.nextHandle]
    rfl
  · rw [hregistered, List.length_append, List.length_singleton, List.range_succ, List.map_append,
      ← h.registered, List.map_singleton, ← h.nextHandle]
  · intro t ht
    rcases List.mem_append.1 ht with ht | ht
    · refine (h.tells t ht).keep (not_restarts ?_ nofun) rfl
      intro he
      exact hfresh (Answer.registered.inj he ▸ (h.tells t ht).handle_mem)
    · rw [List.mem_singleton.1 ht]
      exact Log.tells_registered log _ r.nextHandle d

end Registry

/-- The attributes keep their limits, and the log tells how often they changed. -/
structure Snapshot.Accounted (s : Snapshot) (log : Log) : Prop where
  fan_le : s.fan.toNat ≤ 100
  temperature_le : s.temperature.toNat ≤ 500
  version : s.version = UInt32.ofNat log.changeCount

namespace Snapshot

variable {s : Snapshot} {log : Log}

/-- An entry that tells of no change. -/
theorem Accounted.entry (h : s.Accounted log) {entry : Call × Answer}
    (hnone : Log.changeCount [entry] = 0) : s.Accounted (log ++ [entry]) := by
  refine ⟨h.fan_le, h.temperature_le, ?_⟩
  rw [Log.changeCount_append, hnone, Nat.add_zero, h.version]

theorem Accounted.update (h : s.Accounted log) (r : Reading) (now : UInt64) (call : Call) :
    (s.update r now).Accounted (log ++ [(call, .wrote ((s.update r now).changesSince s))]) := by
  constructor
  · rw [fan_update]
    exact Nat.min_le_right _ _
  · rw [temperature_update]
    exact Nat.min_le_right _ _
  · have hcount : Log.changeCount [(call, .wrote ((s.update r now).changesSince s))] =
        if ((s.update r now).changesSince s).isEmpty then 0 else 1 := by
      cases hempty : ((s.update r now).changesSince s).isEmpty <;>
        simp [Log.changeCount, hempty]
    rw [version_update, Log.changeCount_append, hcount, h.version]
    split
    · rfl
    · exact (UInt32.ofNat_add _ _).symm

end Snapshot

namespace Store

structure Accounted (s : Store) (log : Log) : Prop where
  snapshot : s.snapshot.Accounted log
  registry : s.registry.Accounted log

variable {s : Store} {log : Log}

theorem accounted_start (now : UInt64) : (startingAt now).Accounted [] :=
  ⟨⟨Nat.zero_le _, Nat.zero_le _, rfl⟩, Registry.accounted_empty⟩

/-- A write is noted for every subscriber. -/
theorem Accounted.write (h : s.Accounted log) (r : Reading) {call : Call}
    (hcall : ∀ handle now, call ≠ .markReported handle now) :
    (s.write r).2.Accounted (log ++ [(call, .wrote (s.write r).1)]) := by
  refine ⟨h.snapshot.update r s.now call, ?_⟩
  exact h.registry.noteChanges (call, .wrote (s.write r).1) rfl
    (fun handle => not_restarts nofun (hcall handle))

/-- A call that touches neither the attributes nor the subscribers. -/
theorem Accounted.keep (h : s.Accounted log) {entry : Call × Answer} (now : UInt64)
    (isStale : Bool) (hcount : Log.changeCount [entry] = 0) (hnone : Log.registered [entry] = [])
    (hchanges : changesOf entry = Changes.none) (hentry : ∀ handle, ¬ Restarts handle entry) :
    Accounted { s with now, isStale } (log ++ [entry]) := by
  have hregistry := h.registry.noteChanges entry hnone hentry
  rw [hchanges] at hregistry
  exact ⟨h.snapshot.entry hcount, hregistry⟩

/-- The mark of stale attributes plays no part. -/
theorem Accounted.of_isStale (h : s.Accounted log) (isStale : Bool) :
    Accounted { s with isStale } log := ⟨h.snapshot, h.registry⟩

theorem Accounted.apply (h : s.Accounted log) (r : Reading) :
    (s.answer (.apply r)).2.Accounted (log ++ [(.apply r, (s.answer (.apply r)).1)]) := by
  cases hvalid : r.valid with
  | false =>
    rw [s.answer_apply_invalid hvalid]
    exact h.keep s.now s.isStale rfl rfl rfl (fun _ => not_restarts nofun nofun)
  | true =>
    rw [s.answer_apply_valid hvalid]
    exact (h.of_isStale false).write r nofun

theorem Accounted.expire (h : s.Accounted log) (timeout : UInt64) :
    (s.answer (.expire timeout)).2.Accounted
      (log ++ [(.expire timeout, (s.answer (.expire timeout)).1)]) := by
  rw [answer_expire]
  split
  · exact h.keep s.now s.isStale rfl rfl rfl (fun _ => not_restarts nofun nofun)
  · exact (h.of_isStale true).write Reading.silent nofun

theorem Accounted.subscribe (h : s.Accounted log) (hfew : log.registered.length < UInt32.size)
    (address : String) (port : UInt16) :
    (s.answer (.subscribe address port)).2.Accounted
      (log ++ [(.subscribe address port, (s.answer (.subscribe address port)).1)]) := by
  cases hadd : s.registry.add address port with
  | error e =>
    rw [s.answer_subscribe_error hadd]
    exact h.keep s.now s.isStale rfl rfl rfl (fun _ => not_restarts nofun nofun)
  | ok added =>
    rw [s.answer_subscribe_ok hadd]
    obtain ⟨d, _, ⟨t, ht, _, hhandle, hsame⟩ | ⟨hnew, _, hhandle, hnext⟩⟩ := Registry.add_ok hadd
    · have hknown : added.1 ∈ s.registry.handles := hhandle ▸ List.mem_map_of_mem ht
      rw [if_pos hknown, hsame]
      exact h.keep s.now s.isStale rfl rfl rfl (fun _ => not_restarts nofun nofun)
    · have hunknown : added.1 ∉ s.registry.handles :=
        hhandle ▸ h.registry.nextHandle_not_mem_handles hfew
      rw [if_neg hunknown, hhandle, hnext]
      exact ⟨h.snapshot.entry rfl, h.registry.enroll hfew hnew address port⟩

/-- Every call leaves the store accounted for by the longer log. -/
theorem Accounted.answer (h : s.Accounted log) (hfew : log.registered.length < UInt32.size)
    (call : Call) : (s.answer call).2.Accounted (log ++ [(call, (s.answer call).1)]) := by
  cases call with
  | apply r => exact h.apply r
  | expire timeout => exact h.expire timeout
  | subscribe address port => exact h.subscribe hfew address port
  | unsubscribe handle => exact ⟨h.snapshot.entry rfl, h.registry.remove handle _⟩
  | noteChanges changes =>
    have hregistry := h.registry.noteChanges (.noteChanges changes, .done) rfl
      (fun _ => not_restarts nofun nofun)
    exact ⟨h.snapshot.entry rfl, hregistry⟩
  | markReported handle now => exact ⟨h.snapshot.entry rfl, h.registry.markReported handle now⟩
  | setClock now =>
    exact h.keep now s.isStale rfl rfl rfl (fun _ => not_restarts nofun nofun)
  | advance elapsed =>
    exact h.keep (s.now + elapsed) s.isStale rfl rfl rfl (fun _ => not_restarts nofun nofun)

namespace Session

theorem run_concat (s : Session) (calls : List Call) (call : Call) :
    s.run (calls ++ [call]) = (s.run calls).step call := List.foldl_concat ..

/-- A call takes no handle back that was given out. -/
theorem length_registered_step (s : Session) (call : Call) :
    s.log.registered.length ≤ (s.step call).log.registered.length := by
  rw [step, Log.registered_append, List.length_append]
  exact Nat.le_add_right _ _

/-- What holds at the start, and is kept by every call as long as the handles do not go round,
holds behind any calls that give out so few of them. -/
theorem run_keeps {P : Store → Log → Prop} (now : UInt64) (hstart : P (startingAt now) [])
    (hstep : ∀ s log call, log.registered.length < UInt32.size → P s log →
      P (s.answer call).2 (log ++ [(call, (s.answer call).1)]))
    (calls : List Call) (hfew : ((start now).run calls).log.registered.length < UInt32.size) :
    P ((start now).run calls).store ((start now).run calls).log := by
  induction calls using List.reverseRecOn with
  | nil => exact hstart
  | append_singleton calls call ih =>
    rw [run_concat] at hfew ⊢
    -- The bound is on the whole run; what it gives for the calls so far is what a step needs.
    have hbefore := Nat.lt_of_le_of_lt (length_registered_step _ call) hfew
    exact hstep _ _ call hbefore (ih hbefore)

theorem accounted_run (now : UInt64) (calls : List Call)
    (hfew : ((start now).run calls).log.registered.length < UInt32.size) :
    ((start now).run calls).store.Accounted ((start now).run calls).log :=
  run_keeps now (accounted_start now) (fun _ _ call hfew h => h.answer hfew call) calls hfew

end Session

/-- These changes are the attributes in which the snapshots differ, and the later one has these
values, written at `now`. -/
structure Wrote (previous next : Snapshot) (now : UInt64) (changes : Changes) (flame : Bool)
    (fan temperature : Nat) : Prop where
  flame_changed : changes.flame = true ↔ next.flame ≠ previous.flame
  fan_changed : changes.fan = true ↔ next.fan ≠ previous.fan
  temperature_changed : changes.temperature = true ↔ next.temperature ≠ previous.temperature
  flame : next.flame = flame
  fan : next.fan.toNat = fan
  temperature : next.temperature.toNat = temperature
  updatedAt : next.updatedAt = now

theorem wrote_update (previous : Snapshot) (r : Reading) (now : UInt64) :
    Wrote previous (previous.update r now) now ((previous.update r now).changesSince previous)
      r.flame (min r.fan.toNat 100) (min r.temperature.toInt.toNat 500) where
  flame_changed := bne_iff_ne
  fan_changed := bne_iff_ne
  temperature_changed := bne_iff_ne
  flame := previous.flame_update r now
  fan := previous.fan_update r now
  temperature := previous.temperature_update r now
  updatedAt := previous.updatedAt_update r now

/-- After any calls on a fresh store, as long as the handles do not go round: the attributes keep
their limits, and the version counts the writes that changed one. No handle was given out twice;
when a subscriber was last told something, and what it is still to be told, is what the log tells.
A valid reading leaves its values, cut to their limits, and clearing the attributes leaves zeros,
each with the time of the call and an answer that names what differs from before. An invalid
reading, and a call to clear what was cleared already or written too recently, leave everything
as it was. -/
theorem log_tells_store (now : UInt64) (calls : List Call)
    (hfew : ((Session.start now).run calls).log.registered.length < UInt32.size) :
    let s := ((Session.start now).run calls).store
    let log := ((Session.start now).run calls).log
    (s.snapshot.fan.toNat ≤ 100 ∧ s.snapshot.temperature.toNat ≤ 500) ∧
      s.snapshot.version = UInt32.ofNat log.changeCount ∧
      (log.registered.Nodup ∧
        ∀ t ∈ s.registry.subscribers, t.handle ∈ log.registered ∧ log.Tells t) ∧
      (∀ r : Reading, r.valid = true → ∃ changes next,
        s.answer (.apply r) = (.wrote changes, next) ∧
          Wrote s.snapshot next.snapshot s.now changes r.flame (min r.fan.toNat 100)
            (min r.temperature.toInt.toNat 500)) ∧
      (∀ r : Reading, r.valid = false → s.answer (.apply r) = (.ignored, s)) ∧
      (∀ timeout : UInt64,
        if s.isStale = true ∨ s.now.toNat - s.snapshot.updatedAt.toNat < timeout.toNat then
          s.answer (.expire timeout) = (.ignored, s)
        else ∃ changes next, s.answer (.expire timeout) = (.wrote changes, next) ∧
          Wrote s.snapshot next.snapshot s.now changes false 0 0) := by
  intro s log
  have h : s.Accounted log := Session.accounted_run now calls hfew
  refine ⟨⟨h.snapshot.fan_le, h.snapshot.temperature_le⟩, h.snapshot.version,
    ⟨h.registry.nodup_registered hfew, ?_⟩, ?_, ?_, ?_⟩
  · intro t ht
    have htold := h.registry.tells t ht
    exact ⟨htold.handle_mem, htold⟩
  · intro r hvalid
    exact ⟨_, _, s.answer_apply_valid hvalid, wrote_update s.snapshot r s.now⟩
  · intro r hinvalid
    exact s.answer_apply_invalid hinvalid
  · intro timeout
    have hkept : (s.isStale || decide (s.age < timeout.toNat)) = true ↔
        s.isStale = true ∨ s.now.toNat - s.snapshot.updatedAt.toNat < timeout.toNat := by
      rw [Bool.or_eq_true, decide_eq_true_iff, age]
    split
    · rename_i hquiet
      rw [answer_expire, if_pos (hkept.2 hquiet)]
    · rename_i hdue
      rw [answer_expire, if_neg (fun hquiet => hdue (hkept.1 hquiet))]
      exact ⟨_, _, rfl, wrote_update s.snapshot Reading.silent s.now⟩

/-- Of two subscribers one has gone, and the other was reported to between two writes. -/
theorem log_tells_store_reported :
    let s := (Session.start 5).run [.subscribe "10.0.0.1" 5540, .subscribe " 10.0.0.2 " 5540,
      .apply ⟨true, 30, 80, 0, true⟩, .unsubscribe 0, .markReported 1 7,
      .apply ⟨true, 130, 80, 0, true⟩]
    s.log.registered = [0, 1] ∧
      s.store.registry.subscribers =
        [⟨1, ⟨⟨10, 0, 0, 2⟩, 5540⟩, some 7, ⟨false, true, false⟩⟩] ∧
      (∀ t ∈ s.store.registry.subscribers, t.handle ∈ s.log.registered ∧ s.log.Tells t) ∧
      s.store.snapshot.version = UInt32.ofNat s.log.changeCount := by
  intro s
  have hregistered : s.log.registered = [0, 1] := by decide +kernel
  have hfew : s.log.registered.length < UInt32.size := by
    rw [hregistered]
    decide
  have h := log_tells_store 5 _ hfew
  exact ⟨hregistered, by decide +kernel, h.2.2.1.2, h.2.1⟩

end Store

end BurnerTelemetry.Attribute
