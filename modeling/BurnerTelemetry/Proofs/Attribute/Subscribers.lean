import BurnerTelemetry.Attribute.Store
import Mathlib.Data.List.Nodup
import Mathlib.Data.List.Perm.Basic

/-!
What keeps subscribers apart. Handles and destinations are pairwise different once targets have
been registered, so a handle or a destination names one subscriber, and nothing that happens to
the attributes or the reports mixes two of them up.
-/
namespace BurnerTelemetry.Attribute

/-- In a list without repeated keys the first element with a key is the only one. -/
theorem modify_findIdx_key {α κ : Type} [BEq κ] [LawfulBEq κ] [DecidableEq κ] {key : α → κ}
    {l : List α} (h : (l.map key).Nodup) (k : κ) (f : α → α) :
    l.modify (l.findIdx (fun a => key a == k)) f =
      l.map (fun a => if key a = k then f a else a) := by
  induction l with
  | nil => rfl
  | cons a rest ih =>
    obtain ⟨hnotIn, hrest⟩ := List.nodup_cons.1 h
    by_cases ha : key a = k
    · have hothers : rest.map (fun b => if key b = k then f b else b) = rest.map id := by
        apply List.map_congr_left
        intro b hb
        have hne : key b ≠ k := fun he => hnotIn (List.mem_map.2 ⟨b, hb, he.trans ha.symm⟩)
        exact if_neg hne
      have hfirst : (key a == k) = true := beq_iff_eq.2 ha
      simp only [List.findIdx_cons, hfirst, cond_true, List.modify_zero_cons, List.map_cons,
        if_pos ha, hothers, List.map_id]
    · have hfirst : (key a == k) = false := beq_eq_false_iff_ne.2 ha
      simp only [List.findIdx_cons, hfirst, cond_false, List.modify_succ_cons, List.map_cons,
        if_neg ha, ih hrest]

/-- Taking the first element with a key out takes all of them out. -/
theorem eraseP_key {α κ : Type} [BEq κ] [LawfulBEq κ] {key : α → κ} {l : List α}
    (h : (l.map key).Nodup) (k : κ) :
    l.eraseP (fun a => key a == k) = l.filter (fun a => key a != k) := by
  induction l with
  | nil => rfl
  | cons a rest ih =>
    obtain ⟨hnotIn, hrest⟩ := List.nodup_cons.1 h
    by_cases ha : key a = k
    · have hkept : ∀ b ∈ rest, (key b != k) = true := by
        intro b hb
        have hne : key b ≠ k := fun he => hnotIn (List.mem_map.2 ⟨b, hb, he.trans ha.symm⟩)
        exact bne_iff_ne.2 hne
      have hfirst : (key a == k) = true := beq_iff_eq.2 ha
      have hgone : (key a != k) = false := bne_eq_false_iff_eq.2 ha
      simp only [List.eraseP_cons, hfirst, cond_true, List.filter_cons, hgone, Bool.false_eq_true,
        if_false, List.filter_eq_self.2 hkept]
    · have hfirst : (key a == k) = false := beq_eq_false_iff_ne.2 ha
      have hkept : (key a != k) = true := bne_iff_ne.2 ha
      simp only [List.eraseP_cons, hfirst, cond_false, List.filter_cons, hkept, if_true, ih hrest]

/-- The subscriber behind a report at `now`. -/
def Subscriber.reported (s : Subscriber) (now : UInt64) : Subscriber :=
  { s with reportedAt := some now, pending := Changes.none }

@[simp] theorem Subscriber.reported_handle (s : Subscriber) (now : UInt64) :
    (s.reported now).handle = s.handle := rfl
@[simp] theorem Subscriber.reported_destination (s : Subscriber) (now : UInt64) :
    (s.reported now).destination = s.destination := rfl

theorem Subscriber.isDue_iff {t : Subscriber} {now interval : UInt64} :
    t.isDue now interval = true ↔ t.pending ≠ Changes.none ∧
      (t.reportedAt = none ∨
        ∃ last, t.reportedAt = some last ∧ interval.toNat ≤ now.toNat - last.toNat) := by
  have hpending : (!t.pending.isEmpty) = true ↔ t.pending ≠ Changes.none := by
    rw [Bool.not_eq_true', ← Bool.not_eq_true, Changes.isEmpty_iff]
  unfold isDue
  rw [Bool.and_eq_true, hpending]
  cases t.reportedAt with
  | none => simp
  | some last => simp

/-- A report changes nothing that tells subscribers apart. -/
theorem map_key_reported {κ : Type} {key : Subscriber → κ}
    (hkey : ∀ s now, key (Subscriber.reported s now) = key s) (p : Subscriber → Prop)
    [DecidablePred p] (l : List Subscriber) (now : UInt64) :
    (l.map (fun s => if p s then s.reported now else s)).map key = l.map key := by
  rw [List.map_map]
  apply List.map_congr_left
  intro s _
  by_cases hs : p s
  · simp only [Function.comp_apply, if_pos hs, hkey]
  · simp only [Function.comp_apply, if_neg hs]

namespace Registry

def handles (r : Registry) : List UInt32 := r.subscribers.map (fun s => s.handle)

def destinations (r : Registry) : List Destination := r.subscribers.map (fun s => s.destination)

/-- A handle or a destination names at most one subscriber. -/
structure Distinct (r : Registry) : Prop where
  handles : r.handles.Nodup
  destinations : r.destinations.Nodup

/-- Changes are noted for every subscriber. -/
theorem subscribers_noteChanges (r : Registry) (changes : Changes) :
    (r.noteChanges changes).subscribers =
      r.subscribers.map (fun s => { s with pending := s.pending.union changes }) := by
  by_cases hempty : changes.isEmpty
  · have hsame : r.subscribers.map (fun s => { s with pending := s.pending.union changes }) =
        r.subscribers := by
      apply List.map_id''
      intro s
      rw [(Changes.isEmpty_iff changes).1 hempty, Changes.union_none]
    rw [noteChanges, if_pos hempty, hsame]
  · rw [noteChanges, if_neg hempty]

@[simp] theorem handles_noteChanges (r : Registry) (changes : Changes) :
    (r.noteChanges changes).handles = r.handles := by
  rw [handles, subscribers_noteChanges, List.map_map]
  rfl

@[simp] theorem destinations_noteChanges (r : Registry) (changes : Changes) :
    (r.noteChanges changes).destinations = r.destinations := by
  rw [destinations, subscribers_noteChanges, List.map_map]
  rfl

theorem Distinct.noteChanges {r : Registry} (h : r.Distinct) (changes : Changes) :
    (r.noteChanges changes).Distinct := by
  constructor
  · rw [handles_noteChanges]
    exact h.handles
  · rw [destinations_noteChanges]
    exact h.destinations

/-- A report is marked for the subscriber of the handle and for no other. -/
theorem subscribers_markReported {r : Registry} (h : r.Distinct) (handle : UInt32)
    (now : UInt64) :
    (r.markReported handle now).subscribers =
      r.subscribers.map (fun s => if s.handle = handle then s.reported now else s) :=
  modify_findIdx_key h.handles handle (fun s => s.reported now)

theorem handles_markReported {r : Registry} (h : r.Distinct) (handle : UInt32) (now : UInt64) :
    (r.markReported handle now).handles = r.handles := by
  rw [handles, subscribers_markReported h, map_key_reported Subscriber.reported_handle]
  rfl

theorem destinations_markReported {r : Registry} (h : r.Distinct) (handle : UInt32)
    (now : UInt64) : (r.markReported handle now).destinations = r.destinations := by
  rw [destinations, subscribers_markReported h, map_key_reported Subscriber.reported_destination]
  rfl

theorem Distinct.markReported {r : Registry} (h : r.Distinct) (handle : UInt32) (now : UInt64) :
    (r.markReported handle now).Distinct := by
  constructor
  · rw [handles_markReported h]
    exact h.handles
  · rw [destinations_markReported h]
    exact h.destinations

/-- The registry with one more subscriber, who takes the next handle. -/
def enroll (r : Registry) (d : Destination) : Registry :=
  ⟨r.subscribers ++ [⟨r.nextHandle, d, none, Changes.none⟩], r.nextHandle + 1⟩

/-- A registration answers the handle of the destination if it is known, and enrolls it if it is
not and there is room. -/
theorem add_ok {r next : Registry} {handle : UInt32} {address : String} {port : UInt16}
    (hadd : r.add address port = .ok (handle, next)) :
    ∃ d, destination address port = .ok d ∧
      ((∃ s ∈ r.subscribers, s.destination = d ∧ s.handle = handle ∧ next = r) ∨
        (d ∉ r.destinations ∧ r.subscribers.length < capacity ∧ handle = r.nextHandle ∧
          next = r.enroll d)) := by
  unfold add at hadd
  split at hadd
  · cases hadd
  rename_i d hd
  refine ⟨d, hd, ?_⟩
  split at hadd
  · rename_i known hknown
    cases hadd
    exact .inl ⟨known, List.mem_of_find?_eq_some hknown,
      of_decide_eq_true (List.find?_some hknown :), rfl, rfl⟩
  rename_i hunknown
  split at hadd
  · cases hadd
    refine .inr ⟨?_, ‹_›, rfl, rfl⟩
    intro hm
    obtain ⟨s, hs, he⟩ := List.mem_map.1 hm
    exact List.find?_eq_none.1 hunknown s hs (decide_eq_true he)
  · cases hadd

theorem Distinct.enroll {r : Registry} (h : r.Distinct) {d : Destination}
    (hhandle : r.nextHandle ∉ r.handles) (hnew : d ∉ r.destinations) : (r.enroll d).Distinct := by
  constructor
  · rw [Registry.handles, Registry.enroll, List.map_append]
    exact List.nodup_append_comm.1 (List.nodup_cons.2 ⟨hhandle, h.handles⟩)
  · rw [Registry.destinations, Registry.enroll, List.map_append]
    exact List.nodup_append_comm.1 (List.nodup_cons.2 ⟨hnew, h.destinations⟩)

/-- The last element stands where the one at `i` stood, so the others are all there. -/
theorem swapRemove_perm {l : List α} {i : Nat} (h : i < l.length) :
    (swapRemove l i).Perm (l.eraseIdx i) := by
  rcases List.eq_nil_or_concat l with rfl | ⟨front, last, rfl⟩
  · exact absurd h (Nat.not_lt_zero i)
  · rw [List.concat_eq_append] at h ⊢
    have hswap : swapRemove (front ++ [last]) i = ((front ++ [last]).set i last).dropLast := by
      rw [swapRemove, List.getLast?_concat]
    rw [hswap]
    by_cases hi : i < front.length
    · rw [List.set_append_left _ _ hi, List.dropLast_concat, List.eraseIdx_append_of_lt_length hi]
      exact (List.set_perm_cons_eraseIdx hi last).trans (List.perm_append_singleton last _).symm
    · rw [List.length_append, List.length_singleton] at h
      have hlast : i = front.length := by omega
      rw [hlast, List.set_append_right _ _ (Nat.le_refl _),
        List.eraseIdx_append_of_length_le (Nat.le_refl _), Nat.sub_self]
      simp

@[simp] theorem nextHandle_remove (r : Registry) (handle : UInt32) :
    (r.remove handle).2.nextHandle = r.nextHandle := by
  unfold remove
  split
  · rfl
  · rfl

/-- A removal takes out the subscriber of the handle and leaves the others as they are, though
not in their places. -/
theorem subscribers_remove {r : Registry} (h : r.Distinct) (handle : UInt32) :
    (r.remove handle).2.subscribers.Perm
      (r.subscribers.filter (fun s => s.handle != handle)) := by
  rw [← eraseP_key h.handles, List.eraseP_eq_eraseIdx]
  unfold remove
  split
  · rename_i i hi
    rw [hi]
    exact swapRemove_perm (List.findIdx?_eq_some_iff_getElem.1 hi).1
  · rename_i hnone
    rw [hnone]

theorem mem_remove {r : Registry} (h : r.Distinct) {handle : UInt32} {s : Subscriber} :
    s ∈ (r.remove handle).2.subscribers ↔ s ∈ r.subscribers ∧ s.handle ≠ handle := by
  rw [(subscribers_remove h handle).mem_iff, List.mem_filter, bne_iff_ne]

theorem Distinct.remove {r : Registry} (h : r.Distinct) (handle : UInt32) :
    (r.remove handle).2.Distinct := by
  constructor
  · exact ((subscribers_remove h handle).map _).nodup_iff.2
      ((List.filter_sublist.map _).nodup h.handles)
  · exact ((subscribers_remove h handle).map _).nodup_iff.2
      ((List.filter_sublist.map _).nodup h.destinations)

/-- Targets have been registered, and nothing has happened to their subscribers since. -/
structure Registered (r : Registry) : Prop where
  distinct : r.Distinct
  nextHandle : r.nextHandle.toNat = r.subscribers.length
  room : r.subscribers.length ≤ capacity
  handle_lt : ∀ s ∈ r.subscribers, s.handle.toNat < r.subscribers.length
  reportedAt : ∀ s ∈ r.subscribers, s.reportedAt = none
  pending : ∀ s ∈ r.subscribers, s.pending = Changes.none

theorem registered_empty : empty.Registered :=
  ⟨⟨List.nodup_nil, List.nodup_nil⟩, rfl, by decide, fun _ h => absurd h List.not_mem_nil,
    fun _ h => absurd h List.not_mem_nil, fun _ h => absurd h List.not_mem_nil⟩

theorem Registered.enroll {r : Registry} (h : r.Registered) {d : Destination}
    (hnew : d ∉ r.destinations) (hroom : r.subscribers.length < capacity) :
    (r.enroll d).Registered := by
  have hnext : (r.nextHandle + 1).toNat = r.subscribers.length + 1 := by
    have hcapacity : capacity = 4 := rfl
    rw [UInt32.toNat_add, h.nextHandle]
    simp only [UInt32.toNat_one]
    omega
  have hfresh : r.nextHandle ∉ r.handles := by
    intro hm
    obtain ⟨s, hs, he⟩ := List.mem_map.1 hm
    have hlt := h.handle_lt s hs
    rw [he, h.nextHandle] at hlt
    exact Nat.lt_irrefl _ hlt
  have hlength : (r.enroll d).subscribers.length = r.subscribers.length + 1 :=
    List.length_append
  constructor
  · exact h.distinct.enroll hfresh hnew
  · exact hnext.trans hlength.symm
  · exact hlength.symm ▸ hroom
  · intro s hs
    rw [hlength]
    rcases List.mem_append.1 hs with hs | hs
    · exact Nat.lt_succ_of_lt (h.handle_lt s hs)
    · rw [List.mem_singleton.1 hs, h.nextHandle]
      exact Nat.lt_succ_self _
  · intro s hs
    rcases List.mem_append.1 hs with hs | hs
    · exact h.reportedAt s hs
    · rw [List.mem_singleton.1 hs]
  · intro s hs
    rcases List.mem_append.1 hs with hs | hs
    · exact h.pending s hs
    · rw [List.mem_singleton.1 hs]

theorem Registered.add {r next : Registry} {handle : UInt32} {address : String} {port : UInt16}
    (h : r.Registered) (hadd : r.add address port = .ok (handle, next)) : next.Registered := by
  obtain ⟨d, _, ⟨_, _, _, _, rfl⟩ | ⟨hnew, hroom, _, rfl⟩⟩ := add_ok hadd
  · exact h
  · exact h.enroll hnew hroom

end Registry

namespace Store

/-- Registers a target if it can be registered. -/
def trySubscribe (s : Store) (target : String × UInt16) : Store :=
  match s.subscribe target.1 target.2 with
  | .ok (_, next) => next
  | .error _ => s

/-- A fresh store at which targets have been registered. -/
def withTargets (now : UInt64) (targets : List (String × UInt16)) : Store :=
  targets.foldl trySubscribe (startingAt now)

/-- A registration changes the registry alone. -/
theorem trySubscribe_eq (s : Store) (target : String × UInt16) :
    ∃ registry, s.trySubscribe target = { s with registry } ∧
      (s.registry.Registered → registry.Registered) := by
  cases hadd : s.registry.add target.1 target.2 with
  | error e =>
    refine ⟨s.registry, ?_, id⟩
    rw [trySubscribe, subscribe, hadd]
    rfl
  | ok added =>
    refine ⟨added.2, ?_, fun h => h.add hadd⟩
    rw [trySubscribe, subscribe, hadd]
    rfl

theorem trySubscribe_foldl (s : Store) (h : s.registry.Registered)
    (targets : List (String × UInt16)) :
    ∃ registry, targets.foldl trySubscribe s = { s with registry } ∧ registry.Registered := by
  induction targets generalizing s with
  | nil => exact ⟨s.registry, rfl, h⟩
  | cons target rest ih =>
    obtain ⟨registry, hstore, hkeep⟩ := trySubscribe_eq s target
    obtain ⟨final, hfinal, hregistered⟩ := ih { s with registry } (hkeep h)
    refine ⟨final, ?_, hregistered⟩
    rw [List.foldl_cons, hstore, hfinal]

/-- However many targets were offered, those that are registered have their own handles and
destinations, and nothing is left to tell them. -/
theorem withTargets_eq (now : UInt64) (targets : List (String × UInt16)) :
    ∃ registry, withTargets now targets = { startingAt now with registry } ∧
      registry.Registered :=
  trySubscribe_foldl (startingAt now) Registry.registered_empty targets

end Store

end BurnerTelemetry.Attribute
