import BurnerTelemetry.Proofs.Attribute.StoreCalls
import BurnerTelemetry.Proofs.Text.DottedQuad

/-!
Registrations and removals in any order. There are never more subscribers than there is room for,
each at a destination of its own; a handle names one subscriber for good, so once its subscriber is
removed it names nobody, and nobody gets it again.
-/
namespace BurnerTelemetry.Attribute

namespace Registry

/-- A port and the written form of an address, which blanks may surround, name a destination. -/
theorem destination_ok_iff {address : String} {port : UInt16} {d : Destination} :
    destination address port = .ok d ↔
      port ≠ 0 ∧ Text.trim address.toList = d.address.render.toList ∧ d.port = port := by
  rw [← Text.DottedQuad.ofChars?_eq_some_iff]
  unfold destination
  by_cases hport : port = 0
  · simp [hport]
  · cases hquad : Text.DottedQuad.ofChars? (Text.trim address.toList) with
    | none => simp [hport]
    | some quad =>
      obtain ⟨quad', port'⟩ := d
      simp [hport, eq_comm]

theorem destination_zero (address : String) : destination address 0 = .error .zeroPort := if_pos rfl

/-- Any other text is refused, if the port is not. -/
theorem destination_of_unwritten {address : String} {port : UInt16} (hport : port ≠ 0)
    (h : ∀ quad : Text.DottedQuad, Text.trim address.toList ≠ quad.render.toList) :
    destination address port = .error (.invalidAddress address) := by
  unfold destination
  rw [if_neg hport]
  cases hquad : Text.DottedQuad.ofChars? (Text.trim address.toList) with
  | none => rfl
  | some quad => exact absurd (Text.DottedQuad.ofChars?_eq_some_iff.1 hquad) (h quad)

variable {r : Registry} {address : String} {port : UInt16} {d : Destination}

theorem add_of_error {e : RegistryError} (h : destination address port = .error e) :
    r.add address port = .error e := by
  rw [add, h]

/-- A destination that is known answers its handle, however full the registry is. -/
theorem add_known (h : r.Distinct) {t : Subscriber} (ht : t ∈ r.subscribers)
    (hd : destination address port = .ok t.destination) :
    r.add address port = .ok (t.handle, r) := by
  cases hfind : r.subscribers.find? (fun s => decide (s.destination = t.destination)) with
  | none => exact absurd (decide_eq_true rfl) (List.find?_eq_none.1 hfind t ht)
  | some u =>
    have hu : u ∈ r.subscribers := List.mem_of_find?_eq_some hfind
    have hsame : u.destination = t.destination := of_decide_eq_true (List.find?_some hfind :)
    have hone : u = t := List.inj_on_of_nodup_map h.destinations hu ht hsame
    simp only [add, hd, hfind, hone]

/-- A destination that is not known is enrolled if there is room. -/
theorem add_unknown (hd : destination address port = .ok d) (hnew : d ∉ r.destinations) :
    r.add address port =
      if r.subscribers.length < capacity then .ok (r.nextHandle, r.enroll d) else .error .full := by
  have hnone : r.subscribers.find? (fun s => decide (s.destination = d)) = none := by
    rw [List.find?_eq_none]
    intro s hs hsame
    exact hnew (List.mem_map.2 ⟨s, hs, of_decide_eq_true hsame⟩)
  simp only [add, hd, hnone]
  rfl

theorem remove_unknown {handle : UInt32} (h : handle ∉ r.handles) :
    r.remove handle = (false, r) := by
  have hnone : r.subscribers.findIdx? (fun s => s.handle == handle) = none := by
    rw [List.findIdx?_eq_none_iff]
    intro s hs
    exact beq_eq_false_iff_ne.2 (fun he => h (List.mem_map.2 ⟨s, hs, he⟩))
  rw [remove, hnone]

theorem remove_known {handle : UInt32} (h : handle ∈ r.handles) :
    r.remove handle =
      (true, { r with subscribers := (r.remove handle).2.subscribers }) := by
  obtain ⟨t, ht, he⟩ := List.mem_map.1 h
  unfold remove
  split
  · rfl
  · rename_i hnone
    have hother := List.findIdx?_eq_none_iff.1 hnone t ht
    exact absurd he (beq_eq_false_iff_ne.1 hother)

theorem markReported_unknown (hr : r.Distinct) {handle : UInt32} (h : handle ∉ r.handles)
    (now : UInt64) : r.markReported handle now = r := by
  have hsame : r.subscribers.map (fun s => if s.handle = handle then s.reported now else s) =
      r.subscribers := by
    rw [List.map_congr_left (g := id), List.map_id]
    intro s hs
    exact if_neg (fun he => h (List.mem_map.2 ⟨s, hs, he⟩))
  have hsubscribers := (subscribers_markReported hr handle now).trans hsame
  exact congrArg (fun subscribers => { r with subscribers }) hsubscribers

end Registry

open Store (Call Answer Log)

/-- The handle was given out, and then its subscriber was removed. -/
def Store.Log.Removed (log : Log) (handle : UInt32) : Prop :=
  (.unsubscribe handle, .removed true) ∈ log

/-- There is room for all subscribers, each has a port, and a removed handle names none of them. -/
structure Registry.Settled (r : Registry) (log : Log) : Prop where
  room : r.subscribers.length ≤ capacity
  ports : ∀ d ∈ r.destinations, d.port ≠ 0
  removed : ∀ handle, log.Removed handle → handle ∈ log.registered ∧ handle ∉ r.handles

namespace Registry

variable {r next : Registry} {log : Log}

theorem settled_empty : empty.Settled [] :=
  ⟨Nat.zero_le _, fun _ h => absurd h List.not_mem_nil, fun _ h => absurd h List.not_mem_nil⟩

/-- An entry that removes nobody, whatever else it does to the handles, gives back none. -/
theorem Settled.entry (h : r.Settled log) {entry : Call × Answer}
    (hentry : ∀ handle, entry ≠ (.unsubscribe handle, .removed true))
    (hroom : next.subscribers.length ≤ capacity) (hports : ∀ d ∈ next.destinations, d.port ≠ 0)
    (hhandles : ∀ handle ∈ next.handles, handle ∈ r.handles ∨ handle ∉ log.registered) :
    next.Settled (log ++ [entry]) := by
  refine ⟨hroom, hports, ?_⟩
  intro handle hremoved
  rcases List.mem_append.1 hremoved with hremoved | hlast
  · obtain ⟨hregistered, hgone⟩ := h.removed handle hremoved
    refine ⟨?_, ?_⟩
    · rw [Log.registered_append]
      exact List.mem_append_left _ hregistered
    · intro hback
      rcases hhandles handle hback with hold | hfresh
      · exact hgone hold
      · exact hfresh hregistered
  · exact absurd (List.mem_singleton.1 hlast).symm (hentry handle)

/-- Nobody comes and nobody goes. -/
theorem Settled.same (h : r.Settled log) {entry : Call × Answer}
    (hentry : ∀ handle, entry ≠ (.unsubscribe handle, .removed true))
    (hhandles : next.handles = r.handles) (hdestinations : next.destinations = r.destinations) :
    next.Settled (log ++ [entry]) := by
  have hlength := congrArg List.length hhandles
  rw [handles, handles, List.length_map, List.length_map] at hlength
  refine h.entry hentry ?_ ?_ ?_
  · rw [hlength]
    exact h.room
  · rw [hdestinations]
    exact h.ports
  · rw [hhandles]
    exact fun _ hold => .inl hold

theorem Settled.remove (h : r.Settled log) (hr : r.Accounted log) (handle : UInt32) :
    (r.remove handle).2.Settled (log ++ [(.unsubscribe handle, .removed (r.remove handle).1)]) := by
  by_cases hknown : handle ∈ r.handles
  · have hperm := subscribers_remove hr.distinct handle
    have hsubset : ∀ t ∈ (r.remove handle).2.subscribers, t ∈ r.subscribers ∧ t.handle ≠ handle :=
      fun t ht => (mem_remove hr.distinct).1 ht
    have htrue : (r.remove handle).1 = true := congrArg Prod.fst (remove_known hknown)
    rw [htrue]
    refine ⟨?_, ?_, ?_⟩
    · rw [hperm.length_eq]
      exact Nat.le_trans (List.length_filter_le _ _) h.room
    · intro d hd
      obtain ⟨t, ht, rfl⟩ := List.mem_map.1 hd
      exact h.ports _ (List.mem_map_of_mem (hsubset t ht).1)
    · intro other hremoved
      rw [Log.registered_append]
      rcases List.mem_append.1 hremoved with hbefore | hlast
      · obtain ⟨hregistered, hgone⟩ := h.removed other hbefore
        refine ⟨List.mem_append_left _ hregistered, ?_⟩
        intro hback
        obtain ⟨t, ht, he⟩ := List.mem_map.1 hback
        exact hgone (List.mem_map.2 ⟨t, (hsubset t ht).1, he⟩)
      · have hsame : other = handle :=
          Call.unsubscribe.inj (congrArg Prod.fst (List.mem_singleton.1 hlast))
        obtain ⟨t, ht, he⟩ := List.mem_map.1 hknown
        rw [hsame]
        refine ⟨List.mem_append_left _ (he ▸ (hr.tells t ht).handle_mem), ?_⟩
        intro hback
        obtain ⟨u, hu, hback⟩ := List.mem_map.1 hback
        exact (hsubset u hu).2 hback
  · rw [remove_unknown hknown]
    exact h.same nofun rfl rfl

theorem Settled.enroll (h : r.Settled log) (hr : r.Accounted log)
    (hfew : log.registered.length < UInt32.size) {d : Destination} (hport : d.port ≠ 0)
    (hroom : r.subscribers.length < capacity) (call : Call) :
    (r.enroll d).Settled (log ++ [(call, .registered r.nextHandle)]) := by
  have hfresh := hr.nextHandle_not_mem hfew
  refine h.entry nofun ?_ ?_ ?_
  · rw [Registry.enroll, List.length_append, List.length_singleton]
    exact hroom
  · intro e he
    rw [destinations, Registry.enroll, List.map_append] at he
    rcases List.mem_append.1 he with he | he
    · exact h.ports e he
    · rw [List.mem_singleton.1 he]
      exact hport
  · intro handle hm
    rw [handles, Registry.enroll, List.map_append] at hm
    rcases List.mem_append.1 hm with hm | hm
    · exact .inl hm
    · rw [List.mem_singleton.1 hm]
      exact .inr hfresh

end Registry

namespace Store

variable {s : Store} {log : Log}

/-- What a registration answers is a handle in use or the next one. -/
theorem handle_of_subscribe {address : String} {port : UInt16} {handle : UInt32}
    (h : (s.answer (.subscribe address port)).1 = .registered handle ∨
      (s.answer (.subscribe address port)).1 = .known handle) :
    handle ∈ s.registry.handles ∨ handle = s.registry.nextHandle := by
  cases hadd : s.registry.add address port with
  | error e =>
    rw [s.answer_subscribe_error hadd] at h
    rcases h with h | h
    · cases h
    · cases h
  | ok added =>
    have hsame : handle = added.1 := by
      rw [s.answer_subscribe_ok hadd] at h
      by_cases hknown : added.1 ∈ s.registry.handles
      · simpa [hknown, eq_comm] using h
      · simpa [hknown, eq_comm] using h
    rw [hsame]
    obtain ⟨_, _, ⟨t, ht, _, hhandle, _⟩ | ⟨_, _, hhandle, _⟩⟩ := Registry.add_ok hadd
    · exact .inl (List.mem_map.2 ⟨t, ht, hhandle⟩)
    · exact .inr hhandle

theorem settled_subscribe (h : s.registry.Settled log) (hs : s.Accounted log)
    (hfew : log.registered.length < UInt32.size) (address : String) (port : UInt16) :
    (s.answer (.subscribe address port)).2.registry.Settled
      (log ++ [(.subscribe address port, (s.answer (.subscribe address port)).1)]) := by
  cases hadd : s.registry.add address port with
  | error e =>
    rw [s.answer_subscribe_error hadd]
    exact h.same nofun rfl rfl
  | ok added =>
    rw [s.answer_subscribe_ok hadd]
    obtain ⟨d, hd, ⟨t, ht, _, hhandle, hsame⟩ | ⟨_, hroom, hhandle, hnext⟩⟩ :=
      Registry.add_ok hadd
    · have hknown : added.1 ∈ s.registry.handles := hhandle ▸ List.mem_map_of_mem ht
      rw [if_pos hknown, hsame]
      exact h.same nofun rfl rfl
    · have hunknown : added.1 ∉ s.registry.handles :=
        hhandle ▸ hs.registry.nextHandle_not_mem_handles hfew
      obtain ⟨hport, _, hsame⟩ := Registry.destination_ok_iff.1 hd
      rw [if_neg hunknown, hhandle, hnext]
      exact h.enroll hs.registry hfew (hsame ▸ hport) hroom _

/-- A write leaves the subscribers where they are. -/
theorem settled_write (h : s.registry.Settled log) (r : Reading) {entry : Call × Answer}
    (hentry : ∀ handle, entry ≠ (.unsubscribe handle, .removed true)) :
    (s.write r).2.registry.Settled (log ++ [entry]) :=
  h.same hentry (Registry.handles_noteChanges _ _) (Registry.destinations_noteChanges _ _)

theorem settled_answer (h : s.registry.Settled log) (hs : s.Accounted log)
    (hfew : log.registered.length < UInt32.size) (call : Call) :
    (s.answer call).2.registry.Settled (log ++ [(call, (s.answer call).1)]) := by
  cases call with
  | apply r =>
    cases hvalid : r.valid with
    | false =>
      rw [s.answer_apply_invalid hvalid]
      exact h.same nofun rfl rfl
    | true =>
      rw [s.answer_apply_valid hvalid]
      exact settled_write (s := { s with isStale := false }) h r nofun
  | expire timeout =>
    rw [answer_expire]
    split
    · exact h.same nofun rfl rfl
    · exact settled_write (s := { s with isStale := true }) h Reading.silent nofun
  | subscribe address port => exact settled_subscribe h hs hfew address port
  | unsubscribe handle => exact h.remove hs.registry handle
  | noteChanges changes =>
    exact h.same nofun (Registry.handles_noteChanges _ _) (Registry.destinations_noteChanges _ _)
  | markReported handle now =>
    exact h.same nofun (Registry.handles_markReported hs.registry.distinct handle now)
      (Registry.destinations_markReported hs.registry.distinct handle now)
  | setClock now => exact h.same nofun rfl rfl
  | advance elapsed => exact h.same nofun rfl rfl

theorem Session.settled_run (now : UInt64) (calls : List Call)
    (hfew : ((start now).run calls).log.registered.length < UInt32.size) :
    ((start now).run calls).store.Accounted ((start now).run calls).log ∧
      ((start now).run calls).store.registry.Settled ((start now).run calls).log :=
  run_keeps (P := fun s log => s.Accounted log ∧ s.registry.Settled log) now
    ⟨accounted_start now, Registry.settled_empty⟩
    (fun _ _ call hfew h => ⟨h.1.answer hfew call, settled_answer h.2 h.1 hfew call⟩) calls hfew

/-- After any calls on a fresh store, as long as the handles do not go round: there are at most
four subscribers, each with a handle and a destination of its own. A handle whose subscriber was
removed names nobody, and nobody gets it again. An address and port that are registered, however
many blanks surround the address, answer their handle and change nothing; others are registered
under a handle that was never given out, exactly when there are fewer than four. A registration
that fails, for its port, then its address, then the room, changes nothing, and a removal takes out
the subscriber of its handle and leaves the others as they are. -/
theorem handles_name_for_good (now : UInt64) (calls : List Call)
    (hfew : ((Session.start now).run calls).log.registered.length < UInt32.size) :
    let s := ((Session.start now).run calls).store
    let log := ((Session.start now).run calls).log
    let subscribers := s.registry.subscribers
    (subscribers.length ≤ 4 ∧ (subscribers.map (fun t => t.destination)).Nodup ∧
        (subscribers.map (fun t => t.handle)).Nodup) ∧
      (∀ handle, log.Removed handle →
        (∀ t ∈ subscribers, t.handle ≠ handle) ∧
          s.answer (.unsubscribe handle) = (.removed false, s) ∧
          (∀ now, s.answer (.markReported handle now) = (.done, s)) ∧
          ∀ address port, (s.answer (.subscribe address port)).1 ≠ .registered handle ∧
            (s.answer (.subscribe address port)).1 ≠ .known handle) ∧
      (∀ t ∈ subscribers, ∀ address : String,
        Text.trim address.toList = t.destination.address.render.toList →
          s.answer (.subscribe address t.destination.port) = (.known t.handle, s)) ∧
      (∀ (address : String) (d : Destination),
        Text.trim address.toList = d.address.render.toList → d.port ≠ 0 →
          (∀ t ∈ subscribers, t.destination ≠ d) →
            if subscribers.length < 4 then
              ∃ handle, handle ∉ log.registered ∧ s.answer (.subscribe address d.port) =
                (.registered handle, { s with
                  registry :=
                    ⟨subscribers ++ [⟨handle, d, none, Changes.none⟩], handle + 1⟩ })
            else s.answer (.subscribe address d.port) = (.refused .full, s)) ∧
      (∀ address, s.answer (.subscribe address 0) = (.refused .zeroPort, s)) ∧
      (∀ (address : String) (port : UInt16), port ≠ 0 →
        (∀ quad : Text.DottedQuad, Text.trim address.toList ≠ quad.render.toList) →
          s.answer (.subscribe address port) = (.refused (.invalidAddress address), s)) ∧
      (∀ t ∈ subscribers, ∃ left,
        s.answer (.unsubscribe t.handle) =
            (.removed true, { s with registry.subscribers := left }) ∧
          left.Perm (subscribers.filter (fun u => u.handle != t.handle))) := by
  intro s log subscribers
  obtain ⟨hs, h⟩ : s.Accounted log ∧ s.registry.Settled log := Session.settled_run now calls hfew
  have hdistinct := hs.registry.distinct
  refine ⟨⟨h.room, hdistinct.destinations, hdistinct.handles⟩, ?_, ?_, ?_, ?_, ?_, ?_⟩
  · intro handle hremoved
    obtain ⟨hregistered, hgone⟩ := h.removed handle hremoved
    refine ⟨?_, ?_, ?_, ?_⟩
    · intro t ht he
      exact hgone (List.mem_map.2 ⟨t, ht, he⟩)
    · simp only [answer, Store.unsubscribe, Registry.remove_unknown hgone]
    · intro now
      simp only [answer, Store.markReported, Registry.markReported_unknown hdistinct hgone]
    · intro address port
      have hother : ¬ (handle ∈ s.registry.handles ∨ handle = s.registry.nextHandle) := by
        rintro (hback | rfl)
        · exact hgone hback
        · exact hs.registry.nextHandle_not_mem hfew hregistered
      exact not_or.1 (fun hanswer => hother (handle_of_subscribe hanswer))
  · intro t ht address hwritten
    have hport := h.ports _ (List.mem_map_of_mem ht)
    have hadd := Registry.add_known hdistinct ht
      (Registry.destination_ok_iff.2 ⟨hport, hwritten, rfl⟩)
    have hknown : t.handle ∈ s.registry.handles := List.mem_map_of_mem ht
    rw [s.answer_subscribe_ok hadd, if_pos hknown]
  · intro address d hwritten hport hnew
    have hunknown : d ∉ s.registry.destinations := by
      intro hm
      obtain ⟨t, ht, he⟩ := List.mem_map.1 hm
      exact hnew t ht he
    have hadd := Registry.add_unknown
      (Registry.destination_ok_iff.2 ⟨hport, hwritten, rfl⟩) hunknown
    split
    · rename_i hroom
      refine ⟨s.registry.nextHandle, hs.registry.nextHandle_not_mem hfew, ?_⟩
      rw [s.answer_subscribe_ok (hadd.trans (if_pos hroom)),
        if_neg (hs.registry.nextHandle_not_mem_handles hfew)]
      rfl
    · rename_i hfull
      exact s.answer_subscribe_error (hadd.trans (if_neg hfull))
  · intro address
    exact s.answer_subscribe_error (Registry.add_of_error (Registry.destination_zero address))
  · intro address port hport hunwritten
    exact s.answer_subscribe_error
      (Registry.add_of_error (Registry.destination_of_unwritten hport hunwritten))
  · intro t ht
    have hknown : t.handle ∈ s.registry.handles := List.mem_map_of_mem ht
    refine ⟨_, ?_, Registry.subscribers_remove hdistinct t.handle⟩
    rw [answer, Store.unsubscribe, Registry.remove_known hknown]

/-- The first subscriber was removed and registered again: it is under another handle. -/
theorem handles_name_for_good_removed :
    let s := (Session.start 5).run [.subscribe "10.0.0.1" 5540, .subscribe " 10.0.0.2 " 5540,
      .unsubscribe 0, .subscribe "10.0.0.1" 5540]
    s.log.registered = [0, 1, 2] ∧ s.log.Removed 0 ∧
      s.store.registry.subscribers.map (fun t => t.handle) = [1, 2] ∧
      s.store.answer (.unsubscribe 0) = (.removed false, s.store) ∧
      (∀ address port, (s.store.answer (.subscribe address port)).1 ≠ .registered 0) ∧
      s.store.answer (.subscribe "\t10.0.0.1" 5540) = (.known 2, s.store) ∧
      s.store.answer (.subscribe "10.0.0.1" 0) = (.refused .zeroPort, s.store) := by
  intro s
  have hregistered : s.log.registered = [0, 1, 2] := by decide +kernel
  have hremoved : s.log.Removed 0 := by
    unfold Log.Removed
    decide +kernel
  have hsubscribers : s.store.registry.subscribers =
      [⟨1, ⟨⟨10, 0, 0, 2⟩, 5540⟩, none, Changes.none⟩,
        ⟨2, ⟨⟨10, 0, 0, 1⟩, 5540⟩, none, Changes.none⟩] := by
    decide +kernel
  have hfew : s.log.registered.length < UInt32.size := by
    rw [hregistered]
    decide
  obtain ⟨-, hgone, hknown, -, hzero, -, -⟩ := handles_name_for_good 5 _ hfew
  obtain ⟨-, hagain, -, hnever⟩ := hgone 0 hremoved
  refine ⟨hregistered, hremoved, by rw [hsubscribers]; rfl, hagain,
    fun address port => (hnever address port).1, ?_, hzero _⟩
  exact hknown ⟨2, ⟨⟨10, 0, 0, 1⟩, 5540⟩, none, Changes.none⟩ (by rw [hsubscribers]; simp) _
    (by decide +kernel)

end Store

end BurnerTelemetry.Attribute
