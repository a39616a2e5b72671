import BurnerTelemetry.Proofs.Tlv.Spelling
import BurnerTelemetry.Proofs.Tlv.Stream

/-!
A cursor over bytes that nobody vouches for, under any calls in any order. Whatever one step keeps
is kept by every call, since skipping is made of steps. Main statement: wherever the calls have led,
the cursor stands inside its bytes behind items that were read one by one, and the first fault is
the last one.
-/
namespace BurnerTelemetry.Tlv

namespace Cursor

inductive Call where
  | next | peek | skip
  deriving DecidableEq, Repr

/-- Where a call leaves the cursor. Looking at the next item leaves it where it is. -/
def after (c : Cursor) : Call → Cursor
  | .next => c.next.2
  | .peek => c
  | .skip => c.skip.2

/-- Where calls leave the cursor, one after another. -/
def afterAll (c : Cursor) (calls : List Call) : Cursor := calls.foldl after c

/-- The call was to move the cursor and answers a fault. -/
def faults (c : Cursor) : Call → Bool
  | .next => c.next.1.toOption.isNone
  | .peek => false
  | .skip => c.skip.1.toOption.isNone

/-- The number of calls that were to move the cursor and answered a fault. -/
def faultCount (c : Cursor) : List Call → Nat
  | [] => 0
  | call :: rest => (if c.faults call then 1 else 0) + (c.after call).faultCount rest

/-- No call moves the cursor any more or has anything to report. -/
structure Exhausted (c : Cursor) : Prop where
  isEnd : c.isEnd = true
  stays : ∀ calls, c.afterAll calls = c
  next : c.next.1 = .ok none
  peek : c.peek = .ok none
  skip : c.skip.1 = .ok ()

theorem isNone_toOption_iff {ε α : Type} {answer : Except ε α} :
    answer.toOption.isNone = true ↔ ∃ e, answer = .error e := by
  cases answer <;> simp [Except.toOption]

/-- What a step does: it stays at the end, or it goes over an item whose bytes stand right here, or
it fails and stays. -/
theorem next_cases (c : Cursor) :
    (c.isEnd = true ∧ c.next = (.ok none, c)) ∨
    (∃ front rest item, c.failed = false ∧ c.bytes.drop c.position = front ++ rest ∧
      Spells c.depth front item ∧
      c.next = (.ok (some item),
        { c with position := c.position + front.length, depth := item.depthAfter c.depth })) ∨
    (c.isEnd = false ∧ ∃ e, c.next = (.error e, { c with failed := true })) := by
  by_cases hend : c.isEnd = true
  · exact .inl ⟨hend, next_of_isEnd hend⟩
  · have hopen : c.isEnd = false := by simpa using hend
    cases hread : readItem c.position c.depth (c.bytes.drop c.position) with
    | error e =>
      refine .inr (.inr ⟨hopen, e, ?_⟩)
      simp [next, hopen, hread]
    | ok found =>
      obtain ⟨item, size⟩ := found
      obtain ⟨front, rest, hbytes, hspells, rfl⟩ := spells_of_readItem hread
      refine .inr (.inl ⟨front, rest, item, (left_pos_of_not_isEnd hopen).1, hbytes, hspells, ?_⟩)
      simp [next, hopen, hread]

/-- Whatever every step keeps, every call keeps. -/
theorem leave_keeps {P : Cursor → Prop} (h : ∀ c, P c → P c.next.2) {c : Cursor} (hc : P c)
    (depth : Nat) : P (c.leave depth).2 := by
  fun_induction leave c depth with
  | case1 c hdepth => exact hc
  | case2 c hdepth hend => exact hc
  | case3 c hdepth hend e he => exact h c hc
  | case4 c hdepth hend found hfound ih => exact ih (h c hc)

theorem after_keeps {P : Cursor → Prop} (h : ∀ c, P c → P c.next.2) {c : Cursor} (hc : P c)
    (call : Call) : P (c.after call) := by
  cases call with
  | next => exact h c hc
  | peek => exact hc
  | skip =>
    have hnext := h c hc
    simp only [after, skip]
    split
    · rename_i heq
      rw [heq] at hnext
      exact hnext
    · rename_i heq
      rw [heq] at hnext
      exact leave_keeps h hnext _
    · rename_i heq
      rw [heq] at hnext
      exact hnext

theorem afterAll_keeps {P : Cursor → Prop} (h : ∀ c, P c → P c.next.2) {c : Cursor} (hc : P c)
    (calls : List Call) : P (c.afterAll calls) := by
  induction calls generalizing c with
  | nil => exact hc
  | cons call rest ih => exact ih (after_keeps h hc call)

/-- Steps from `c` answer the items one by one and lead to `d`. -/
def Reads (c : Cursor) (items : List Item) (d : Cursor) : Prop :=
  c.nexts items.length = (items.map (fun i => .ok (some i)), d)

theorem Reads.nil (c : Cursor) : c.Reads [] c := rfl

theorem reads_cons {c d : Cursor} {item : Item} {items : List Item} :
    c.Reads (item :: items) d ↔ c.next.1 = .ok (some item) ∧ c.next.2.Reads items d := by
  simp only [Reads, List.length_cons, nexts_succ, List.map_cons, Prod.ext_iff, List.cons.injEq,
    and_assoc]

theorem Reads.append {c d e : Cursor} {items more : List Item} (h : c.Reads items d)
    (hmore : d.Reads more e) : c.Reads (items ++ more) e := by
  induction items generalizing c with
  | nil =>
    cases h
    exact hmore
  | cons item rest ih =>
    obtain ⟨hitem, hrest⟩ := reads_cons.1 h
    exact reads_cons.2 ⟨hitem, ih hrest⟩

theorem reads_append {c e : Cursor} {items more : List Item} :
    c.Reads (items ++ more) e ↔ ∃ d, c.Reads items d ∧ d.Reads more e := by
  constructor
  · intro h
    induction items generalizing c with
    | nil => exact ⟨c, .nil c, h⟩
    | cons item rest ih =>
      obtain ⟨hitem, hrest⟩ := reads_cons.1 h
      obtain ⟨d, hitems, hmore⟩ := ih hrest
      exact ⟨d, reads_cons.2 ⟨hitem, hitems⟩, hmore⟩
  · rintro ⟨d, hitems, hmore⟩
    exact hitems.append hmore

/-- The cursor stands inside the bytes, and stepping over the items from their front leads there. -/
structure Reached (bytes : Bytes) (items : List Item) (c : Cursor) : Prop where
  bytes_eq : c.bytes = bytes
  reads : (start bytes).Reads items { c with failed := false }
  fit : AllFit 0 items
  depth : c.depth = depthThrough 0 items
  depth_le : c.depth ≤ depthLimit
  position_le : c.position ≤ bytes.length

theorem reached_start (bytes : Bytes) : Reached bytes [] (start bytes) :=
  ⟨rfl, rfl, trivial, rfl, Nat.zero_le _, Nat.zero_le _⟩

/-- Every spelling takes at least one byte. -/
theorem length_pos_of_spells {depth : Nat} {front : Bytes} {item : Item}
    (h : Spells depth front item) : 0 < front.length :=
  readItem_size_pos (h.readItem 0 [])

theorem depthAfter_le {depth : Nat} {item : Item} (h : item.Fits depth) (hd : depth ≤ depthLimit) :
    item.depthAfter depth ≤ depthLimit := by
  cases item with
  | start tag container => exact h
  | stop => exact Nat.le_trans (Nat.sub_le depth 1) hd
  | _ => exact hd

theorem Reached.next {bytes : Bytes} {items : List Item} {c : Cursor} (h : Reached bytes items c) :
    ∃ more, Reached bytes (items ++ more) c.next.2 := by
  obtain ⟨_, hnext⟩ | ⟨front, rest, item, hgood, hbytes, hspells, hnext⟩ | ⟨_, e, hnext⟩ :=
    next_cases c
  · refine ⟨[], ?_⟩
    rw [hnext, List.append_nil]
    exact h
  · refine ⟨[item], ?_⟩
    rw [hnext]
    have hfits := hspells.fits
    have hsame : { c with failed := false } = c := by rw [← hgood]
    constructor
    · exact h.bytes_eq
    · have hstep : { c with failed := false }.Reads [item] c.next.2 := by
        rw [hsame]
        exact reads_cons.2 ⟨congrArg Prod.fst hnext, .nil _⟩
      rw [hnext] at hstep
      have hreads := h.reads.append hstep
      rw [hgood] at hreads
      exact hreads
    · refine (allFit_append 0 items [item]).2 ⟨h.fit, ?_, trivial⟩
      rw [← h.depth]
      exact hfits
    · rw [depthThrough_append, ← h.depth]
      rfl
    · exact depthAfter_le hfits h.depth_le
    · have hlength := congrArg List.length hbytes
      have hpos := length_pos_of_spells hspells
      rw [h.bytes_eq, List.length_drop, List.length_append] at hlength
      simp only
      omega
  · refine ⟨[], ?_⟩
    rw [hnext, List.append_nil]
    exact ⟨h.bytes_eq, h.reads, h.fit, h.depth, h.depth_le, h.position_le⟩

theorem reached_afterAll (bytes : Bytes) (calls : List Call) :
    ∃ items, Reached bytes items ((start bytes).afterAll calls) := by
  refine afterAll_keeps (P := fun c => ∃ items, Reached bytes items c) ?_
    ⟨[], reached_start bytes⟩ calls
  rintro c ⟨items, h⟩
  obtain ⟨more, hmore⟩ := h.next
  exact ⟨_, hmore⟩

theorem position_le_after (c : Cursor) (call : Call) : c.position ≤ (c.after call).position := by
  refine after_keeps (P := fun d => c.position ≤ d.position) ?_ (Nat.le_refl _) call
  intro d hd
  obtain ⟨_, hnext⟩ | ⟨front, rest, item, _, _, _, hnext⟩ | ⟨_, e, hnext⟩ := next_cases d
  · rw [hnext]
    exact hd
  · rw [hnext]
    exact Nat.le_trans hd (Nat.le_add_right _ _)
  · rw [hnext]
    exact hd

theorem skip_of_isEnd {c : Cursor} (h : c.isEnd = true) : c.skip = (.ok (), c) := by
  simp only [skip, next_of_isEnd h]

theorem after_of_isEnd {c : Cursor} (h : c.isEnd = true) (call : Call) : c.after call = c := by
  cases call with
  | next => exact congrArg Prod.snd (next_of_isEnd h)
  | peek => rfl
  | skip => exact congrArg Prod.snd (skip_of_isEnd h)

theorem exhausted_of_isEnd {c : Cursor} (h : c.isEnd = true) : c.Exhausted := by
  constructor
  · exact h
  · intro calls
    induction calls with
    | nil => rfl
    | cons call rest ih => rw [afterAll, List.foldl_cons, after_of_isEnd h]; exact ih
  · exact congrArg Prod.fst (next_of_isEnd h)
  · exact congrArg Prod.fst (next_of_isEnd h)
  · exact congrArg Prod.fst (skip_of_isEnd h)

theorem isEnd_of_next_error {c : Cursor} {e : ReadError} (h : c.next.1 = .error e) :
    c.next.2.isEnd = true := by
  obtain ⟨_, hnext⟩ | ⟨front, rest, item, _, _, _, hnext⟩ | ⟨_, e', hnext⟩ := next_cases c
  · rw [hnext] at h
    cases h
  · rw [hnext] at h
    cases h
  · rw [hnext]
    rfl

theorem isEnd_of_next_none {c : Cursor} (h : c.next.1 = .ok none) : c.isEnd = true := by
  obtain ⟨hend, _⟩ | ⟨_, _, _, _, _, _, hnext⟩ | ⟨_, _, hnext⟩ := next_cases c
  · exact hend
  · rw [hnext] at h
    cases h
  · rw [hnext] at h
    cases h

theorem not_isEnd_of_next_some {c : Cursor} {item : Item} (h : c.next.1 = .ok (some item)) :
    c.isEnd = false := by
  by_contra hend
  rw [next_of_isEnd (by simpa using hend)] at h
  cases h

theorem not_isEnd_of_next_error {c : Cursor} {e : ReadError} (h : c.next.1 = .error e) :
    c.isEnd = false := by
  by_contra hend
  rw [next_of_isEnd (by simpa using hend)] at h
  cases h

/-- A step over an item leaves the cursor at the depth to which the item leads, without a fault. -/
theorem next_of_next_some {c : Cursor} {item : Item} (h : c.next.1 = .ok (some item)) :
    c.next.2.depth = item.depthAfter c.depth ∧ c.next.2.failed = false := by
  obtain ⟨_, hnext⟩ | ⟨_, _, found, hgood, _, _, hnext⟩ | ⟨_, _, hnext⟩ := next_cases c
  · rw [hnext] at h
    cases h
  · rw [hnext] at h ⊢
    cases h
    exact ⟨rfl, hgood⟩
  · rw [hnext] at h
    cases h

/-- Inside a container a fault is one of a step, or the bytes have come to their end. -/
theorem isEnd_of_leave_error {c : Cursor} {depth : Nat} {e : ReadError}
    (h : (c.leave depth).1 = .error e) : (c.leave depth).2.isEnd = true := by
  fun_induction leave c depth with
  | case1 c hdepth => cases h
  | case2 c hdepth hend => exact hend
  | case3 c hdepth hend e' he => exact isEnd_of_next_error he
  | case4 c hdepth hend found hfound ih => exact ih h

theorem isEnd_of_faults {c : Cursor} {call : Call} (h : c.faults call = true) :
    (c.after call).isEnd = true := by
  cases call with
  | next =>
    obtain ⟨e, he⟩ := isNone_toOption_iff.1 h
    exact isEnd_of_next_error he
  | peek => cases h
  | skip =>
    obtain ⟨e, he⟩ := isNone_toOption_iff.1 h
    simp only [after, skip] at he ⊢
    split at he
    · rename_i e' d heq
      have herror : c.next.1 = .error e' := congrArg Prod.fst heq
      have hend := isEnd_of_next_error herror
      rw [heq] at hend
      exact hend
    · exact isEnd_of_leave_error he
    · cases he

theorem faults_of_isEnd {c : Cursor} (h : c.isEnd = true) (call : Call) :
    c.faults call = false := by
  cases call with
  | next => simp [faults, next_of_isEnd h, Except.toOption]
  | peek => rfl
  | skip => simp [faults, skip_of_isEnd h, Except.toOption]

theorem faultCount_of_isEnd {c : Cursor} (h : c.isEnd = true) (calls : List Call) :
    c.faultCount calls = 0 := by
  induction calls with
  | nil => rfl
  | cons call rest ih =>
    rw [faultCount, faults_of_isEnd h, after_of_isEnd h, ih]
    rfl

theorem faultCount_le_one (c : Cursor) (calls : List Call) : c.faultCount calls ≤ 1 := by
  induction calls generalizing c with
  | nil => exact Nat.zero_le 1
  | cons call rest ih =>
    rw [faultCount]
    by_cases hfault : c.faults call = true
    · rw [if_pos hfault, faultCount_of_isEnd (isEnd_of_faults hfault)]
    · rw [if_neg hfault, Nat.zero_add]
      exact ih _

/-- Steps come to the end or to a fault after no more items than there are bytes left. -/
theorem exhausts (c : Cursor) :
    ∃ items d, items.length ≤ c.left ∧ c.Reads items d ∧
      (d.next.1 = .ok none ∨ ∃ e, d.next.1 = .error e) := by
  induction hn : c.left using Nat.strongRecOn generalizing c with
  | ind n ih =>
    obtain ⟨_, hnext⟩ | ⟨front, rest, item, hgood, hbytes, hspells, hnext⟩ | ⟨_, e, hnext⟩ :=
      next_cases c
    · exact ⟨[], c, Nat.zero_le _, .nil c, .inl (congrArg Prod.fst hnext)⟩
    · have hless := left_next_lt (not_isEnd_of_next_some (congrArg Prod.fst hnext))
      obtain ⟨items, d, hlength, hreads, hlast⟩ := ih c.next.2.left (hn ▸ hless) c.next.2 rfl
      refine ⟨item :: items, d, ?_, reads_cons.2 ⟨congrArg Prod.fst hnext, hreads⟩, hlast⟩
      rw [List.length_cons]
      omega
    · exact ⟨[], c, Nat.zero_le _, .nil c, .inr ⟨e, congrArg Prod.fst hnext⟩⟩

theorem next_item {c : Cursor} {item : Item} (h : c.next.1 = .ok (some item)) :
    c.position < c.next.2.position ∧
      readItem c.position c.depth ((c.bytes.take c.next.2.position).drop c.position) =
        .ok (item, c.next.2.position - c.position) := by
  obtain ⟨_, hnext⟩ | ⟨front, rest, found, _, hbytes, hspells, hnext⟩ | ⟨_, e, hnext⟩ :=
    next_cases c
  · rw [hnext] at h
    cases h
  · have hpos := length_pos_of_spells hspells
    have hslice : (c.bytes.take (c.position + front.length)).drop c.position = front := by
      rw [List.drop_take, hbytes, Nat.add_sub_cancel_left, List.take_left]
    have hread := hspells.readItem c.position []
    rw [List.append_nil] at hread
    rw [hnext] at h ⊢
    cases h
    exact ⟨by simp only; omega, by simp only [hslice, hread, Nat.add_sub_cancel_left]⟩
  · rw [hnext] at h
    cases h

theorem next_fault {c : Cursor} {e : ReadError} (h : c.next.1 = .error e) :
    c.next.2.position = c.position ∧ c.next.2.depth = c.depth := by
  obtain ⟨_, hnext⟩ | ⟨front, rest, found, _, _, _, hnext⟩ | ⟨_, e', hnext⟩ := next_cases c
  · rw [hnext] at h
    cases h
  · rw [hnext] at h
    cases h
  · rw [hnext]
    exact ⟨rfl, rfl⟩

/-- Where a cursor over the bytes may stand, and what its next call may do. -/
structure Guarded (bytes : Bytes) (c : Cursor) : Prop where
  bytes_eq : c.bytes = bytes
  position_le : c.position ≤ bytes.length
  depth_le : c.depth ≤ depthLimit
  /-- The items in front of the cursor, read one by one, lead to it, and the depth counts those of
  them that start a container less those that stop one. -/
  consumed : ∃ items, (start bytes).Reads items { c with failed := false } ∧
    c.depth + items.count .stop = items.countP Item.isStart
  /-- There is a byte to look at unless this is the end. -/
  inside : c.isEnd = false → c.position < bytes.length
  forward : ∀ call, c.position ≤ (c.after call).position
  /-- An item is read from the bytes that are stepped over and from no others. -/
  next_item : ∀ item, c.next.1 = .ok (some item) →
    c.position < c.next.2.position ∧ c.next.2.position ≤ bytes.length ∧
      readItem c.position c.depth ((bytes.take c.next.2.position).drop c.position) =
        .ok (item, c.next.2.position - c.position)
  next_fault : ∀ e, c.next.1 = .error e →
    c.next.2.position = c.position ∧ c.next.2.depth = c.depth
  peek_answer : c.peek = c.next.1
  peek_stays : c.after .peek = c
  exhausts : ∃ items d, items.length ≤ bytes.length ∧ c.Reads items d ∧
    (d.next.1 = .ok none ∨ ∃ e, d.next.1 = .error e)
  last_fault : ∀ call, c.faults call = true → (c.after call).Exhausted

theorem Reached.guarded {bytes : Bytes} {items : List Item} {c : Cursor}
    (h : Reached bytes items c) : Guarded bytes c := by
  have hcount := depthThrough_add_stops h.fit
  rw [← h.depth, Nat.zero_add] at hcount
  constructor
  · exact h.bytes_eq
  · exact h.position_le
  · exact h.depth_le
  · exact ⟨items, h.reads, hcount⟩
  · exact fun hend => h.bytes_eq ▸ (left_pos_of_not_isEnd hend).2
  · exact position_le_after c
  · intro item hitem
    obtain ⟨hless, hread⟩ := Cursor.next_item hitem
    obtain ⟨more, hnext⟩ := h.next
    rw [h.bytes_eq] at hread
    exact ⟨hless, hnext.position_le, hread⟩
  · exact fun e he => Cursor.next_fault he
  · rfl
  · rfl
  · obtain ⟨more, d, hlength, hreads, hlast⟩ := Cursor.exhausts c
    refine ⟨more, d, Nat.le_trans hlength ?_, hreads, hlast⟩
    rw [left, h.bytes_eq]
    split <;> omega
  · exact fun call hfault => exhausted_of_isEnd (isEnd_of_faults hfault)

/-- After any calls the cursor stands inside its bytes, no deeper than the limit, behind items that
were read one by one. Of all calls that were to move it one at most has failed, and behind that one
nothing moves it and nothing is reported any more. -/
theorem calls_fail_closed (bytes : Bytes) (calls : List Call) :
    (start bytes).faultCount calls ≤ 1 ∧ Guarded bytes ((start bytes).afterAll calls) := by
  obtain ⟨items, h⟩ := reached_afterAll bytes calls
  exact ⟨faultCount_le_one (start bytes) calls, h.guarded⟩

end Cursor

end BurnerTelemetry.Tlv
