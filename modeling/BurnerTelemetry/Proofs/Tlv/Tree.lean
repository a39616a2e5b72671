import BurnerTelemetry.Proofs.Tlv.Canonical

/-!
Trees of items. A tree is a value under its tag, or a container with the trees between its start
and its stop. Main statement: skipping in front of a tree passes over the items of this tree and no
others, and a container that is skipped is a tree that was read to its stop.
-/
namespace BurnerTelemetry.Tlv

open Encoder (Placed containersAfter containersThrough ofBuffer placeFault? totalSize)

inductive Scalar where
  | signed (value : Int32)
  | unsigned (value : UInt32)
  | boolean (value : Bool)
  | text (value : String)
  deriving DecidableEq, Repr

def Scalar.item (tag : UInt8) : Scalar → Item
  | signed v => .signed tag v
  | unsigned v => .unsigned tag v
  | boolean v => .boolean tag v
  | text s => .text tag s

inductive Tree where
  | leaf (tag : UInt8) (value : Scalar)
  | node (tag : UInt8) (container : Container) (members : List Tree)

namespace Tree

def tag : Tree → UInt8
  | leaf tag _ => tag
  | node tag _ _ => tag

mutual

/-- The items of a tree from its first to its last. -/
def items : Tree → List Item
  | leaf tag value => [value.item tag]
  | node tag container members => .start tag container :: (forestItems members ++ [.stop])

def forestItems : List Tree → List Item
  | [] => []
  | tree :: rest => tree.items ++ forestItems rest

end

/-- A writer takes the tree inside `depth` open containers: its texts are short, it is not nested
too deep, and what lies directly inside an array goes under tag 0. -/
inductive Fits : Nat → Tree → Prop where
  | leaf {depth : Nat} (tag : UInt8) (value : Scalar) (h : (value.item tag).Fits depth) :
    Fits depth (leaf tag value)
  | node {depth : Nat} (tag : UInt8) (container : Container) (members : List Tree)
      (hdepth : depth < depthLimit)
      (htags : container = .array → ∀ tree ∈ members, tree.tag = 0)
      (hmembers : ∀ tree ∈ members, Fits (depth + 1) tree) :
    Fits depth (node tag container members)

/-- The tree stands somewhere in the forest, with these items in front of it and behind it. -/
inductive Occurs (tree : Tree) : List Tree → List Item → List Item → Prop where
  | here (left right : List Tree) :
    Occurs tree (left ++ tree :: right) (left.flatMap items) (right.flatMap items)
  | inside (left right : List Tree) (tag : UInt8) (container : Container) (members : List Tree)
      (before after : List Item) (h : Occurs tree members before after) :
    Occurs tree (left ++ node tag container members :: right)
      (left.flatMap items ++ .start tag container :: before)
      (after ++ .stop :: right.flatMap items)

theorem forestItems_eq (forest : List Tree) : forestItems forest = forest.flatMap items := by
  induction forest with
  | nil => rfl
  | cons tree rest ih => rw [forestItems, ih, List.flatMap_cons]

@[simp] theorem items_leaf (tag : UInt8) (value : Scalar) :
    (leaf tag value).items = [value.item tag] := rfl

@[simp] theorem items_node (tag : UInt8) (container : Container) (members : List Tree) :
    (node tag container members).items =
      .start tag container :: (members.flatMap items ++ [.stop]) := by
  rw [items, forestItems_eq]

mutual

/-- A tree is a leaf, or is a container whose members are trees of which it is known already. -/
@[induction_eliminator]
theorem induction {P : Tree → Prop} (leaf : ∀ tag value, P (leaf tag value))
    (node : ∀ tag container members, (∀ tree ∈ members, P tree) → P (node tag container members)) :
    ∀ tree, P tree
  | .leaf tag value => leaf tag value
  | .node tag container members => node tag container members (forest_induction leaf node members)

theorem forest_induction {P : Tree → Prop} (leaf : ∀ tag value, P (Tree.leaf tag value))
    (node : ∀ tag container members, (∀ tree ∈ members, P tree) →
      P (Tree.node tag container members)) : ∀ forest : List Tree, ∀ tree ∈ forest, P tree
  | [], _, h => absurd h List.not_mem_nil
  | first :: rest, tree, h => by
    have hfirst := Tree.induction leaf node first
    have hrest := forest_induction leaf node rest
    obtain heq | hmem := List.mem_cons.1 h
    · exact heq ▸ hfirst
    · exact hrest tree hmem

end

theorem Occurs.items_eq {tree : Tree} {forest : List Tree} {before after : List Item}
    (h : Occurs tree forest before after) :
    forest.flatMap items = before ++ tree.items ++ after := by
  induction h with
  | here left right => simp
  | inside left right tag container members before after h ih => simp [ih]

end Tree

/-- An item is a value under its tag, or it starts or stops a container. -/
theorem Item.shape (item : Item) : (∃ tag, ∃ value : Scalar, item = value.item tag) ∨
    (∃ tag container, item = .start tag container) ∨ item = .stop := by
  cases item with
  | signed tag v => exact .inl ⟨tag, .signed v, rfl⟩
  | unsigned tag v => exact .inl ⟨tag, .unsigned v, rfl⟩
  | boolean tag v => exact .inl ⟨tag, .boolean v, rfl⟩
  | text tag s => exact .inl ⟨tag, .text s, rfl⟩
  | start tag container => exact .inr (.inl ⟨tag, container, rfl⟩)
  | stop => exact .inr (.inr rfl)

@[simp] theorem Scalar.depthAfter_item (value : Scalar) (tag : UInt8) (depth : Nat) :
    (value.item tag).depthAfter depth = depth := by
  cases value <;> rfl

@[simp] theorem Scalar.tag?_item (value : Scalar) (tag : UInt8) :
    (value.item tag).tag? = some tag := by
  cases value <;> rfl

@[simp] theorem Scalar.containersAfter_item (value : Scalar) (tag : UInt8)
    (containers : List Container) : containersAfter containers (value.item tag) = containers := by
  cases value <;> rfl

namespace Encoder

/-- The items may stand inside these containers, and leave them as they are. -/
def Settles (containers : List Container) (items : List Item) : Prop :=
  Placed containers items ∧ containersThrough containers items = containers

theorem settles_append {containers : List Container} {front back : List Item}
    (hfront : Settles containers front) (hback : Settles containers back) :
    Settles containers (front ++ back) := by
  constructor
  · exact (placed_append _ _ _).2 ⟨hfront.1, by rw [hfront.2]; exact hback.1⟩
  · rw [containersThrough_append, hfront.2, hback.2]

theorem settles_flatMap {containers : List Container} {forest : List Tree}
    (h : ∀ tree ∈ forest, Settles containers tree.items) :
    Settles containers (forest.flatMap Tree.items) := by
  induction forest with
  | nil => exact ⟨trivial, rfl⟩
  | cons tree rest ih =>
    exact settles_append (h tree List.mem_cons_self)
      (ih (fun other hother => h other (List.mem_cons_of_mem tree hother)))

theorem placeFault?_of_fits {containers : List Container} {item : Item}
    (hfits : item.Fits containers.length)
    (htag : containers.head? = some .array → ∀ tag ∈ item.tag?, tag = 0) :
    placeFault? ⟨[], 0, containers⟩ item = none := by
  have hplaced : Placed containers [item] := placed_of_fit ⟨hfits, trivial⟩ ⟨htag, trivial⟩
  exact hplaced.1

theorem settles_leaf {containers : List Container} {tag : UInt8} {value : Scalar}
    (hfits : (value.item tag).Fits containers.length)
    (htag : containers.head? = some .array → tag = 0) :
    Settles containers (Tree.leaf tag value).items := by
  have hplace := placeFault?_of_fits hfits (by simpa using htag)
  exact ⟨⟨hplace, trivial⟩, value.containersAfter_item tag containers⟩

theorem settles_node {containers : List Container} {tag : UInt8} {container : Container}
    {members : List Tree} (hdepth : containers.length < depthLimit)
    (htag : containers.head? = some .array → tag = 0)
    (hmembers : Settles (container :: containers) (members.flatMap Tree.items)) :
    Settles containers (Tree.node tag container members).items := by
  have hstart : placeFault? ⟨[], 0, containers⟩ (.start tag container) = none :=
    placeFault?_of_fits hdepth (by simpa [Item.tag?] using htag)
  rw [Tree.items_node]
  constructor
  · refine ⟨hstart, (placed_append _ _ _).2 ⟨hmembers.1, ?_, trivial⟩⟩
    rw [containersAfter, hmembers.2]
    rfl
  · rw [containersThrough_cons, containersAfter, containersThrough_append, hmembers.2]
    rfl

/-- A writer takes a tree that fits, and behind it is where it was before. -/
theorem settles_of_fits {depth : Nat} {tree : Tree} (h : tree.Fits depth)
    {containers : List Container} (hlength : containers.length = depth)
    (htag : containers.head? = some .array → tree.tag = 0) : Settles containers tree.items := by
  induction h generalizing containers with
  | leaf tag value hfits => exact settles_leaf (hlength ▸ hfits) htag
  | node tag container members hdepth htags hmembers ih =>
    refine settles_node (hlength ▸ hdepth) htag (settles_flatMap fun tree htree => ?_)
    refine ih tree htree (by rw [List.length_cons, hlength]) fun harray => ?_
    exact htags (Option.some.inj harray) tree htree

end Encoder

namespace Cursor

variable {c d : Cursor}

theorem leave_of_next_some {item : Item} (h : c.next.1 = .ok (some item)) {depth : Nat}
    (hdepth : depth < c.depth) : c.leave depth = c.next.2.leave depth := by
  rw [leave, if_neg (Nat.not_le_of_lt hdepth), dif_neg (by simp [not_isEnd_of_next_some h])]
  simp only [h]

/-- Steps over these items end at the depth they start at, and who is on the way out to a lower
depth passes over them. -/
def Level (items : List Item) : Prop :=
  ∀ c d, Reads c items d → d.depth = c.depth ∧ ∀ depth < c.depth, c.leave depth = d.leave depth

theorem level_append {front back : List Item} (hfront : Level front) (hback : Level back) :
    Level (front ++ back) := by
  intro c e h
  obtain ⟨d, hcd, hde⟩ := reads_append.1 h
  obtain ⟨hd, hleave⟩ := hfront c d hcd
  obtain ⟨he, hmore⟩ := hback d e hde
  exact ⟨he.trans hd, fun depth hdepth => (hleave depth hdepth).trans (hmore depth (hd ▸ hdepth))⟩

theorem level_flatMap {forest : List Tree} (h : ∀ tree ∈ forest, Level tree.items) :
    Level (forest.flatMap Tree.items) := by
  induction forest with
  | nil =>
    rintro c d ⟨⟩
    exact ⟨rfl, fun _ _ => rfl⟩
  | cons tree rest ih =>
    exact level_append (h tree List.mem_cons_self)
      (ih (fun other hother => h other (List.mem_cons_of_mem tree hother)))

theorem level_leaf (tag : UInt8) (value : Scalar) : Level [value.item tag] := by
  intro c d h
  obtain ⟨hitem, ⟨⟩⟩ := reads_cons.1 h
  have hdepth : c.next.2.depth = c.depth := by
    rw [(next_of_next_some hitem).1, value.depthAfter_item]
  exact ⟨hdepth, fun depth hless => leave_of_next_some hitem hless⟩

/-- The members lie one level higher, so on the way out of the container none of them is the place
to stop at. -/
theorem level_node {members : List Item} (hmembers : Level members) (tag : UInt8)
    (container : Container) : Level (.start tag container :: (members ++ [.stop])) := by
  intro c e h
  obtain ⟨hstart, hrest⟩ := reads_cons.1 h
  obtain ⟨d, hcd, hde⟩ := reads_append.1 hrest
  obtain ⟨hstop, ⟨⟩⟩ := reads_cons.1 hde
  obtain ⟨hd, hleave⟩ := hmembers _ d hcd
  have hopen : c.next.2.depth = c.depth + 1 := (next_of_next_some hstart).1
  have hclosed : d.next.2.depth = d.depth - 1 := (next_of_next_some hstop).1
  refine ⟨by omega, fun depth hdepth => ?_⟩
  calc c.leave depth
      = c.next.2.leave depth := leave_of_next_some hstart hdepth
    _ = d.leave depth := hleave depth (by omega)
    _ = d.next.2.leave depth := leave_of_next_some hstop (by omega)

theorem level_items (tree : Tree) : Level tree.items := by
  induction tree with
  | leaf tag value => exact level_leaf tag value
  | node tag container members ih =>
    rw [Tree.items_node]
    exact level_node (level_flatMap ih) tag container

/-- Skipping in front of a tree leads right behind it. -/
theorem skip_of_reads {tree : Tree} (h : c.Reads tree.items d) : c.skip = (.ok (), d) := by
  cases tree with
  | leaf tag value =>
    obtain ⟨hitem, ⟨⟩⟩ := reads_cons.1 h
    have hnext : c.next = (.ok (some (value.item tag)), c.next.2) := Prod.ext hitem rfl
    rw [skip, hnext]
    cases value <;> rfl
  | node tag container members =>
    have hd := (level_items _ c d h).1
    rw [Tree.items_node] at h
    obtain ⟨hstart, hrest⟩ := reads_cons.1 h
    obtain ⟨e, hce, hed⟩ := reads_append.1 hrest
    obtain ⟨hstop, ⟨⟩⟩ := reads_cons.1 hed
    obtain ⟨he, hleave⟩ := level_flatMap (fun tree _ => level_items tree) _ e hce
    have hopen : c.next.2.depth = c.depth + 1 := (next_of_next_some hstart).1
    have hnext : c.next = (.ok (some (.start tag container)), c.next.2) := Prod.ext hstart rfl
    rw [skip, hnext]
    calc c.next.2.leave (c.next.2.depth - 1)
        = e.leave (c.next.2.depth - 1) := hleave _ (by omega)
      _ = e.next.2.leave (c.next.2.depth - 1) := leave_of_next_some hstop (by omega)
      _ = (.ok (), e.next.2) := by rw [leave, if_pos (by omega)]

/-- The items on the way out of containers: for each of them what is left in it, and its stop. -/
def wayOut : List (List Tree) → List Item
  | [] => []
  | members :: outer => members.flatMap Tree.items ++ .stop :: wayOut outer

/-- Who gets out has read each container to its stop, and in it whole trees. -/
theorem reads_of_leave {depth : Nat} (h : (c.leave depth).1 = .ok ()) (hdepth : depth ≤ c.depth) :
    ∃ levels, levels.length + depth = c.depth ∧ c.Reads (wayOut levels) (c.leave depth).2 := by
  -- One level for each container to be stopped, innermost first. What is read before the rest of
  -- the way out goes to the front of the innermost level: a value as a leaf, a container with the
  -- two levels that its own stop divides, a stop as a level with nothing in it.
  fun_induction leave c depth with
  | case1 c hle => exact ⟨[], by simp only [List.length_nil]; omega, .nil c⟩
  | case2 c hle hend => cases h
  | case3 c hle hend e he => cases h
  | case4 c hle hend found hfound ih =>
    cases found with
    | none => exact absurd (isEnd_of_next_none hfound) hend
    | some item =>
      have hnext := (next_of_next_some hfound).1
      obtain ⟨tag, value, rfl⟩ | ⟨tag, container, rfl⟩ | rfl := item.shape
      · rw [value.depthAfter_item] at hnext
        obtain ⟨levels, hlength, hreads⟩ := ih h (by omega)
        rcases levels with _ | ⟨members, outer⟩
        · simp only [List.length_nil] at hlength
          omega
        · refine ⟨(.leaf tag value :: members) :: outer, ?_, reads_cons.2 ⟨hfound, hreads⟩⟩
          simp only [List.length_cons] at hlength ⊢
          omega
      · simp only [Item.depthAfter] at hnext
        obtain ⟨levels, hlength, hreads⟩ := ih h (by omega)
        rcases levels with _ | ⟨inner, _ | ⟨members, outer⟩⟩
        · simp only [List.length_nil] at hlength
          omega
        · simp only [List.length_cons, List.length_nil] at hlength
          omega
        · refine ⟨(.node tag container inner :: members) :: outer, ?_, ?_⟩
          · simp only [List.length_cons] at hlength ⊢
            omega
          · have hall := reads_cons.2 ⟨hfound, hreads⟩
            simpa [wayOut] using hall
      · simp only [Item.depthAfter] at hnext
        obtain ⟨levels, hlength, hreads⟩ := ih h (by omega)
        refine ⟨[] :: levels, ?_, reads_cons.2 ⟨hfound, hreads⟩⟩
        simp only [List.length_cons]
        omega

/-- Skipping at the start of a container succeeds if the items from there on are a tree, and leads
behind this tree. -/
theorem skip_ok_iff {tag : UInt8} {container : Container}
    (h : c.next.1 = .ok (some (.start tag container))) :
    c.skip = (.ok (), d) ↔ ∃ members, c.Reads (Tree.node tag container members).items d := by
  constructor
  · intro hskip
    have hnext : c.next = (.ok (some (.start tag container)), c.next.2) := Prod.ext h rfl
    have hopen : c.next.2.depth = c.depth + 1 := (next_of_next_some h).1
    rw [skip, hnext] at hskip
    simp only [hopen, Nat.add_sub_cancel] at hskip
    obtain ⟨levels, hlength, hreads⟩ :=
      reads_of_leave (congrArg Prod.fst hskip) (by omega : c.depth ≤ c.next.2.depth)
    obtain ⟨members, rfl⟩ := List.length_eq_one_iff.1 (by omega : levels.length = 1)
    rw [hskip] at hreads
    exact ⟨members, by rw [Tree.items_node]; exact reads_cons.2 ⟨h, hreads⟩⟩
  · rintro ⟨members, hreads⟩
    exact skip_of_reads hreads

/-- Where steps never come back to the depth in front of a container, skipping it fails, and
nothing can be read any more. -/
theorem skip_unclosed {tag : UInt8} {container : Container}
    (h : c.next.1 = .ok (some (.start tag container)))
    (hopen : ∀ items d, c.Reads (.start tag container :: items) d → c.depth < d.depth) :
    (∃ e, c.skip.1 = .error e) ∧ c.skip.2.Exhausted := by
  cases hskip : c.skip.1 with
  | ok _ =>
    obtain ⟨members, hreads⟩ := (skip_ok_iff h).1 (Prod.ext hskip rfl : c.skip = (.ok (), c.skip.2))
    have hlevel := (level_items _ _ _ hreads).1
    rw [Tree.items_node] at hreads
    have hless := hopen _ _ hreads
    omega
  | error e =>
    have hfault : c.faults .skip = true := isNone_toOption_iff.2 ⟨e, hskip⟩
    exact ⟨⟨e, rfl⟩, exhausted_of_isEnd (isEnd_of_faults hfault)⟩

/-- Behind some of the items that were written, steps read on. -/
theorem reads_between (before items after : List Item)
    (h : AllFit 0 (before ++ items ++ after)) :
    Reads ⟨(before ++ items ++ after).flatMap Item.toBytes, totalSize before,
        depthThrough 0 before, false⟩ items
      ⟨(before ++ items ++ after).flatMap Item.toBytes, totalSize before + totalSize items,
        depthThrough 0 (before ++ items), false⟩ := by
  have hfit : AllFit (depthThrough 0 before) items :=
    ((allFit_append 0 before items).1 ((allFit_append 0 _ after).1 h).1).2
  have hsteps := nexts_items hfit (before.flatMap Item.toBytes) (after.flatMap Item.toBytes)
  simpa only [Reads, List.flatMap_append, List.append_assoc, List.length_append,
    Encoder.length_flatMap_toBytes, depthThrough_append] using hsteps

/-- A forest of fitting trees is written into any buffer with room for it. A cursor that steps have
brought in front of one of its trees, however deep, skips this tree: it then stands behind the last
byte of it, as deep as before, and goes on with the items that stand behind it. Whatever the bytes,
skipping at the start of a container leads behind its stop if what is read from there on is a tree.
If steps never come back to the depth in front of it, skipping fails and there is nothing more. -/
theorem skip_one_tree :
    (∀ (forest : List Tree) (buffer : Bytes), (∀ tree ∈ forest, tree.Fits 0) →
      totalSize (forest.flatMap Tree.items) ≤ buffer.length →
      ∃ e bytes, (ofBuffer buffer).putAll (forest.flatMap Tree.items) = (.ok (), e) ∧
        e.finish = .ok bytes ∧ Decodes bytes (forest.flatMap Tree.items) ∧
        ∀ tree before after, Tree.Occurs tree forest before after →
          let c : Cursor := ⟨bytes, totalSize before, depthThrough 0 before, false⟩
          let d : Cursor := ⟨bytes, c.position + totalSize tree.items, c.depth, false⟩
          forest.flatMap Tree.items = before ++ tree.items ++ after ∧
            (start bytes).Reads before c ∧ c.skip = (.ok (), d) ∧
            d.Reads after ⟨bytes, bytes.length, 0, false⟩) ∧
      ∀ (c : Cursor) (tag : UInt8) (container : Container),
        c.next.1 = .ok (some (.start tag container)) →
        (∀ d, c.skip = (.ok (), d) ↔
          ∃ members, c.Reads (Tree.node tag container members).items d) ∧
        ((∀ items d, c.Reads (.start tag container :: items) d → c.depth < d.depth) →
          (∃ e, c.skip.1 = .error e) ∧ c.skip.2.Exhausted) := by
  refine ⟨fun forest buffer hfits hroom => ?_, fun c tag container h =>
    ⟨fun d => skip_ok_iff h, skip_unclosed h⟩⟩
  obtain ⟨hplaced, hthrough⟩ : Encoder.Settles [] (forest.flatMap Tree.items) :=
    Encoder.settles_flatMap fun tree htree =>
      Encoder.settles_of_fits (hfits tree htree) rfl (fun harray => by cases harray)
  obtain ⟨e, hput⟩ := Encoder.putAll_of_placed (e := ofBuffer buffer) hplaced hroom
  have hholds := (Encoder.holds_ofBuffer buffer).putAll hput
  have hclosed : e.depth = 0 := by
    rw [Encoder.depth, (Encoder.putAll_ok hput).2]
    exact congrArg List.length hthrough
  have hdecodes := hholds.decodes hclosed
  refine ⟨e, e.written, hput, Encoder.finish_ok_iff.2 ⟨hclosed, rfl⟩, hdecodes, ?_⟩
  intro tree before after hoccurs
  have hitems := hoccurs.items_eq
  have hfit : AllFit 0 (before ++ tree.items ++ after) := hitems ▸ hholds.fit
  have hbytes : e.written = (before ++ tree.items ++ after).flatMap Item.toBytes := by
    rw [← hitems, ← List.nil_append (forest.flatMap Tree.items)]
    exact hholds.written
  have hmiddle := reads_between before tree.items after hfit
  have hlevel : depthThrough 0 (before ++ tree.items) = depthThrough 0 before :=
    (level_items tree _ _ hmiddle).1
  have hlast : depthThrough 0 (before ++ tree.items ++ after) = 0 := by
    rw [← hitems]
    exact hholds.depth.symm.trans hclosed
  refine ⟨hitems, ?_, ?_, ?_⟩
  · have hfront := reads_between [] before (tree.items ++ after) (by simpa using hfit)
    simpa [start, hbytes] using hfront
  · rw [hbytes, skip_of_reads hmiddle, hlevel]
  · have hrest := reads_between (before ++ tree.items) after [] (by simpa using hfit)
    rw [List.append_nil, hlast, hlevel, Encoder.totalSize_append] at hrest
    have hlength : e.written.length =
        totalSize before + totalSize tree.items + totalSize after := by
      rw [hbytes, Encoder.length_flatMap_toBytes, Encoder.totalSize_append,
        Encoder.totalSize_append]
    rw [hlength, hbytes]
    exact hrest

/-- An array holds a number and a structure. The structure is skipped: 0xA0 stands in it as a tag
and as a value, and in the end as the stop. An array that is cut short behind the value 0xA0 is not
skipped. -/
theorem skip_one_tree_nested :
    (∃ e, (ofBuffer (List.replicate 20 0)).putAll
          [.start 2 .array, .unsigned 0 160, .start 0 .struct, .unsigned 160 160, .stop, .stop,
            .boolean 3 true] = (.ok (), e) ∧
        e.finish = .ok [0xC8, 2, 0x28, 0, 0xA0, 0xE8, 0, 0x28, 0xA0, 0xA0, 0xA0, 0xA0, 0x49, 3]) ∧
      skip ⟨[0xC8, 2, 0x28, 0, 0xA0, 0xE8, 0, 0x28, 0xA0, 0xA0, 0xA0, 0xA0, 0x49, 3], 5, 1, false⟩ =
        (.ok (), ⟨[0xC8, 2, 0x28, 0, 0xA0, 0xE8, 0, 0x28, 0xA0, 0xA0, 0xA0, 0xA0, 0x49, 3], 11, 1,
          false⟩) ∧
      (∃ e, (start [0xC8, 5, 0x28, 0, 0xA0]).skip.1 = .error e) ∧
      (start [0xC8, 5, 0x28, 0, 0xA0]).skip.2.Exhausted := by
  have hfits : ∀ tree ∈ [Tree.node 2 .array [.leaf 0 (.unsigned 160),
      .node 0 .struct [.leaf 160 (.unsigned 160)]], .leaf 3 (.boolean true)], tree.Fits 0 := by
    have hleaf : ∀ depth tag, Tree.Fits depth (.leaf tag (.unsigned 160)) :=
      fun depth tag => .leaf tag _ trivial
    have hstruct : Tree.Fits 1 (.node 0 .struct [.leaf 160 (.unsigned 160)]) :=
      .node 0 .struct _ (by decide) (by simp) (by simp [hleaf])
    have harray : Tree.Fits 0 (.node 2 .array [.leaf 0 (.unsigned 160),
        .node 0 .struct [.leaf 160 (.unsigned 160)]]) :=
      .node 2 .array _ (by decide) (by simp [Tree.tag]) (by simp [hleaf, hstruct])
    simpa using ⟨harray, .leaf 3 _ trivial⟩
  have hmember : Tree.Occurs (.node 0 .struct [.leaf 160 (.unsigned 160)]) _ _ _ :=
    .here [.leaf 0 (.unsigned 160)] []
  have hinner := Tree.Occurs.inside [] [.leaf 3 (.boolean true)] 2 .array _ _ _ hmember
  obtain ⟨e, bytes, hput, hfinish, _, hskip⟩ :=
    skip_one_tree.1 _ (List.replicate 20 0) hfits (by decide +kernel)
  obtain rfl := congrArg Prod.snd hput
  have hwritten : ((ofBuffer (List.replicate 20 0)).putAll
      [.start 2 .array, .unsigned 0 160, .start 0 .struct, .unsigned 160 160, .stop, .stop,
        .boolean 3 true]).2.finish =
      .ok [0xC8, 2, 0x28, 0, 0xA0, 0xE8, 0, 0x28, 0xA0, 0xA0, 0xA0, 0xA0, 0x49, 3] := by
    decide +kernel
  obtain rfl := Except.ok.inj (hwritten.symm.trans hfinish)
  refine ⟨⟨_, hput, hfinish⟩, (hskip _ _ _ hinner).2.2.1, ?_⟩
  have hfirst : (start [0xC8, 5, 0x28, 0, 0xA0]).next =
      (.ok (some (.start 5 .array)), ⟨[0xC8, 5, 0x28, 0, 0xA0], 2, 1, false⟩) := by decide +kernel
  have hsecond : next ⟨[0xC8, 5, 0x28, 0, 0xA0], 2, 1, false⟩ =
      (.ok (some (.unsigned 0 160)), ⟨[0xC8, 5, 0x28, 0, 0xA0], 5, 1, false⟩) := by decide +kernel
  have hend : next ⟨[0xC8, 5, 0x28, 0, 0xA0], 5, 1, false⟩ =
      (.ok none, ⟨[0xC8, 5, 0x28, 0, 0xA0], 5, 1, false⟩) := by decide +kernel
  refine (skip_one_tree.2 _ 5 .array (congrArg Prod.fst hfirst)).2 fun items d h => ?_
  have hrest := (reads_cons.1 h).2
  rw [hfirst] at hrest
  match items, hrest with
  | [], hrest =>
    cases hrest
    decide
  | [_], hrest =>
    obtain ⟨_, hlast⟩ := reads_cons.1 hrest
    rw [hsecond] at hlast
    cases hlast
    decide
  | _ :: _ :: _, hrest =>
    obtain ⟨_, hlast⟩ := reads_cons.1 hrest
    obtain ⟨hnone, _⟩ := reads_cons.1 hlast
    rw [hsecond, hend] at hnone
    cases hnone

end Cursor

end BurnerTelemetry.Tlv
