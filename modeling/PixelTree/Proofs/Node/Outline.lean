import PixelTree.Proofs.Node.Session

/-! The outline of a tree: what is left of it without its colors, the places in its tables, the
waits of its sparkles and what its leaves remember. Writes, visits and flushes change nothing in the
outline, and the outline tells the counts, the descriptions and the cached sizes of all nodes.
-/

namespace PixelTree

namespace Remap.Table

/-- The table with every place forgotten. -/
def outline (table : Table) : Table :=
  ⟨table.rule, Array.replicate table.size 0⟩

@[simp] theorem size_outline (table : Table) : table.outline.size = table.size :=
  Array.size_replicate

theorem outline_atTime (table : Table) (elapsed : Nat)
    : (table.atTime elapsed).outline = table.outline := by
  rw [outline, rule_atTime, size_atTime, outline]

/-- The first table of a rule has a place for each pixel of the strip that the rule applies to. -/
theorem size_initial {rule : Rule} {count : Nat} (applies : rule.check count = .ok ())
    : (initial rule count).size = count := by
  cases rule with
  | random seed =>
      have shuffled := (Random.perm_shuffle seed (Array.range count)).length_eq
      rwa [Array.length_toList, Array.length_toList, Array.size_range] at shuffled
  | skip stride =>
      have positive : 0 < stride := by
        rw [Rule.check] at applies
        split at applies
        · cases applies
        · next nonzero => exact Nat.pos_of_ne_zero nonzero
      have run := (@perm_interleaved count stride positive).length_eq
      rwa [List.length_range] at run
  | shift offset => simp [initial, size, shifted]
  | rotate speed => exact (size_atTime _ 0).trans Array.size_replicate
  | bounce speed after => exact (size_atTime _ 0).trans Array.size_replicate

end Remap.Table

namespace Sparkle

/-- The sparkle with its seed unused and every pixel dark. -/
def outline (sparkle : Sparkle) : Sparkle :=
  { sparkle with
    generator := Random.Generator.ofSeed sparkle.seed
    twinkles := List.replicate sparkle.twinkles.length ⟨false, 0⟩ }

theorem outline_advance (sparkle : Sparkle) (now : Nat)
    : (sparkle.advance now).outline = sparkle.outline := by
  simp only [advance, outline, Twinkle.length_advance]

end Sparkle

namespace Node

/-- The leaf in black, as if it had never been flushed. -/
def Leaf.outline : Leaf → Leaf
  | .null device => .null (MemoryDevice.fresh device.strip.size)
  | .ck output =>
    .ck
      { Kinet.Output.fresh output.address with
        strip := output.strip.darkened
        sync := output.sync }
  | .tap device => .tap (Rehearsal.fresh device.strip.size device.label device.failures)

mutual
def outline : Node → Node
  | .null device => (Leaf.null device).outline.toNode
  | .ck output => (Leaf.ck output).outline.toNode
  | .tap device => (Leaf.tap device).outline.toNode
  | .list spacing counts members => .list spacing counts (outlineAll members)
  | .flip inner => .flip inner.outline
  | .remap table inner => .remap table.outline inner.outline
  | .solid paint inner => .solid paint inner.outline
  | .gradient start goal inner => .gradient start goal inner.outline
  | .sparkle state inner => .sparkle state.outline inner.outline
  | .nav margin inner => .nav margin inner.outline

/-- The outlines of several trees. -/
def outlineAll : List Node → List Node
  | [] => []
  | node :: rest => node.outline :: outlineAll rest
end

theorem outlineAll_eq_map (members : List Node) : outlineAll members = members.map outline := by
  induction members with
  | nil => rfl
  | cons node rest ih => rw [outlineAll, ih, List.map_cons]

-----------------------------------------------------------------------------------------
-- Nodes of a tree
-----------------------------------------------------------------------------------------

/-- The members of a list, or the one node that a filter is around. -/
def children : Node → List Node
  | .null _ | .ck _ | .tap _ => []
  | .list _ _ members => members
  | .flip inner => [inner]
  | .remap _ inner => [inner]
  | .solid _ inner => [inner]
  | .gradient _ _ inner => [inner]
  | .sparkle _ inner => [inner]
  | .nav _ inner => [inner]

/-- The node that a path leads to, which tells what child to go to at each node on the way. -/
def at? (node : Node) : List Nat → Option Node
  | [] => some node
  | child :: path => node.children[child]?.bind (fun inner => inner.at? path)

/-- The sizes that a node keeps of its children are their counts: those of the members of a list,
whose sum is the count of the list, the size of a table, and the number of sparkling pixels.
-/
def SizesFit : Node → Prop
  | .list spacing counts members =>
    counts = members.map count ∧ (Node.list spacing counts members).count = (members.map count).sum
  | .remap table inner => table.size = inner.count
  | .sparkle state inner => state.twinkles.length = inner.count
  | _ => True

-----------------------------------------------------------------------------------------
-- What the outline tells
-----------------------------------------------------------------------------------------

@[simp] theorem count_outline (node : Node) : node.outline.count = node.count := by
  cases node with
  | null device => exact Array.size_replicate
  | ck output => exact Array.size_replicate
  | tap device => exact Array.size_replicate
  | list spacing counts members => rfl
  | flip inner => exact count_outline inner
  | remap table inner => exact table.size_outline
  | solid paint inner => exact count_outline inner
  | gradient start goal inner => exact count_outline inner
  | sparkle state inner => exact count_outline inner
  | nav margin inner => rw [outline, count, count, count_outline inner]

mutual
theorem describe_outline (node : Node) : node.outline.describe = node.describe := by
  cases node with
  | null device =>
      have size : (Strip.dark device.strip.size).size = device.strip.size := Array.size_replicate
      simp only [outline, Leaf.outline, Leaf.toNode, describe, MemoryDevice.fresh, size]
  | ck output => rfl
  | tap device =>
      have size : (Strip.dark device.strip.size).size = device.strip.size := Array.size_replicate
      simp only [outline, Leaf.outline, Leaf.toNode, describe, Rehearsal.display, Rehearsal.fresh,
        size]
  | list spacing counts members =>
      rw [outline, describe, describe, describeAll_outlineAll members]
  | flip inner => rw [outline, describe, describe, describe_outline inner]
  | remap table inner => rw [outline, describe, describe, describe_outline inner]; rfl
  | solid paint inner => rw [outline, describe, describe, describe_outline inner]
  | gradient start goal inner => rw [outline, describe, describe, describe_outline inner]
  | sparkle state inner => rw [outline, describe, describe, describe_outline inner]; rfl
  | nav margin inner => rw [outline, describe, describe, describe_outline inner]

theorem describeAll_outlineAll (members : List Node)
    : describeAll (outlineAll members) = describeAll members := by
  cases members with
  | nil => rfl
  | cons node rest =>
      rw [outlineAll, describeAll, describeAll, describe_outline node,
        describeAll_outlineAll rest]
end

theorem children_outline (node : Node) : node.outline.children = node.children.map outline := by
  cases node with
  | list spacing counts members => exact outlineAll_eq_map members
  | _ => rfl

/-- A path leads to the outline of the node that it leads to in the tree, by induction over it. -/
theorem at?_outline (node : Node) (path : List Nat)
    : node.outline.at? path = (node.at? path).map outline := by
  induction path generalizing node with
  | nil => rfl
  | cons child path ih =>
      rw [at?, at?, children_outline, List.getElem?_map, Option.bind_map, Option.map_bind]
      congr 1
      funext inner
      exact ih inner

theorem counts_outlineAll (members : List Node)
    : (outlineAll members).map count = members.map count := by
  rw [outlineAll_eq_map, List.map_map]
  exact List.map_congr_left (fun node _ => count_outline node)

theorem sizesFit_outline (node : Node) : node.outline.SizesFit ↔ node.SizesFit := by
  cases node with
  | list spacing counts members =>
      simp only [outline, SizesFit, count, counts_outlineAll]
  | remap table inner =>
      simp only [outline, SizesFit, Remap.Table.size_outline, count_outline]
  | sparkle state inner =>
      simp only [outline, SizesFit, Sparkle.outline, List.length_replicate, count_outline]
  | _ => rfl

-----------------------------------------------------------------------------------------
-- What leaves the outline alone
-----------------------------------------------------------------------------------------

mutual
/-- Colors are not part of the outline. -/
theorem outline_dark (node : Node) : node.dark.outline = node.outline := by
  cases node with
  | null device =>
      simp only [dark, outline, Leaf.outline, Strip.size_darkened]
  | ck output =>
      have again : output.strip.darkened.darkened = output.strip.darkened :=
        congrArg Strip.dark output.strip.size_darkened
      simp only [dark, outline, Leaf.outline, again]
  | tap device =>
      simp only [dark, outline, Leaf.outline, Strip.size_darkened]
  | list spacing counts members => rw [dark, outline, outline, outlineAll_darkAll members]
  | flip inner => rw [dark, outline, outline, outline_dark inner]
  | remap table inner => rw [dark, outline, outline, outline_dark inner]
  | solid paint inner => rw [dark, outline, outline, outline_dark inner]
  | gradient start goal inner => rw [dark, outline, outline, outline_dark inner]
  | sparkle state inner => rw [dark, outline, outline, outline_dark inner]
  | nav margin inner => rw [dark, outline, outline, outline_dark inner]

theorem outlineAll_darkAll (members : List Node)
    : outlineAll (darkAll members) = outlineAll members := by
  cases members with
  | nil => rfl
  | cons node rest =>
      rw [darkAll, outlineAll, outlineAll, outline_dark node, outlineAll_darkAll rest]
end

theorem outline_eq_of_dark {node other : Node} (frame : other.dark = node.dark)
    : other.outline = node.outline := by
  rw [← outline_dark other, frame, outline_dark]

theorem outline_toNode (leaf : Leaf) : leaf.toNode.outline = leaf.outline.toNode := by
  cases leaf <;> rfl

variable {σ : Type}

theorem Leaf.outline_eq_of_flush {around : Surroundings (StateM σ)} {leaf after : Leaf}
    {result : Except DeviceFault Unit} {s s' : σ}
    (flushed : (leaf.flush around).run s = ((after, result), s'))
    : after.outline = leaf.outline := by
  cases leaf with
  | null device =>
      cases flushed
      rfl
  | ck output =>
      rw [flush, StateT.run_bind] at flushed
      generalize sending : (output.flush around.toOutbound).run s = sent at flushed
      obtain ⟨⟨output', result'⟩, between⟩ := sent
      cases flushed
      obtain ⟨link, sent, _, _, rfl⟩ := Kinet.Output.of_flush sending
      rfl
  | tap device =>
      rw [flush, StateT.run_bind] at flushed
      generalize rehearsing : (device.flush around).run s = rehearsed at flushed
      obtain ⟨⟨device', result'⟩, between⟩ := rehearsed
      cases flushed
      obtain rfl := Rehearsal.of_flush rehearsing
      rfl

/-- A flush leaves the outline alone, whatever time it is and whatever becomes of the frames, by
induction over the rules.
-/
theorem Flushes.outline_eq {around : Surroundings (StateM σ)} {node node' : Node}
    {result : Except DeviceFault Unit} {s s' : σ}
    (flushes : Flushes around node s node' result s')
    : node'.outline = node.outline := by
  induction flushes with
  | leaf flushed => rw [outline_toNode, outline_toNode, Leaf.outline_eq_of_flush flushed]
  | empty spacing counts s => rfl
  | member _ _ same others =>
      simp only [outline, list.injEq, true_and] at others
      rw [outline, outline, outlineAll, outlineAll, same, others]
  | flip _ same => rw [outline, outline, same]
  | still _ _ same => rw [outline, outline, same]
  | moving _ _ _ same =>
      rw [outline, outline, same, outline_eq_of_dark (dark_carry _ _ _),
        Remap.Table.outline_atTime]
  | solid _ same => rw [outline, outline, same, outline_eq_of_dark (dark_setAll _ _)]
  | gradient _ same => rw [outline, outline, same, outline_eq_of_dark (dark_paintGradient _ _ _)]
  | sparkle _ _ same =>
      rw [outline, outline, same, outline_eq_of_dark (dark_sparkleAt _ _ _), sparkleAt,
        Sparkle.outline_advance]
  | nav _ same => rw [outline, outline, same, outline_eq_of_dark (dark_paintMargins _ _)]

end Node

/-- A session leaves the outline of its tree alone, by induction over what was done. -/
theorem Session.Reached.outline_eq {tree : Node} {session : Session}
    (reached : session.Reached tree)
    : session.tree.outline = tree.outline := by
  induction reached with
  | start => rfl
  | set _ index color ih => exact (Node.outline_eq_of_dark (Node.dark_set _ index color)).trans ih
  | setAll _ color ih => exact (Node.outline_eq_of_dark (Node.dark_setAll _ color)).trans ih
  | clear _ ih => exact (Node.outline_eq_of_dark (Node.dark_setAll _ Color.black)).trans ih
  | visit _ visitor state ih =>
      exact (Node.outline_eq_of_dark (Node.dark_visit _ visitor state)).trans ih
  | flush _ around s ih => exact (Node.flushes_flush around _ s).outline_eq.trans ih

-----------------------------------------------------------------------------------------
-- Built trees
-----------------------------------------------------------------------------------------

/-- A filter of the standard catalog is around the node that it was applied to. -/
theorem Wraps.children_eq {stage : Descriptor.Stage} {inner node : Node}
    (wraps : Wraps stage inner node)
    : node.children = [inner] := by
  cases wraps <;> rfl

theorem Wraps.sizesFit {stage : Descriptor.Stage} {inner node : Node}
    (wraps : Wraps stage inner node)
    : node.SizesFit := by
  cases wraps with
  | remap fits => exact Remap.Table.size_initial fits.applies
  | sparkle color seed _ hon hoff => exact Twinkle.length_start _ _ _ _
  | flip => trivial
  | solid color => trivial
  | gradient start goal => trivial
  | nav _ word => trivial

theorem Node.sizesFit_ofMembers (spacing : Nat) (members : List Node)
    : (ofMembers spacing members).SizesFit := by
  exact ⟨rfl, List.sum_eq_foldr.symm⟩

/-- The sizes in a built tree fit at all of its nodes, by induction over the tree. -/
theorem Fresh.sizesFit_at {spacing : Nat} {tree node : Node} (fresh : Fresh spacing tree)
    {path : List Nat} (found : tree.at? path = some node)
    : node.SizesFit := by
  induction fresh generalizing path with
  | null word =>
      cases path with
      | nil => cases found; trivial
      | cons child path => cases found
  | ck readable =>
      cases path with
      | nil => cases found; trivial
      | cons child path => cases found
  | @list members several _ ih =>
      cases path with
      | nil => cases found; exact Node.sizesFit_ofMembers spacing members
      | cons child path =>
          obtain ⟨member, among, inside⟩ := Option.bind_eq_some_iff.mp found
          exact ih member (List.mem_of_getElem? among) inside
  | filter wraps _ ih =>
      cases path with
      | nil => cases found; exact wraps.sizesFit
      | cons child path =>
          obtain ⟨inner, among, inside⟩ := Option.bind_eq_some_iff.mp found
          rw [wraps.children_eq] at among
          obtain rfl := List.mem_singleton.mp (List.mem_of_getElem? among)
          exact ih inside

namespace Session

variable {spacing : Nat} {seeds : SeedSupply} {descriptor : String} {tree : Node}
  {session : Session}

/-- Whatever was done to a built tree, each path leads to a node with the count and the description
that the node had at first, or to none as at first, and the sizes that the node keeps fit.
-/
theorem shape_frozen
    (built : buildTree Catalog.standard spacing seeds descriptor = .ok tree)
    (reached : session.Reached tree) (path : List Nat)
    : (session.tree.at? path).map Node.count = (tree.at? path).map Node.count
      ∧ (session.tree.at? path).map Node.describe = (tree.at? path).map Node.describe
      ∧ ∀ node, session.tree.at? path = some node → node.SizesFit := by
  have outlines : (session.tree.at? path).map Node.outline = (tree.at? path).map Node.outline := by
    rw [← Node.at?_outline, reached.outline_eq, Node.at?_outline]
  have told {α : Type} {f : Node → α} (tells : ∀ node, f node.outline = f node)
      : (session.tree.at? path).map f = (tree.at? path).map f := by
    have same := congrArg (Option.map f) outlines
    simpa only [Option.map_map, Function.comp_def, tells] using same
  refine ⟨told Node.count_outline, told Node.describe_outline, ?_⟩
  intro node found
  rw [found, Option.map_some] at outlines
  obtain ⟨first, inTree, same⟩ := Option.map_eq_some_iff.mp outlines.symm
  rw [← Node.sizesFit_outline, ← same, Node.sizesFit_outline]
  exact (fresh_of_buildTree built).sizesFit_at inTree

/-- Two flushes of a sparkling list around a rotating strip: the list, the strip and the sparkle
keep their counts and descriptions, and the table has a place for each of three pixels.
-/
theorem shape_frozen_of_sparkle
    : ∃ tree,
        buildTree Catalog.standard 0 ⟨fun _ => 7⟩ "sparkle:red,0,0|[rotate:0.5|null:3, null:2]"
          = .ok tree
        ∧ (tree.at? [0, 0]).map Node.describe = some "rotate:0.5|null:3"
        ∧ ∀ around : Surroundings (StateM Unit),
            (((start tree).flush around ()).flush around ()).Reached tree
            ∧ ∃ node,
                (((start tree).flush around ()).flush around ()).tree.at? [0, 0] = some node
                ∧ node.count = 3 ∧ node.describe = "rotate:0.5|null:3" ∧ node.SizesFit := by
  have facts : (buildTree Catalog.standard 0 ⟨fun _ => 7⟩
      "sparkle:red,0,0|[rotate:0.5|null:3, null:2]").map
      (fun tree => ((tree.at? [0, 0]).map Node.count, (tree.at? [0, 0]).map Node.describe))
      = .ok (some 3, some "rotate:0.5|null:3") := by
    decide +kernel
  obtain ⟨tree, built, facts⟩ := exists_of_map_eq_ok facts
  obtain ⟨count, text⟩ := Prod.mk.inj facts
  refine ⟨tree, built, text, ?_⟩
  intro around
  have reached : (((start tree).flush around ()).flush around ()).Reached tree :=
    .flush (.flush .start around ()) around ()
  obtain ⟨counts, texts, fits⟩ := shape_frozen built reached [0, 0]
  rw [count, Option.map_eq_some_iff] at counts
  rw [text, Option.map_eq_some_iff] at texts
  obtain ⟨node, found, three⟩ := counts
  obtain ⟨_, found', described⟩ := texts
  obtain rfl := Option.some.inj (found.symm.trans found')
  exact ⟨reached, node, found, three, described, fits node found⟩

end Session

end PixelTree
