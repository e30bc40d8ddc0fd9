import PixelTree.Proofs.Node.Leaves
import PixelTree.Proofs.Node.PlainArray

/-! What a flush does, told by rules. There is one rule for leaves and one for each filter; a list
flushes its first member and then goes on as the list of the others. Whatever a flush keeps is
shown by one induction over these rules.
-/

namespace PixelTree

/-- The fault of a flush that failed. -/
def faultOf? : Except DeviceFault Unit → Option DeviceFault
  | .ok () => none
  | .error fault => some fault

/-- The first fault of two rows of results is that of the first row, or else that of the other. -/
theorem Node.foldr_firstFault_append (results others : List (Except DeviceFault Unit))
    : (results ++ others).foldr firstFault (.ok ())
      = firstFault (results.foldr firstFault (.ok ())) (others.foldr firstFault (.ok ())) := by
  induction results with
  | nil => rfl
  | cons result rest ih =>
      rw [List.cons_append, List.foldr_cons, List.foldr_cons, ih]
      cases result <;> rfl

variable {σ : Type}

-----------------------------------------------------------------------------------------
-- Devices
-----------------------------------------------------------------------------------------

/-- A flush of a string of lights changes its link and notes what came of its frame. -/
theorem Kinet.Output.of_flush {network : Net.Outbound (StateM σ)} {output after : Output}
    {result : Except DeviceFault Unit} {s s' : σ}
    (flushed : (output.flush network).run s = ((after, result), s'))
    : ∃ link sent,
        (output.transmit network).run s = ((link, sent), s')
        ∧ result = sent.mapError (DeviceFault.sending output.address)
        ∧ after = { output with link, lastFault := faultOf? result } := by
  rw [flush, StateT.run_bind] at flushed
  generalize (output.transmit network).run s = sending at flushed ⊢
  obtain ⟨⟨link, sent⟩, between⟩ := sending
  refine ⟨link, sent, ?_⟩
  cases sent with
  | ok done =>
      cases flushed
      exact ⟨rfl, rfl, rfl⟩
  | error fault =>
      cases flushed
      exact ⟨rfl, rfl, rfl⟩

/-- A flush of a rehearsed device counts itself and notes whether it failed. -/
theorem Rehearsal.of_flush {around : Surroundings (StateM σ)} {device after : Rehearsal}
    {result : Except DeviceFault Unit} {s s' : σ}
    (flushed : (device.flush around).run s = ((after, result), s'))
    : after = { device with flushes := device.flushes + 1, lastFault := faultOf? result } := by
  by_cases succeeds : device.failures < device.flushes + 1
  · simp only [flush, succeeds, decide_true, if_true] at flushed
    cases flushed
    rfl
  · simp only [flush, succeeds, decide_false, Bool.false_eq_true, if_false] at flushed
    cases flushed
    rfl

namespace Node

namespace Leaf

/-- Where a leaf sends its frames, and whether a packet is to show them. -/
def wiring : Leaf → Option (Kinet.Address × Bool)
  | .ck output => some (output.address, output.sync)
  | .null _ | .tap _ => none

@[simp] theorem wiring_dark (leaf : Leaf) : leaf.dark.wiring = leaf.wiring := by
  cases leaf <;> rfl

/-- Gives the leaf its frame. -/
def flush (around : Surroundings (StateM σ)) : Leaf → StateM σ (Leaf × Except DeviceFault Unit)
  | .null device => return (.null device.flush, .ok ())
  | .ck output => do
    let (output, result) ← output.flush around.toOutbound
    return (.ck output, result)
  | .tap device => do
    let (device, result) ← device.flush around
    return (.tap device, result)

/-- What a flush of a leaf leaves behind: the same pixels and wiring, and a note of its result. -/
structure Flushed (leaf after : Leaf) (result : Except DeviceFault Unit) : Prop where
  strip_eq : after.strip = leaf.strip
  wiring_eq : after.wiring = leaf.wiring
  lastFault_eq : after.lastFault = faultOf? result

theorem flushed_of_flush {around : Surroundings (StateM σ)} {leaf after : Leaf}
    {result : Except DeviceFault Unit} {s s' : σ}
    (flushed : (leaf.flush around).run s = ((after, result), s'))
    : Flushed leaf after result := by
  cases leaf with
  | null device =>
      cases flushed
      exact ⟨rfl, rfl, rfl⟩
  | ck output =>
      rw [flush, StateT.run_bind] at flushed
      generalize sending : (output.flush around.toOutbound).run s = sent at flushed
      obtain ⟨⟨output', result'⟩, between⟩ := sent
      cases flushed
      obtain ⟨link, sent, _, _, rfl⟩ := Kinet.Output.of_flush sending
      exact ⟨rfl, rfl, rfl⟩
  | tap device =>
      rw [flush, StateT.run_bind] at flushed
      generalize rehearsing : (device.flush around).run s = rehearsed at flushed
      obtain ⟨⟨device', result'⟩, between⟩ := rehearsed
      cases flushed
      obtain rfl := Rehearsal.of_flush rehearsing
      exact ⟨rfl, rfl, rfl⟩

end Leaf

-----------------------------------------------------------------------------------------
-- Rules
-----------------------------------------------------------------------------------------

/-- What becomes of the world in the wait behind a member of a list. -/
def waited (around : Surroundings (StateM σ)) (spacing : Nat) (rest : List Node) (s : σ) : σ :=
  if rest.isEmpty || spacing = 0 then s else ((around.pause spacing).run s).2

/-- A flush of a tree takes the world from one state to another, leaves a tree behind and has a
result.
-/
inductive Flushes (around : Surroundings (StateM σ))
    : Node → σ → Node → Except DeviceFault Unit → σ → Prop where
  | leaf {leaf after : Leaf} {result : Except DeviceFault Unit} {s s' : σ}
    (flushed : (leaf.flush around).run s = ((after, result), s'))
    : Flushes around leaf.toNode s after.toNode result s'
  | empty (spacing : Nat) (counts : List Nat) (s : σ)
    : Flushes around (.list spacing counts []) s (.list spacing counts []) (.ok ()) s
  | member {spacing : Nat} {counts : List Nat} {first first' : Node} {rest rest' : List Node}
    {result results : Except DeviceFault Unit} {s between s' : σ}
    (flushed : Flushes around first s first' result between)
    (others
      : Flushes around (.list spacing counts.tail rest) (waited around spacing rest between)
          (.list spacing counts.tail rest') results s')
    : Flushes around (.list spacing counts (first :: rest)) s
        (.list spacing counts (first' :: rest')) (firstFault result results) s'
  | flip {inner inner' : Node} {result : Except DeviceFault Unit} {s s' : σ}
    (flushed : Flushes around inner s inner' result s')
    : Flushes around (.flip inner) s (.flip inner') result s'
  | still {table : Remap.Table} {inner inner' : Node} {result : Except DeviceFault Unit}
    {s s' : σ} (still : table.rule.moves = false)
    (flushed : Flushes around inner s inner' result s')
    : Flushes around (.remap table inner) s (.remap table inner') result s'
  | moving {table : Remap.Table} {inner inner' : Node} {result : Except DeviceFault Unit}
    {elapsed : Nat} {s between s' : σ} (moves : table.rule.moves = true)
    (clock : around.now.run s = (elapsed, between))
    (flushed : Flushes around (carry table (table.atTime elapsed) inner) between inner' result s')
    : Flushes around (.remap table inner) s (.remap (table.atTime elapsed) inner') result s'
  | solid {color : Color} {inner inner' : Node} {result : Except DeviceFault Unit} {s s' : σ}
    (flushed : Flushes around (inner.setAll color) s inner' result s')
    : Flushes around (.solid color inner) s (.solid color inner') result s'
  | gradient {start goal : Color} {inner inner' : Node} {result : Except DeviceFault Unit}
    {s s' : σ} (flushed : Flushes around (paintGradient start goal inner) s inner' result s')
    : Flushes around (.gradient start goal inner) s (.gradient start goal inner') result s'
  | sparkle {state : Sparkle} {inner inner' : Node} {result : Except DeviceFault Unit}
    {now : Nat} {s between s' : σ} (clock : around.now.run s = (now, between))
    (flushed : Flushes around (sparkleAt now state inner).2 between inner' result s')
    : Flushes around (.sparkle state inner) s (.sparkle (sparkleAt now state inner).1 inner') result
        s'
  | nav {margin : Nat} {inner inner' : Node} {result : Except DeviceFault Unit} {s s' : σ}
    (flushed : Flushes around (paintMargins margin inner) s inner' result s')
    : Flushes around (.nav margin inner) s (.nav margin inner') result s'

/-- Every flush obeys the rules, by induction over the number of nodes. -/
theorem flushes_flush (around : Surroundings (StateM σ))
    : ∀ (node : Node) (s : σ),
        Flushes around node s ((node.flush around).run s).1.1 ((node.flush around).run s).1.2
          ((node.flush around).run s).2
  | .null device, s => by
      rw [flush]
      exact @Flushes.leaf σ around (.null device) _ _ _ _ rfl
  | .ck output, s => by
      rw [flush]
      exact @Flushes.leaf σ around (.ck output) _ _ _ _ rfl
  | .tap device, s => by
      rw [flush]
      exact @Flushes.leaf σ around (.tap device) _ _ _ _ rfl
  | .list spacing counts [], s => by
      rw [flush, flushMembers]
      exact .empty spacing counts s
  | .list spacing counts (first :: rest), s => by
      have head := flushes_flush around first s
      have others := flushes_flush around (.list spacing counts.tail rest)
        (waited around spacing rest ((first.flush around).run s).2)
      rw [flush] at others
      rw [flush, flushMembers]
      have both := Flushes.member head others
      by_cases skipped : (rest.isEmpty || decide (spacing = 0)) = true
      · rw [waited, if_pos skipped] at both
        simp only [skipped]
        exact both
      · rw [waited, if_neg skipped] at both
        simp only [skipped]
        exact both
  | .flip inner, s => by
      have flushed := flushes_flush around inner s
      rw [flush]
      exact .flip flushed
  | .remap table inner, s => by
      by_cases moves : table.rule.moves = true
      · have flushed := flushes_flush around
          (carry table (table.atTime (around.now.run s).1) inner) (around.now.run s).2
        rw [flush, if_pos moves]
        exact .moving moves rfl flushed
      · have flushed := flushes_flush around inner s
        rw [flush, if_neg moves]
        exact .still (Bool.eq_false_iff.mpr moves) flushed
  | .solid color inner, s => by
      have flushed := flushes_flush around (inner.setAll color) s
      rw [flush]
      exact .solid flushed
  | .gradient start goal inner, s => by
      have flushed := flushes_flush around (paintGradient start goal inner) s
      rw [flush]
      exact .gradient flushed
  | .sparkle state inner, s => by
      have flushed := flushes_flush around (sparkleAt (around.now.run s).1 state inner).2
        (around.now.run s).2
      rw [flush]
      exact .sparkle rfl flushed
  | .nav margin inner, s => by
      have flushed := flushes_flush around (paintMargins margin inner) s
      rw [flush]
      exact .nav flushed
termination_by node => node.weight
decreasing_by
  all_goals
    simp only [weight, weightOf, weight_setAll, weight_paintGradient, weight_paintMargins,
      weight_sparkleAt, weight_carry]
    omega

theorem flushes_of_flush {around : Surroundings (StateM σ)} {node node' : Node}
    {result : Except DeviceFault Unit} {s s' : σ}
    (flushed : (node.flush around).run s = ((node', result), s'))
    : Flushes around node s node' result s' := by
  have flushes := flushes_flush around node s
  rwa [flushed] at flushes

-----------------------------------------------------------------------------------------
-- Only colors are painted
-----------------------------------------------------------------------------------------

theorem dark_setAll (inner : Node) (color : Color) : (inner.setAll color).dark = inner.dark :=
  (repainted_setEach inner _ color).frame

theorem dark_visit {τ : Type} (node : Node) (visitor : Nat → Color → τ → Color × τ) (state : τ)
    : (node.visit visitor state).1.dark = node.dark :=
  (repainted_visitEach visitor _ node state).frame

theorem dark_paintGradient (start goal : Color) (inner : Node)
    : (paintGradient start goal inner).dark = inner.dark :=
  (repainted_writeFrom inner _ _).frame

theorem dark_paintMargins (margin : Nat) (inner : Node)
    : (paintMargins margin inner).dark = inner.dark :=
  ((repainted_setEach inner _ _).trans (repainted_setEach _ _ _)).frame

theorem dark_sparkleAt (now : Nat) (sparkle : Sparkle) (inner : Node)
    : (sparkleAt now sparkle inner).2.dark = inner.dark :=
  (repainted_setEach inner _ _).frame

theorem dark_carry (old new : Remap.Table) (inner : Node)
    : (carry old new inner).dark = inner.dark :=
  (repainted_writeThrough new inner _ _).frame

-----------------------------------------------------------------------------------------
-- What every flush keeps
-----------------------------------------------------------------------------------------

/-- A tree that writes and flushes may leave behind: it has as many pixels, the same filters and
the same wires, and if the tree was sound it is sound.
-/
structure Keeps (node other : Node) : Prop where
  count_eq : other.count = node.count
  pixels_eq : other.pixels = node.pixels
  filters_eq : other.filters = node.filters
  wirings_eq : other.leaves.map Leaf.wiring = node.leaves.map Leaf.wiring
  sound : node.Sound → other.Sound

namespace Keeps

variable {node middle other inner inner' : Node}

theorem refl (node : Node) : Keeps node node :=
  ⟨rfl, rfl, rfl, rfl, id⟩

theorem trans (first : Keeps node middle) (second : Keeps middle other) : Keeps node other where
  count_eq := second.count_eq.trans first.count_eq
  pixels_eq := second.pixels_eq.trans first.pixels_eq
  filters_eq := second.filters_eq.trans first.filters_eq
  wirings_eq := second.wirings_eq.trans first.wirings_eq
  sound := second.sound ∘ first.sound

/-- Colors do not matter. -/
theorem of_dark (frame : other.dark = node.dark) : Keeps node other where
  count_eq := count_eq_of_dark frame
  pixels_eq := pixels_eq_of_dark frame
  filters_eq := filters_eq_of_dark frame
  wirings_eq := by
    have same := congrArg (List.map Leaf.wiring) (leaves_eq_of_dark frame)
    simpa only [List.map_map, Function.comp_def, Leaf.wiring_dark] using same
  sound := fun sound => sound.of_dark frame

theorem leaf {leaf after : Leaf} {result : Except DeviceFault Unit}
    (flushed : leaf.Flushed after result)
    : Keeps leaf.toNode after.toNode where
  count_eq := by rw [count_toNode, count_toNode, flushed.strip_eq]
  pixels_eq := by rw [pixels_toNode, pixels_toNode, flushed.strip_eq]
  filters_eq := by rw [filters_toNode, filters_toNode]
  wirings_eq := by rw [leaves_toNode, leaves_toNode, List.map_singleton, List.map_singleton,
    flushed.wiring_eq]
  sound := fun _ => sound_toNode after

theorem flip (kept : Keeps inner inner') : Keeps (.flip inner) (.flip inner') where
  count_eq := kept.count_eq
  pixels_eq := kept.pixels_eq
  filters_eq := congrArg (FilterKind.flip :: ·) kept.filters_eq
  wirings_eq := kept.wirings_eq
  sound := kept.sound

/-- The inner node is kept, and a table that renumbered it has another one in its place. -/
theorem remap {table next : Remap.Table} (kept : Keeps inner inner')
    (sizes : next.size = table.size)
    (renumbers
      : inner.count ≤ Numeral.signedLimit → table.Renumbers inner.count →
          next.Renumbers inner.count)
    : Keeps (.remap table inner) (.remap next inner') where
  count_eq := sizes
  pixels_eq := kept.pixels_eq
  filters_eq := congrArg (FilterKind.remap :: ·) kept.filters_eq
  wirings_eq := kept.wirings_eq
  sound := by
    rintro ⟨renumbered, small, sound⟩
    refine ⟨?_, ?_, kept.sound sound⟩
    · rw [kept.count_eq]
      exact renumbers small renumbered
    · rw [kept.count_eq]
      exact small

theorem solid (color : Color) (kept : Keeps inner inner')
    : Keeps (.solid color inner) (.solid color inner') where
  count_eq := kept.count_eq
  pixels_eq := kept.pixels_eq
  filters_eq := congrArg (FilterKind.solid :: ·) kept.filters_eq
  wirings_eq := kept.wirings_eq
  sound := kept.sound

theorem gradient (start goal : Color) (kept : Keeps inner inner')
    : Keeps (.gradient start goal inner) (.gradient start goal inner') where
  count_eq := kept.count_eq
  pixels_eq := kept.pixels_eq
  filters_eq := congrArg (FilterKind.gradient :: ·) kept.filters_eq
  wirings_eq := kept.wirings_eq
  sound := kept.sound

theorem sparkle (state state' : Sparkle) (kept : Keeps inner inner')
    : Keeps (.sparkle state inner) (.sparkle state' inner') where
  count_eq := kept.count_eq
  pixels_eq := kept.pixels_eq
  filters_eq := congrArg (FilterKind.sparkle :: ·) kept.filters_eq
  wirings_eq := kept.wirings_eq
  sound := kept.sound

theorem nav (margin : Nat) (kept : Keeps inner inner')
    : Keeps (.nav margin inner) (.nav margin inner') where
  count_eq := congrArg (visibleCount · margin) kept.count_eq
  pixels_eq := kept.pixels_eq
  filters_eq := congrArg (FilterKind.nav :: ·) kept.filters_eq
  wirings_eq := kept.wirings_eq
  sound := And.imp_right kept.sound

/-- A list whose first member is kept, and which without it is a list that is kept. -/
theorem member {spacing : Nat} {counts : List Nat} {first first' : Node} {rest rest' : List Node}
    (kept : Keeps first first')
    (others : Keeps (.list spacing counts.tail rest) (.list spacing counts.tail rest'))
    : Keeps (.list spacing counts (first :: rest)) (.list spacing counts (first' :: rest')) where
  count_eq := rfl
  pixels_eq := congrArg₂ (· + ·) kept.pixels_eq others.pixels_eq
  filters_eq := congrArg₂ (· ++ ·) kept.filters_eq others.filters_eq
  wirings_eq := by
    have tails := others.wirings_eq
    simp only [leaves] at tails
    simp only [leaves, leavesOf, List.map_append, kept.wirings_eq, tails]
  sound := by
    rintro ⟨rfl, soundFirst, soundRest⟩
    obtain ⟨counted, soundRest'⟩ := others.sound ⟨rfl, soundRest⟩
    exact ⟨congrArg₂ List.cons kept.count_eq.symm counted, kept.sound soundFirst, soundRest'⟩

end Keeps

/-- A flush keeps a tree, whatever time it is and whatever becomes of the frames, by induction
over the rules.
-/
theorem Flushes.keeps {around : Surroundings (StateM σ)} {node node' : Node}
    {result : Except DeviceFault Unit} {s s' : σ}
    (flushes : Flushes around node s node' result s')
    : Keeps node node' := by
  induction flushes with
  | leaf flushed => exact .leaf (Leaf.flushed_of_flush flushed)
  | empty spacing counts s => exact .refl _
  | member _ _ kept others => exact kept.member others
  | flip _ kept => exact kept.flip
  | still _ _ kept => exact kept.remap rfl (fun _ renumbers => renumbers)
  | moving _ _ _ kept =>
      have kept := (Keeps.of_dark (dark_carry _ _ _)).trans kept
      exact kept.remap (Remap.Table.size_atTime _ _)
        (fun small renumbers => renumbers.atTime small _)
  | solid _ kept => exact ((Keeps.of_dark (dark_setAll _ _)).trans kept).solid _
  | gradient _ kept => exact ((Keeps.of_dark (dark_paintGradient _ _ _)).trans kept).gradient _ _
  | sparkle _ _ kept => exact ((Keeps.of_dark (dark_sparkleAt _ _ _)).trans kept).sparkle _ _
  | nav _ kept => exact ((Keeps.of_dark (dark_paintMargins _ _)).trans kept).nav _

end Node

end PixelTree
