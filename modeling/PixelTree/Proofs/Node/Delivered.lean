import PixelTree.Proofs.Kinet.Delivery
import PixelTree.Proofs.Node.Calm
import PixelTree.Proofs.Node.EveryLeaf

/-! From writes to datagrams. In a tree of filters that only renumber, over strings of lights on the
outputs of supplies, a flush hands one datagram to the link of each string, and every color that was
written is in one of them, at the place of its pixel.
-/

namespace PixelTree

variable {σ : Type}

-----------------------------------------------------------------------------------------
-- Frames that no packet has to show
-----------------------------------------------------------------------------------------

/-- A string of lights whose frames are shown as they come sends its frame and nothing else. -/
theorem Kinet.Output.run_transmit {network : Net.Outbound (StateM σ)} {output : Output}
    (unsynced : output.sync = false) (s : σ)
    : (output.transmit network).run s = (output.link.send network output.frame).run s := by
  rw [transmit, StateT.run_bind, needsSync, unsynced]
  generalize (output.link.send network output.frame).run s = sending
  obtain ⟨⟨link, sent⟩, between⟩ := sending
  cases sent <;> rfl

namespace Node

/-- Leaves of several trees are those of each of them. -/
theorem mem_leavesOf {members : List Node} {leaf : Leaf}
    : leaf ∈ leavesOf members ↔ ∃ member ∈ members, leaf ∈ member.leaves := by
  induction members with
  | nil => simp [leavesOf]
  | cons node rest ih => simp [leavesOf, ih]

end Node

open Node (Leaf)

/-- A filter of the standard catalog has the leaves of the inner node. -/
theorem Wraps.leaves_eq {stage : Descriptor.Stage} {inner node : Node}
    (wraps : Wraps stage inner node)
    : node.leaves = inner.leaves := by
  cases wraps <;> rfl

/-- No frame of a built tree waits for a packet that shows it, by induction over its nodes. -/
theorem Fresh.unsynced {spacing : Nat} {node : Node} (fresh : Fresh spacing node)
    : ∀ wire ∈ node.leaves.map Leaf.wiring, ∀ address sync,
        wire = some (address, sync) → sync = false := by
  simp only [List.forall_mem_map]
  induction fresh with
  | null word => simp [Node.ofCount, Node.leaves, Leaf.wiring]
  | ck readable =>
      simp [Node.leaves, Leaf.wiring, Kinet.Output.fresh, Kinet.Output.onPort]
  | list several _ ih =>
      intro leaf found
      obtain ⟨member, among, inMember⟩ := Node.mem_leavesOf.mp found
      exact ih member among leaf inMember
  | filter wraps _ ih =>
      rw [wraps.leaves_eq]
      exact ih

namespace Node

namespace Leaf

/-- The version of the protocol that a leaf speaks, if it is a string of lights. -/
def protocol? (leaf : Leaf) : Option Kinet.Protocol :=
  leaf.wiring.map (fun wire => wire.1.protocol)

def link? : Leaf → Option Kinet.Link
  | .ck output => some output.link
  | .null _ | .tap _ => none

/-- The packet for the port of a leaf that shows its pixels, if it is a string of lights. -/
def portPacket? : Leaf → Option Kinet.Bytes
  | .ck output =>
    some
      (Kinet.portOut output.address.port output.address.dmxUniverse output.strip.levels)
  | .null _ | .tap _ => none

@[simp] theorem link?_dark (leaf : Leaf) : leaf.dark.link? = leaf.link? := by
  cases leaf <;> rfl

/-- The three bytes of each pixel of a leaf stand in its packet behind a header of 24 bytes. -/
theorem take_drop_of_portPacket? {leaf : Leaf} {datagram : Kinet.Bytes} {position : Nat}
    (packed : leaf.portPacket? = some datagram) (inside : position < leaf.strip.size)
    : (datagram.drop (24 + 3 * position)).take 3 = (leaf.strip.get position).levels := by
  cases leaf with
  | null device => cases packed
  | ck output =>
      obtain rfl := Option.some.inj packed
      exact Kinet.Output.take_drop_portOut inside _ _
  | tap device => cases packed

end Leaf

-----------------------------------------------------------------------------------------
-- Datagrams and the links that they are handed to
-----------------------------------------------------------------------------------------

/-- One datagram that is handed to a link: the link before and after, and what came of it. -/
structure Handover where
  link : Kinet.Link
  datagram : Kinet.Bytes
  after : Kinet.Link
  result : Except SystemFault Unit

def Handover.Happens (around : Surroundings (StateM σ)) (handover : Handover) (s s' : σ) : Prop :=
  (handover.link.send around.toOutbound handover.datagram).run s
    = ((handover.after, handover.result), s')

/-- A leaf is flushed by handing its link the packet with its pixels. -/
structure LeafFlush.HandsOver (event : LeafFlush) (handover : Handover) : Prop where
  link_eq : event.found.link? = some handover.link
  after_eq : event.left.link? = some handover.after
  packet_eq : event.left.portPacket? = some handover.datagram

/-- A string of lights on an output of a supply is flushed by one handover. -/
theorem LeafFlush.exists_handsOver {around : Surroundings (StateM σ)} {event : LeafFlush}
    {s s' : σ} {address : Kinet.Address} (wired : event.found.wiring = some (address, false))
    (version : address.protocol = .v2) (happened : event.Happens around s s')
    : ∃ handover, event.HandsOver handover ∧ handover.Happens around s s' := by
  obtain ⟨found, left, result⟩ := event
  cases found with
  | null device => cases wired
  | tap device => cases wired
  | ck output =>
      obtain ⟨rfl, unsynced⟩ := Prod.mk.inj (Option.some.inj wired)
      simp only [Happens, Leaf.flush, StateT.run_bind] at happened
      generalize sending : (output.flush around.toOutbound).run s = sent at happened
      obtain ⟨⟨output', result'⟩, between⟩ := sent
      cases happened
      obtain ⟨link, sent, transmitted, _, rfl⟩ := Kinet.Output.of_flush sending
      rw [Kinet.Output.run_transmit unsynced] at transmitted
      refine ⟨⟨output.link, output.frame, link, sent⟩, ⟨rfl, rfl, ?_⟩, transmitted⟩
      simp only [Leaf.portPacket?, Kinet.Output.frame, version]

theorem map_eq_map_of_forall₂ {α β γ : Type} {f : α → γ} {g : β → γ} {first : List α}
    {second : List β} (all : List.Forall₂ (fun a b => f a = g b) first second)
    : first.map f = second.map g := by
  rw [← List.forall₂_eq_eq_eq, List.forall₂_map_left_iff, List.forall₂_map_right_iff]
  exact all

/-- A flush of a tree that consists of one handover to the link of each leaf, from left to right:
each link is handed the packet with the pixels of its leaf.
-/
structure HandsOver (around : Surroundings (StateM σ)) (node : Node) (s : σ) (node' : Node) (s' : σ)
    (handovers : List Handover)
    : Prop where
  course : Course around (Handover.Happens around) s handovers s'
  links : node.leaves.map Leaf.link? = handovers.map (fun handover => some handover.link)
  linksAfter : node'.leaves.map Leaf.link? = handovers.map (fun handover => some handover.after)
  packets
    : node'.leaves.map Leaf.portPacket? = handovers.map (fun handover => some handover.datagram)

/-- If all leaves are strings of lights on outputs, flushes of all leaves are handovers. -/
theorem ReachesLeaves.exists_handsOver {around : Surroundings (StateM σ)} {node node' : Node}
    {result : Except DeviceFault Unit} {s s' : σ} {events : List LeafFlush}
    (reaches : ReachesLeaves around node s node' result s' events)
    (wired
      : ∀ leaf ∈ node.leaves, ∃ address,
          leaf.wiring = some (address, false) ∧ address.protocol = .v2)
    : ∃ handovers, HandsOver around node s node' s' handovers := by
  have each : ∀ event ∈ events, ∀ {s s'}, event.Happens around s s' →
      ∃ handover, event.HandsOver handover ∧ handover.Happens around s s' := by
    intro event member s s' happened
    have dark := List.mem_map_of_mem (f := fun event => event.found.dark) member
    rw [reaches.found] at dark
    obtain ⟨leaf, inTree, same⟩ := List.mem_map.mp dark
    obtain ⟨address, wire, version⟩ := wired leaf inTree
    rw [← Leaf.wiring_dark, same, Leaf.wiring_dark] at wire
    exact event.exists_handsOver wire version happened
  obtain ⟨handovers, all, course⟩ := reaches.course.refine each
  have found : node.leaves.map Leaf.link? = events.map (fun event => event.found.link?) := by
    have same := congrArg (List.map Leaf.link?) reaches.found
    simpa only [List.map_map, Function.comp_def, Leaf.link?_dark] using same.symm
  refine ⟨handovers, course, ?_, ?_, ?_⟩
  · rw [found]
    exact map_eq_map_of_forall₂ (all.imp (fun _ _ hands => hands.link_eq))
  · rw [← reaches.left, List.map_map]
    exact map_eq_map_of_forall₂ (all.imp (fun _ _ hands => hands.after_eq))
  · rw [← reaches.left, List.map_map]
    exact map_eq_map_of_forall₂ (all.imp (fun _ _ hands => hands.packet_eq))

/-- What is shown at an index is in the packet for the leaf that its place is in. -/
theorem HandsOver.exists_carried {around : Surroundings (StateM σ)} {node node' : Node} {s s' : σ}
    {handovers : List Handover} {index leaf position : Nat}
    (handsOver : HandsOver around node s node' s' handovers)
    (placed : node'.place index = some ⟨leaf, position⟩)
    : ∃ handover, handovers[leaf]? = some handover
        ∧ (handover.datagram.drop (24 + 3 * position)).take 3 = (node'.get index).levels := by
  have shown := cell?_place node' placed
  rw [cell?, Cell.color?, strips_eq_map, List.getElem?_map, Option.bind_eq_some_iff] at shown
  obtain ⟨strip, atLeaf, pixel⟩ := shown
  obtain ⟨found, inTree, rfl⟩ := Option.map_eq_some_iff.mp atLeaf
  have packet := congrArg (fun packets => packets[leaf]?) handsOver.packets
  simp only [List.getElem?_map, inTree, Option.map_some] at packet
  obtain ⟨handover, sent, packed⟩ := Option.map_eq_some_iff.mp packet.symm
  have inside : position < found.strip.size := (Array.getElem?_eq_some_iff.mp pixel).1
  refine ⟨handover, sent, ?_⟩
  rw [Leaf.take_drop_of_portPacket? packed.symm inside, Strip.get, pixel, Option.getD_some]

end Node

-----------------------------------------------------------------------------------------
-- Delivery
-----------------------------------------------------------------------------------------

namespace Session

open Node

/-- A flush of a session that delivers what was written. The indices are in bijection with the
pixels of the leaves, as the tables lead to them after the flush. One datagram is handed to the
link of each leaf, and at the place of each pixel it has the levels of the color that was last
written to the index of the pixel.
-/
structure Delivers (session : Session) (around : Surroundings (StateM σ)) (s : σ)
    (handovers : List Handover)
    : Prop where
  handsOver
    : HandsOver around session.tree s (session.flush around s).tree
        ((session.tree.flush around).run s).2 handovers
  placed
    : ∀ index, ((session.flush around s).tree.place index).isSome ↔ index < session.tree.count
  injective
    : ∀ {index other cell},
        (session.flush around s).tree.place index = some cell →
          (session.flush around s).tree.place other = some cell → index = other
  onto
    : ∀ {leaf position found},
        (session.flush around s).tree.leaves[leaf]? = some found → position < found.strip.size →
          ∃ index, (session.flush around s).tree.place index = some ⟨leaf, position⟩
  carried
    : ∀ {index leaf position},
        (session.flush around s).tree.place index = some ⟨leaf, position⟩ →
          ∃ handover, handovers[leaf]? = some handover
            ∧ (handover.datagram.drop (24 + 3 * position)).take 3
              = (session.written.getD index Color.black).levels

variable {spacing : Nat} {seeds : SeedSupply} {descriptor : String} {tree : Node}
  {session : Session}

/-- Strings of lights on outputs stay what they are. -/
theorem Reached.wired (reached : session.Reached tree)
    (built : buildTree Catalog.standard spacing seeds descriptor = .ok tree)
    (outputs : ∀ leaf ∈ tree.leaves, leaf.protocol? = some .v2)
    : ∀ leaf ∈ session.tree.leaves, ∃ address,
        leaf.wiring = some (address, false) ∧ address.protocol = .v2 := by
  intro leaf inTree
  have wire := List.mem_map_of_mem (f := Leaf.wiring) inTree
  rw [reached.keeps.wirings_eq] at wire
  obtain ⟨first, inFirst, same⟩ := List.mem_map.mp wire
  have version := outputs first inFirst
  rw [Leaf.protocol?, same, Option.map_eq_some_iff] at version
  obtain ⟨⟨address, sync⟩, found, version⟩ := version
  obtain rfl := (fresh_of_buildTree built).unsynced _ wire address sync found
  exact ⟨address, found, version⟩

end Session

end PixelTree
