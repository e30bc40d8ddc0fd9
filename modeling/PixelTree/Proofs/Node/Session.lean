import PixelTree.Proofs.Node.Reachable

/-! Sessions: a tree in use, together with what its user has seen of it. -/

namespace PixelTree

/-- A tree, a plain array of the colors that were last written to its visible indices, and the
result of its last flush, if it was flushed.
-/
structure Session where
  tree : Node
  written : List Color
  lastResult : Option (Except DeviceFault Unit)

namespace Session

/-- A session with a tree that nothing was written to: all of its pixels count as black. -/
def start (tree : Node) : Session :=
  ⟨tree, List.replicate tree.count Color.black, none⟩

def set (session : Session) (index : Nat) (color : Color) : Session :=
  { session with
    tree := session.tree.set index color
    written := session.written.set index color }

def setAll (session : Session) (color : Color) : Session :=
  { session with
    tree := session.tree.setAll color
    written := List.replicate session.written.length color }

def clear (session : Session) : Session :=
  { session with
    tree := session.tree.clear
    written := List.replicate session.written.length Color.black }

/-- A visit of all pixels, which writes what the visitor answers when it is shown what was last
written.
-/
def visit {σ : Type} (session : Session) (visitor : Nat → Color → σ → Color × σ) (state : σ)
    : Session :=
  { session with
    tree := (session.tree.visit visitor state).1
    written := (visitColors visitor 0 session.written state).1 }

/-- A flush writes nothing. -/
def flush {σ : Type} (session : Session) (around : Surroundings (StateM σ)) (s : σ) : Session :=
  { session with
    tree := ((session.tree.flush around).run s).1.1
    lastResult := some ((session.tree.flush around).run s).1.2 }

/-- The sessions that any sequence of writes, visits and flushes leads to. Each flush happens in
surroundings of any kind.
-/
inductive Reached (tree : Node) : Session → Prop where
  | start : Reached tree (.start tree)
  | set {session : Session} (earlier : Reached tree session) (index : Nat) (color : Color)
    : Reached tree (session.set index color)
  | setAll {session : Session} (earlier : Reached tree session) (color : Color)
    : Reached tree (session.setAll color)
  | clear {session : Session} (earlier : Reached tree session) : Reached tree session.clear
  | visit {session : Session} (earlier : Reached tree session) {σ : Type}
    (visitor : Nat → Color → σ → Color × σ) (state : σ)
    : Reached tree (session.visit visitor state)
  | flush {session : Session} (earlier : Reached tree session) {σ : Type}
    (around : Surroundings (StateM σ)) (s : σ)
    : Reached tree (session.flush around s)

namespace Reached

variable {tree : Node} {session : Session}

/-- The tree of a session with a built tree is reachable. -/
theorem reachable {spacing : Nat} {seeds : SeedSupply} {descriptor : String}
    (reached : session.Reached tree)
    (built : buildTree Catalog.standard spacing seeds descriptor = .ok tree)
    (fits : tree.FitsMemory)
    : Node.Reachable spacing seeds descriptor session.tree := by
  induction reached with
  | start => exact .built built fits
  | set _ index color ih => exact .set ih index color
  | setAll _ color ih => exact .setAll ih color
  | clear _ ih => exact .clear ih
  | visit _ visitor state ih => exact .visit ih visitor state
  | flush _ around s ih => exact .flush ih around s

/-- A session keeps its tree, by induction over what was done. -/
theorem keeps (reached : session.Reached tree) : Node.Keeps tree session.tree := by
  induction reached with
  | start => exact .refl tree
  | set _ index color ih => exact ih.trans (.of_dark (Node.dark_set _ index color))
  | setAll _ color ih => exact ih.trans (.of_dark (Node.dark_setAll _ color))
  | clear _ ih => exact ih.trans (.of_dark (Node.dark_setAll _ Color.black))
  | visit _ visitor state ih => exact ih.trans (.of_dark (Node.dark_visit _ visitor state))
  | flush _ around s ih => exact ih.trans (Node.flushes_flush around _ s).keeps

end Reached

end Session

end PixelTree
