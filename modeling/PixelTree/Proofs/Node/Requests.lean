import PixelTree.Proofs.Node.Flushing

/-! What can be asked of a tree, one request after the other. Two trees behave alike if nobody can
tell them apart by their answers and by what becomes of the world. A relation between trees that
show the same and tell of the same fault, which writes and flushes keep, shows that they do.
-/

namespace PixelTree

/-- What is asked of a tree. A visitor has a state of its own, which a visit starts with. -/
inductive Request (τ : Type) where
  | count
  | get (index : Nat)
  | set (index : Nat) (color : Color)
  | setAll (color : Color)
  | clear
  | visit (visitor : Nat → Color → τ → Color × τ) (state : τ)
  | snapshot
  | flush
  | lastFault

/-- What a tree answers. -/
inductive Answer (τ : Type) where
  | done
  | count (count : Nat)
  | color (color : Color)
  | visited (state : τ)
  | colors (colors : List Color)
  | flushed (result : Except DeviceFault Unit)
  | fault (fault : Option DeviceFault)

namespace Node

variable {m : Type → Type} [Monad m] {τ : Type}

/-- The tree behind a request, and its answer. -/
def answer (around : Surroundings m) (node : Node) : Request τ → m (Node × Answer τ)
  | .count => return (node, .count node.count)
  | .get index => return (node, .color (node.get index))
  | .set index color => return (node.set index color, .done)
  | .setAll color => return (node.setAll color, .done)
  | .clear => return (node.clear, .done)
  | .visit visitor state =>
    let (node, state) := node.visit visitor state
    return (node, .visited state)
  | .snapshot => return (node, .colors node.snapshot)
  | .flush => do
    let (node, result) ← node.flush around
    return (node, .flushed result)
  | .lastFault => return (node, .fault node.lastFault)

/-- The tree behind several requests, and its answers in order. -/
def answerAll (around : Surroundings m) (node : Node)
    : List (Request τ) → m (Node × List (Answer τ))
  | [] => return (node, [])
  | request :: rest => do
    let (node, answer) ← node.answer around request
    let (node, answers) ← node.answerAll around rest
    return (node, answer :: answers)

/-- Whatever is asked of either of two trees, in surroundings of any kind, the other one answers the
same and leaves the world in the same state.
-/
def BehavesAs (node other : Node) : Prop :=
  ∀ (σ τ : Type) (around : Surroundings (StateM σ)) (requests : List (Request τ)) (s : σ),
    ∃ node' other' answers s',
      (node.answerAll around requests).run s = ((node', answers), s')
      ∧ (other.answerAll around requests).run s = ((other', answers), s')

variable {σ : Type}

theorem run_answerAll_cons {around : Surroundings (StateM σ)} {node node' node'' : Node}
    {request : Request τ} {rest : List (Request τ)} {answer : Answer τ} {answers : List (Answer τ)}
    {s between s' : σ} (first : (node.answer around request).run s = ((node', answer), between))
    (later : (node'.answerAll around rest).run between = ((node'', answers), s'))
    : (node.answerAll around (request :: rest)).run s = ((node'', answer :: answers), s') := by
  rw [answerAll, StateT.run_bind, first]
  change StateT.run (do
    let (node, answers) ← node'.answerAll around rest
    return (node, answer :: answers)) between = _
  rw [StateT.run_bind, later]
  rfl

/-- A relation between trees that have the same answers to what leaves them as they are. Writes and
flushes keep it, and the flushes have the same result and the same effect.
-/
structure Bisimulation (around : Surroundings (StateM σ)) (related : Node → Node → Prop)
    : Prop where
  count_eq : ∀ {node other}, related node other → other.count = node.count
  get_eq : ∀ {node other}, related node other → ∀ index, other.get index = node.get index
  lastFault_eq : ∀ {node other}, related node other → other.lastFault = node.lastFault
  set
    : ∀ {node other}, related node other →
        ∀ index color, related (node.set index color) (other.set index color)
  flush
    : ∀ {node other}, related node other →
        ∀ s, ∃ node' other' result s',
          (node.flush around).run s = ((node', result), s')
          ∧ (other.flush around).run s = ((other', result), s')
          ∧ related node' other'

namespace Bisimulation

variable {around : Surroundings (StateM σ)} {related : Node → Node → Prop} {node other : Node}

/-- Writes of one color keep the relation, by induction over them. -/
theorem setEach (bisimulation : Bisimulation around related) (alike : related node other)
    (indices : List Nat) (color : Color)
    : related (node.setEach indices color) (other.setEach indices color) := by
  unfold Node.setEach
  induction indices generalizing node other with
  | nil => exact alike
  | cons index rest ih => exact ih (bisimulation.set alike index color)

theorem setAll (bisimulation : Bisimulation around related) (alike : related node other)
    (color : Color)
    : related (node.setAll color) (other.setAll color) := by
  rw [Node.setAll, Node.setAll, bisimulation.count_eq alike]
  exact bisimulation.setEach alike _ color

theorem snapshot_eq (bisimulation : Bisimulation around related) (alike : related node other)
    : other.snapshot = node.snapshot := by
  rw [snapshot, snapshot, bisimulation.count_eq alike, funext (bisimulation.get_eq alike)]

/-- A visit is shown the same colors in both trees and keeps the relation, by induction over the
indices.
-/
theorem visitEach (bisimulation : Bisimulation around related) (alike : related node other)
    (visitor : Nat → Color → τ → Color × τ) (indices : List Nat) (state : τ)
    : related (Node.visitEach visitor indices node state).1
          (Node.visitEach visitor indices other state).1
      ∧ (Node.visitEach visitor indices other state).2
        = (Node.visitEach visitor indices node state).2 := by
  induction indices generalizing node other state with
  | nil => exact ⟨alike, rfl⟩
  | cons index rest ih =>
      rw [Node.visitEach, Node.visitEach, bisimulation.get_eq alike index]
      exact ih (bisimulation.set alike index _) _

theorem visit (bisimulation : Bisimulation around related) (alike : related node other)
    (visitor : Nat → Color → τ → Color × τ) (state : τ)
    : related (node.visit visitor state).1 (other.visit visitor state).1
      ∧ (other.visit visitor state).2 = (node.visit visitor state).2 := by
  rw [Node.visit, Node.visit, bisimulation.count_eq alike]
  exact bisimulation.visitEach alike visitor _ state

/-- Related trees answer a request alike and are related behind it, by cases on the request. -/
theorem answer (bisimulation : Bisimulation around related) (alike : related node other)
    (request : Request τ) (s : σ)
    : ∃ node' other' answer s',
        (node.answer around request).run s = ((node', answer), s')
        ∧ (other.answer around request).run s = ((other', answer), s')
        ∧ related node' other' := by
  cases request with
  | count =>
      refine ⟨node, other, _, s, rfl, ?_, alike⟩
      rw [Node.answer, bisimulation.count_eq alike]
      rfl
  | get index =>
      refine ⟨node, other, _, s, rfl, ?_, alike⟩
      rw [Node.answer, bisimulation.get_eq alike]
      rfl
  | set index color => exact ⟨_, _, _, s, rfl, rfl, bisimulation.set alike index color⟩
  | setAll color => exact ⟨_, _, _, s, rfl, rfl, bisimulation.setAll alike color⟩
  | clear => exact ⟨_, _, _, s, rfl, rfl, bisimulation.setAll alike Color.black⟩
  | visit visitor state =>
      obtain ⟨visited, same⟩ := bisimulation.visit alike visitor state
      refine ⟨_, _, .visited (node.visit visitor state).2, s, rfl, ?_, visited⟩
      rw [← same]
      rfl
  | snapshot =>
      refine ⟨node, other, _, s, rfl, ?_, alike⟩
      rw [Node.answer, bisimulation.snapshot_eq alike]
      rfl
  | flush =>
      obtain ⟨node', other', result, s', first, second, kept⟩ := bisimulation.flush alike s
      refine ⟨node', other', .flushed result, s', ?_, ?_, kept⟩
      · rw [Node.answer, StateT.run_bind, first]
        rfl
      · rw [Node.answer, StateT.run_bind, second]
        rfl
  | lastFault =>
      refine ⟨node, other, _, s, rfl, ?_, alike⟩
      rw [Node.answer, bisimulation.lastFault_eq alike]
      rfl

/-- Related trees answer all requests alike and are related behind them, by induction over the
requests.
-/
theorem answerAll (bisimulation : Bisimulation around related) (alike : related node other)
    (requests : List (Request τ)) (s : σ)
    : ∃ node' other' answers s',
        (node.answerAll around requests).run s = ((node', answers), s')
        ∧ (other.answerAll around requests).run s = ((other', answers), s')
        ∧ related node' other' := by
  induction requests generalizing node other s with
  | nil => exact ⟨node, other, [], s, rfl, rfl, alike⟩
  | cons request rest ih =>
      obtain ⟨node', other', answer, between, first, second, kept⟩ :=
        bisimulation.answer alike request s
      obtain ⟨node'', other'', answers, s', firsts, seconds, kept'⟩ := ih kept between
      exact ⟨node'', other'', answer :: answers, s', run_answerAll_cons first firsts,
        run_answerAll_cons second seconds, kept'⟩

end Bisimulation

/-- Related trees behave alike if the relation is kept in surroundings of any kind. -/
theorem behavesAs_of_bisimulation {related : Node → Node → Prop} {node other : Node}
    (bisimulation
      : ∀ {σ : Type} (around : Surroundings (StateM σ)), Bisimulation around related)
    (alike : related node other)
    : BehavesAs node other := by
  intro σ τ around requests s
  obtain ⟨node', other', answers, s', first, second, _⟩ :=
    (bisimulation around).answerAll alike requests s
  exact ⟨node', other', answers, s', first, second⟩

end Node

end PixelTree
