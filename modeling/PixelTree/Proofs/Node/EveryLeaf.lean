import PixelTree.Net.Offline
import PixelTree.Proofs.Node.Session

/-! A flush reaches every leaf, whatever fails on the way. Its result is the first fault of a leaf,
and so is what the tree tells of its last flush ever after.
-/

namespace PixelTree

variable {σ : Type}

-----------------------------------------------------------------------------------------
-- Courses of events
-----------------------------------------------------------------------------------------

/-- A course of events takes the world from one state to another. The noted events happen in their
order, and nothing else happens but readings of the clock and waits.
-/
inductive Course (around : Surroundings (StateM σ)) {ε : Type} (happens : ε → σ → σ → Prop)
    : σ → List ε → σ → Prop where
  | done (s : σ) : Course around happens s [] s
  | clock {events : List ε} {s s' : σ}
    (later : Course around happens (around.now.run s).2 events s')
    : Course around happens s events s'
  | wait {events : List ε} {s s' : σ} (span : Nat)
    (later : Course around happens ((around.pause span).run s).2 events s')
    : Course around happens s events s'
  | event {event : ε} {events : List ε} {s between s' : σ} (first : happens event s between)
    (later : Course around happens between events s')
    : Course around happens s (event :: events) s'

namespace Course

variable {around : Surroundings (StateM σ)} {ε : Type} {happens : ε → σ → σ → Prop}
  {events : List ε} {s between s' : σ}

theorem append {others : List ε} (first : Course around happens s events between)
    (second : Course around happens between others s')
    : Course around happens s (events ++ others) s' := by
  induction first with
  | done s => exact second
  | clock _ ih => exact .clock (ih second)
  | wait span _ ih => exact .wait span (ih second)
  | event head _ ih => exact .event head (ih second)

theorem waited {spacing : Nat} {rest : List Node}
    (later : Course around happens (Node.waited around spacing rest s) events s')
    : Course around happens s events s' := by
  unfold Node.waited at later
  split at later
  · exact later
  · exact .wait spacing later

/-- If each event is one of another kind, a course of the events is one of the other kind. -/
theorem refine {ε' : Type} {happens' : ε' → σ → σ → Prop} {related : ε → ε' → Prop}
    (course : Course around happens s events s')
    (each
      : ∀ event ∈ events, ∀ {s s'}, happens event s s' →
          ∃ event', related event event' ∧ happens' event' s s')
    : ∃ events', List.Forall₂ related events events' ∧ Course around happens' s events' s' := by
  induction course with
  | done s => exact ⟨[], .nil, .done s⟩
  | clock _ ih =>
      obtain ⟨events', all, later⟩ := ih each
      exact ⟨events', all, .clock later⟩
  | wait span _ ih =>
      obtain ⟨events', all, later⟩ := ih each
      exact ⟨events', all, .wait span later⟩
  | event first _ ih =>
      obtain ⟨event', head, happened⟩ := each _ List.mem_cons_self first
      obtain ⟨events', all, later⟩ := ih (fun event member => each event (.tail _ member))
      exact ⟨event' :: events', .cons head all, .event happened later⟩

end Course

namespace Node

-----------------------------------------------------------------------------------------
-- Every leaf is flushed
-----------------------------------------------------------------------------------------

/-- One flush of one leaf: the leaf as it was found and as it was left, and what came of it. -/
structure LeafFlush where
  found : Leaf
  left : Leaf
  result : Except DeviceFault Unit

def LeafFlush.Happens (around : Surroundings (StateM σ)) (event : LeafFlush) (s s' : σ) : Prop :=
  (event.found.flush around).run s = ((event.left, event.result), s')

/-- The first fault of several flushes. -/
def firstFaultOf (events : List LeafFlush) : Except DeviceFault Unit :=
  (events.map LeafFlush.result).foldr firstFault (.ok ())

/-- A flush of a tree that consists of one flush of each leaf, from left to right. The filters may
have painted a leaf before it is flushed.
-/
structure ReachesLeaves (around : Surroundings (StateM σ)) (node : Node) (s : σ) (node' : Node)
    (result : Except DeviceFault Unit) (s' : σ) (events : List LeafFlush)
    : Prop where
  course : Course around (LeafFlush.Happens around) s events s'
  found : events.map (fun event => event.found.dark) = node.leaves.map Leaf.dark
  left : events.map LeafFlush.left = node'.leaves
  result_eq : result = firstFaultOf events

theorem firstFaultOf_append (events others : List LeafFlush)
    : firstFaultOf (events ++ others) = firstFault (firstFaultOf events) (firstFaultOf others) := by
  rw [firstFaultOf, List.map_append, foldr_firstFault_append]
  rfl

/-- Flushes have no fault exactly if none of them failed. -/
theorem firstFaultOf_eq_ok {events : List LeafFlush}
    : firstFaultOf events = .ok () ↔ ∀ event ∈ events, event.result = .ok () := by
  induction events with
  | nil => simp [firstFaultOf]
  | cons event rest ih =>
      rw [List.forall_mem_cons, ← ih]
      simp only [firstFaultOf, List.map_cons, List.foldr_cons]
      cases event.result with
      | ok done => simp [firstFault]
      | error fault => simp [firstFault]

/-- The first fault is that of the flush that no failed one stands before. -/
theorem firstFaultOf_eq_error {events : List LeafFlush} {fault : DeviceFault}
    : firstFaultOf events = .error fault
      ↔ ∃ front event back,
          events = front ++ event :: back
          ∧ (∀ earlier ∈ front, earlier.result = .ok ())
          ∧ event.result = .error fault := by
  constructor
  · intro failed
    induction events with
    | nil => cases failed
    | cons event rest ih =>
        simp only [firstFaultOf, List.map_cons, List.foldr_cons] at failed ih
        cases result : event.result with
        | ok done =>
            rw [result] at failed
            obtain ⟨front, first, back, rfl, earlier, error⟩ := ih failed
            refine ⟨event :: front, first, back, rfl, ?_, error⟩
            exact List.forall_mem_cons.mpr ⟨result, earlier⟩
        | error found =>
            rw [result] at failed
            exact ⟨[], event, rest, rfl, by simp, result.trans failed⟩
  · rintro ⟨front, event, back, rfl, earlier, error⟩
    rw [firstFaultOf_append, firstFaultOf_eq_ok.mpr earlier]
    simp only [firstFaultOf, List.map_cons, List.foldr_cons, error]
    rfl

namespace ReachesLeaves

variable {around : Surroundings (StateM σ)} {node painted node' : Node}
  {result : Except DeviceFault Unit} {s s' : σ} {events : List LeafFlush}

/-- It does not matter what the tree was painted with before. -/
theorem of_painted (reaches : ReachesLeaves around painted s node' result s' events)
    (frame : painted.dark = node.dark)
    : ReachesLeaves around node s node' result s' events :=
  ⟨reaches.course, reaches.found.trans (leaves_eq_of_dark frame), reaches.left,
    reaches.result_eq⟩

end ReachesLeaves

/-- A flush reaches all leaves, by induction over the rules. -/
theorem Flushes.exists_reachesLeaves {around : Surroundings (StateM σ)} {node node' : Node}
    {result : Except DeviceFault Unit} {s s' : σ}
    (flushes : Flushes around node s node' result s')
    : ∃ events, ReachesLeaves around node s node' result s' events := by
  induction flushes with
  | @leaf leaf after result s s' flushed =>
      have single : firstFault result (.ok ()) = result := by cases result <;> rfl
      exact ⟨[⟨leaf, after, result⟩], .event flushed (.done s'), by simp, by simp, single.symm⟩
  | empty spacing counts s => exact ⟨[], .done s, rfl, rfl, rfl⟩
  | member _ _ ih ihRest =>
      obtain ⟨events, first⟩ := ih
      obtain ⟨others, rest⟩ := ihRest
      refine ⟨events ++ others, first.course.append rest.course.waited, ?_, ?_, ?_⟩
      · rw [List.map_append, first.found, rest.found]
        simp only [leaves, leavesOf, List.map_append]
      · rw [List.map_append, first.left, rest.left]
        simp only [leaves, leavesOf]
      · rw [firstFaultOf_append, first.result_eq, rest.result_eq]
  | flip _ ih =>
      obtain ⟨events, inner⟩ := ih
      exact ⟨events, inner.course, inner.found, inner.left, inner.result_eq⟩
  | still _ _ ih =>
      obtain ⟨events, inner⟩ := ih
      exact ⟨events, inner.course, inner.found, inner.left, inner.result_eq⟩
  | @moving _ _ _ _ _ _ _ _ _ clock _ ih =>
      obtain ⟨events, inner⟩ := ih
      have inner := inner.of_painted (dark_carry _ _ _)
      refine ⟨events, .clock ?_, inner.found, inner.left, inner.result_eq⟩
      rw [clock]
      exact inner.course
  | solid _ ih =>
      obtain ⟨events, inner⟩ := ih
      have inner := inner.of_painted (dark_setAll _ _)
      exact ⟨events, inner.course, inner.found, inner.left, inner.result_eq⟩
  | gradient _ ih =>
      obtain ⟨events, inner⟩ := ih
      have inner := inner.of_painted (dark_paintGradient _ _ _)
      exact ⟨events, inner.course, inner.found, inner.left, inner.result_eq⟩
  | @sparkle _ _ _ _ _ _ _ _ clock _ ih =>
      obtain ⟨events, inner⟩ := ih
      have inner := inner.of_painted (dark_sparkleAt _ _ _)
      refine ⟨events, .clock ?_, inner.found, inner.left, inner.result_eq⟩
      rw [clock]
      exact inner.course
  | nav _ ih =>
      obtain ⟨events, inner⟩ := ih
      have inner := inner.of_painted (dark_paintMargins _ _)
      exact ⟨events, inner.course, inner.found, inner.left, inner.result_eq⟩

/-- A flush notes its result in the tree, by induction over the rules: what a list tells first is
the fault that comes first.
-/
theorem Flushes.lastFault_eq {around : Surroundings (StateM σ)} {node node' : Node}
    {result : Except DeviceFault Unit} {s s' : σ}
    (flushes : Flushes around node s node' result s')
    : node'.lastFault = faultOf? result := by
  induction flushes with
  | leaf flushed => rw [lastFault_toNode, (Leaf.flushed_of_flush flushed).lastFault_eq]
  | empty spacing counts s => rfl
  | @member _ _ _ _ _ _ result results _ _ _ _ _ ih ihRest =>
      simp only [lastFault] at ihRest
      rw [lastFault, lastFaultOf, ih, ihRest]
      cases result <;> rfl
  | flip _ ih => exact ih
  | still _ _ ih => exact ih
  | moving _ _ _ ih => exact ih
  | solid _ ih => exact ih
  | gradient _ ih => exact ih
  | sparkle _ _ ih => exact ih
  | nav _ ih => exact ih

end Node

namespace Session

open Node

variable {tree : Node} {session : Session}

/-- A session tells of its last flush until the next one, by induction over what was done. -/
theorem Reached.lastFault_eq (reached : session.Reached tree) {result : Except DeviceFault Unit}
    (last : session.lastResult = some result)
    : session.tree.lastFault = faultOf? result := by
  induction reached with
  | start => cases last
  | set _ index color ih => exact (lastFault_eq_of_dark (dark_set _ index color)).trans (ih last)
  | setAll _ color ih => exact (lastFault_eq_of_dark (dark_setAll _ color)).trans (ih last)
  | clear _ ih => exact (lastFault_eq_of_dark (dark_setAll _ Color.black)).trans (ih last)
  | visit _ visitor state ih =>
      exact (lastFault_eq_of_dark (dark_visit _ visitor state)).trans (ih last)
  | flush _ around s ih =>
      obtain rfl := Option.some.inj last
      exact (flushes_flush around _ s).lastFault_eq

/-- Whatever was done to a tree, a flush of it flushes every leaf exactly once, from left to right,
whatever fails on the way. It succeeds exactly if all leaves do, and otherwise its fault is that
of the first leaf that fails. Once the tree was flushed, its last fault is that of the most recent
flush.
-/
theorem flush_reaches_every_leaf (reached : session.Reached tree)
    : (∀ {σ : Type} (around : Surroundings (StateM σ)) (s : σ),
        ∃ tree' result s' events,
          (session.tree.flush around).run s = ((tree', result), s')
          ∧ ReachesLeaves around session.tree s tree' result s' events
          ∧ (result = .ok () ↔ ∀ event ∈ events, event.result = .ok ())
          ∧ ∀ fault,
              result = .error fault
                ↔ ∃ front event back,
                    events = front ++ event :: back
                    ∧ (∀ earlier ∈ front, earlier.result = .ok ())
                    ∧ event.result = .error fault)
      ∧ ∀ result, session.lastResult = some result →
          (session.tree.lastFault = none ↔ result = .ok ())
          ∧ ∀ message,
              session.tree.lastFault.map DeviceFault.message = some message
                ↔ ∃ fault, result = .error fault ∧ fault.message = message := by
  constructor
  · intro σ around s
    rcases flushed : (session.tree.flush around).run s with ⟨⟨tree', result⟩, s'⟩
    obtain ⟨events, reaches⟩ := (flushes_of_flush flushed).exists_reachesLeaves
    refine ⟨tree', result, s', events, rfl, reaches, ?_, ?_⟩
    · rw [reaches.result_eq, firstFaultOf_eq_ok]
    · intro fault
      rw [reaches.result_eq, firstFaultOf_eq_error]
  · intro result last
    rw [reached.lastFault_eq last]
    cases result with
    | ok done => simp [faultOf?]
    | error fault => simp [faultOf?]

/-- A string of lights on a host without network beside a device without hardware: the fault of
its flush is still told after a write.
-/
theorem fault_told_after_write
    : ∃ session : Session,
        session.Reached
          (Node.ofMembers 0
            [.ck (.fresh (Kinet.Address.output ⟨10, 0, 0, 1⟩ 1 2)), Node.ofCount 1])
        ∧ session.tree.lastFault.map DeviceFault.message
          = some "10.0.0.1/1(2): IO error: Network is unreachable (os error 101)" := by
  let around : Surroundings (StateM Unit) :=
    { Net.offline (StateM Unit) with
      now := return 0
      pause := fun _ => return ()
      note := fun _ => return () }
  let tree := Node.ofMembers 0
    [.ck (.fresh (Kinet.Address.output ⟨10, 0, 0, 1⟩ 1 2)), Node.ofCount 1]
  let session := ((Session.start tree).flush around ()).set 0 Color.white
  have reached : session.Reached tree := .set (.flush .start around ()) 0 Color.white
  have last : session.lastResult
      = some (.error (.sending (Kinet.Address.output ⟨10, 0, 0, 1⟩ 1 2) .unreachable)) := by
    decide +kernel
  refine ⟨session, reached, ?_⟩
  refine (((flush_reaches_every_leaf reached).2 _ last).2 _).mpr ⟨_, rfl, ?_⟩
  decide +kernel

end Session

end PixelTree
