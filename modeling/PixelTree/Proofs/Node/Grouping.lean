import PixelTree.Net.Offline
import PixelTree.Proofs.Node.Requests

/-! Groupings of a row of nodes into nested lists. Pixels are numbered along the row, the first
member with a fault tells of it, and a flush goes along the row and waits in front of every member
but the first. So the trees of two groupings of one row cannot be told apart, as long as the waits
are alike.
-/

namespace PixelTree

-----------------------------------------------------------------------------------------
-- Groupings
-----------------------------------------------------------------------------------------

mutual
/-- A row of items in nested lists. Each list has a wait of its own between two members. -/
inductive Grouping (α : Type) where
  | one (item : α)
  | list (spacing : Nat) (members : Groupings α)

/-- The members of a list, of which there is at least one. -/
inductive Groupings (α : Type) where
  | last (member : Grouping α)
  | cons (member : Grouping α) (others : Groupings α)
end

variable {α σ : Type}

mutual
/-- The items in order. -/
def Grouping.row : Grouping α → List α
  | .one item => [item]
  | .list _ members => members.row

def Groupings.row : Groupings α → List α
  | .last member => member.row
  | .cons member others => member.row ++ others.row
end

mutual
/-- The lists without the items. -/
def Grouping.shape : Grouping α → Grouping Unit
  | .one _ => .one ()
  | .list spacing members => .list spacing members.shape

def Groupings.shape : Groupings α → Groupings Unit
  | .last member => .last member.shape
  | .cons member others => .cons member.shape others.shape
end

mutual
/-- The items in order, each with the wait in front of it. The first one is given. -/
def Grouping.schedule (before : Nat) : Grouping α → List (Nat × α)
  | .one item => [(before, item)]
  | .list spacing members => members.schedule spacing before

def Groupings.schedule (spacing before : Nat) : Groupings α → List (Nat × α)
  | .last member => member.schedule before
  | .cons member others => member.schedule before ++ others.schedule spacing spacing
end

mutual
/-- The tree of a grouping of nodes. -/
def Grouping.tree : Grouping Node → Node
  | .one node => node
  | .list spacing members => Node.ofMembers spacing members.trees

def Groupings.trees : Groupings Node → List Node
  | .last member => [member.tree]
  | .cons member others => member.tree :: others.trees
end

mutual
/-- All lists have the same wait between two members. -/
def Grouping.Uniform (spacing : Nat) : Grouping α → Prop
  | .one _ => True
  | .list own members => own = spacing ∧ members.Uniform spacing

def Groupings.Uniform (spacing : Nat) : Groupings α → Prop
  | .last member => member.Uniform spacing
  | .cons member others => member.Uniform spacing ∧ others.Uniform spacing
end

mutual
theorem Grouping.map_snd_schedule (grouping : Grouping α) (before : Nat)
    : (grouping.schedule before).map Prod.snd = grouping.row := by
  cases grouping with
  | one item => rfl
  | list spacing members => exact members.map_snd_schedule spacing before

theorem Groupings.map_snd_schedule (members : Groupings α) (spacing before : Nat)
    : (members.schedule spacing before).map Prod.snd = members.row := by
  cases members with
  | last member => exact member.map_snd_schedule before
  | cons member others =>
      rw [Groupings.schedule, List.map_append, member.map_snd_schedule before,
        others.map_snd_schedule spacing spacing, Groupings.row]
end

mutual
/-- The waits belong to the lists, not to the items. -/
theorem Grouping.map_fst_schedule (grouping : Grouping α) (before : Nat)
    : (grouping.schedule before).map Prod.fst = (grouping.shape.schedule before).map Prod.fst := by
  cases grouping with
  | one item => rfl
  | list spacing members => exact members.map_fst_schedule spacing before

theorem Groupings.map_fst_schedule (members : Groupings α) (spacing before : Nat)
    : (members.schedule spacing before).map Prod.fst
      = (members.shape.schedule spacing before).map Prod.fst := by
  cases members with
  | last member => exact member.map_fst_schedule before
  | cons member others =>
      rw [Groupings.schedule, List.map_append, member.map_fst_schedule before,
        others.map_fst_schedule spacing spacing, Groupings.shape, Groupings.schedule,
        List.map_append]
end

mutual
/-- There is the same wait between any two neighbors, whichever list it comes from. -/
theorem Grouping.Uniform.map_fst_schedule {spacing : Nat} {grouping : Grouping α}
    (uniform : grouping.Uniform spacing) (before : Nat)
    : ∃ others,
        grouping.row.length = others + 1
        ∧ (grouping.schedule before).map Prod.fst = before :: List.replicate others spacing := by
  cases grouping with
  | one item => exact ⟨0, rfl, rfl⟩
  | list own members =>
      obtain ⟨rfl, uniform⟩ := uniform
      exact uniform.map_fst_schedule before

theorem Groupings.Uniform.map_fst_schedule {spacing : Nat} {members : Groupings α}
    (uniform : members.Uniform spacing) (before : Nat)
    : ∃ others,
        members.row.length = others + 1
        ∧ (members.schedule spacing before).map Prod.fst
          = before :: List.replicate others spacing := by
  cases members with
  | last member => exact @Grouping.Uniform.map_fst_schedule spacing member uniform before
  | cons member rest =>
      obtain ⟨first, later⟩ := uniform
      obtain ⟨others, length, waits⟩ := first.map_fst_schedule before
      obtain ⟨others', length', waits'⟩ := later.map_fst_schedule spacing
      refine ⟨others + (others' + 1), ?_, ?_⟩
      · rw [Groupings.row, List.length_append, length, length']
        omega
      · rw [Groupings.schedule, List.map_append, waits, waits', List.replicate_add,
          List.replicate_succ, List.cons_append]
end

namespace Node

-----------------------------------------------------------------------------------------
-- Rows
-----------------------------------------------------------------------------------------

/-- The color at an index along a row. -/
def getAlong : List Node → Nat → Color
  | [], _ => Color.black
  | node :: rest, index =>
    if index < node.count then node.get index else getAlong rest (index - node.count)

/-- The row with another color at an index along it. -/
def setAlong : List Node → Nat → Color → List Node
  | [], _, _ => []
  | node :: rest, index, color =>
    if index < node.count then node.set index color :: rest
    else node :: setAlong rest (index - node.count) color

/-- The number of pixels along a row. -/
def countAlong (row : List Node) : Nat :=
  (row.map count).foldr (· + ·) 0

theorem countAlong_append (row others : List Node)
    : countAlong (row ++ others) = countAlong row + countAlong others := by
  induction row with
  | nil => exact (Nat.zero_add _).symm
  | cons node rest ih =>
      simp only [countAlong, List.cons_append, List.map_cons, List.foldr_cons] at ih ⊢
      omega

/-- A list reads its members along their row. -/
theorem get_ofMembers (spacing : Nat) (members : List Node) (index : Nat)
    : (ofMembers spacing members).get index = getAlong members index := by
  induction members generalizing index with
  | nil => rfl
  | cons first rest ih =>
      rw [ofMembers, List.map_cons, get_list_cons, getAlong, ← ih]
      rfl

/-- A list writes its members along their row. -/
theorem set_ofMembers (spacing : Nat) (members : List Node) (index : Nat) (color : Color)
    : (ofMembers spacing members).set index color
      = ofMembers spacing (setAlong members index color) := by
  induction members generalizing index with
  | nil => rfl
  | cons first rest ih =>
      rw [ofMembers, List.map_cons, set, locate, setAlong]
      by_cases inside : index < first.count
      · rw [if_pos inside, if_pos inside, ofMembers, List.map_cons, count_set]
        rfl
      · have others := ih (index - first.count)
        rw [ofMembers, set] at others
        rw [if_neg inside, if_neg inside, ofMembers, List.map_cons]
        cases located : locate (rest.map count) (index - first.count) with
        | none =>
            rw [located] at others
            obtain ⟨_, counts, same⟩ := Node.list.inj others
            rw [← same]
            rfl
        | some place =>
            rw [located] at others
            obtain ⟨_, counts, same⟩ := Node.list.inj others
            rw [← counts, ← same]
            rfl

theorem getAlong_singleton (node : Node) (index : Nat)
    : getAlong [node] index = node.get index := by
  rw [getAlong]
  split
  · rfl
  · next past => exact (get_of_le (Nat.not_lt.mp past)).symm

theorem setAlong_singleton (node : Node) (index : Nat) (color : Color)
    : setAlong [node] index color = [node.set index color] := by
  rw [setAlong]
  split
  · rfl
  · next past => rw [set_of_le (Nat.not_lt.mp past), setAlong]

/-- An index along two rows is one of the first row, or else one of the other row behind it. -/
theorem getAlong_append (row others : List Node) (index : Nat)
    : getAlong (row ++ others) index
      = if index < countAlong row then getAlong row index
        else getAlong others (index - countAlong row) := by
  induction row generalizing index with
  | nil => rfl
  | cons node rest ih =>
      have total : countAlong (node :: rest) = node.count + countAlong rest := rfl
      rw [List.cons_append, getAlong, getAlong, ih, total]
      by_cases first : index < node.count
      · rw [if_pos first, if_pos first, if_pos (by omega)]
      · rw [if_neg first, if_neg first]
        by_cases later : index - node.count < countAlong rest
        · rw [if_pos later, if_pos (by omega)]
        · rw [if_neg later, if_neg (by omega), Nat.sub_add_eq]

theorem setAlong_append (row others : List Node) (index : Nat) (color : Color)
    : setAlong (row ++ others) index color
      = if index < countAlong row then setAlong row index color ++ others
        else row ++ setAlong others (index - countAlong row) color := by
  induction row generalizing index with
  | nil => rfl
  | cons node rest ih =>
      have total : countAlong (node :: rest) = node.count + countAlong rest := rfl
      rw [List.cons_append, setAlong, setAlong, ih, total]
      by_cases first : index < node.count
      · rw [if_pos first, if_pos first, if_pos (by omega), List.cons_append]
      · rw [if_neg first, if_neg first]
        by_cases later : index - node.count < countAlong rest
        · rw [if_pos later, if_pos (by omega), List.cons_append]
        · rw [if_neg later, if_neg (by omega), Nat.sub_add_eq, List.cons_append]

theorem lastFaultOf_append (row others : List Node)
    : lastFaultOf (row ++ others) = (lastFaultOf row <|> lastFaultOf others) := by
  induction row with
  | nil => rfl
  | cons node rest ih =>
      rw [List.cons_append, lastFaultOf, lastFaultOf, ih]
      cases node.lastFault <;> rfl

end Node

-----------------------------------------------------------------------------------------
-- Trees of groupings
-----------------------------------------------------------------------------------------

open Node

mutual
/-- A tree has the pixels of its row, by induction over the grouping. -/
theorem Grouping.count_tree (grouping : Grouping Node)
    : grouping.tree.count = countAlong grouping.row := by
  cases grouping with
  | one node => rfl
  | list spacing members => exact members.countAlong_trees

theorem Groupings.countAlong_trees (members : Groupings Node)
    : countAlong members.trees = countAlong members.row := by
  cases members with
  | last member => exact member.count_tree
  | cons member others =>
      rw [Groupings.row, countAlong_append, ← member.count_tree, ← others.countAlong_trees]
      rfl
end

mutual
/-- A tree is read along its row, by induction over the grouping. -/
theorem Grouping.get_tree (grouping : Grouping Node) (index : Nat)
    : grouping.tree.get index = getAlong grouping.row index := by
  cases grouping with
  | one node => exact (getAlong_singleton node index).symm
  | list spacing members =>
      exact (get_ofMembers spacing members.trees index).trans (members.getAlong_trees index)

theorem Groupings.getAlong_trees (members : Groupings Node) (index : Nat)
    : getAlong members.trees index = getAlong members.row index := by
  cases members with
  | last member =>
      exact (getAlong_singleton member.tree index).trans (member.get_tree index)
  | cons member others =>
      rw [Groupings.row, Groupings.trees, getAlong, getAlong_append, member.count_tree,
        member.get_tree, others.getAlong_trees]
end

mutual
/-- The first member with a fault tells of it, by induction over the grouping. -/
theorem Grouping.lastFault_tree (grouping : Grouping Node)
    : grouping.tree.lastFault = lastFaultOf grouping.row := by
  cases grouping with
  | one node =>
      rw [Grouping.tree, Grouping.row, lastFaultOf, lastFaultOf]
      cases node.lastFault <;> rfl
  | list spacing members => exact members.lastFaultOf_trees

theorem Groupings.lastFaultOf_trees (members : Groupings Node)
    : lastFaultOf members.trees = lastFaultOf members.row := by
  cases members with
  | last member =>
      rw [Groupings.trees, lastFaultOf, lastFaultOf, member.lastFault_tree, Groupings.row]
      cases lastFaultOf member.row <;> rfl
  | cons member others =>
      rw [Groupings.trees, lastFaultOf, member.lastFault_tree, others.lastFaultOf_trees,
        Groupings.row, lastFaultOf_append]
end

mutual
/-- A tree is written along its row and stays a tree of the same shape, by induction over the
grouping.
-/
theorem Grouping.exists_set (grouping : Grouping Node) (index : Nat) (color : Color)
    : ∃ written : Grouping Node,
        written.shape = grouping.shape
        ∧ written.row = setAlong grouping.row index color
        ∧ grouping.tree.set index color = written.tree := by
  cases grouping with
  | one node =>
      exact ⟨.one (node.set index color), rfl, (setAlong_singleton node index color).symm, rfl⟩
  | list spacing members =>
      obtain ⟨written, shape, row, trees⟩ := members.exists_setAlong index color
      refine ⟨.list spacing written, congrArg (Grouping.list spacing) shape, row, ?_⟩
      rw [Grouping.tree, set_ofMembers, trees, Grouping.tree]

theorem Groupings.exists_setAlong (members : Groupings Node) (index : Nat) (color : Color)
    : ∃ written : Groupings Node,
        written.shape = members.shape
        ∧ written.row = setAlong members.row index color
        ∧ setAlong members.trees index color = written.trees := by
  cases members with
  | last member =>
      obtain ⟨written, shape, row, tree⟩ := member.exists_set index color
      refine ⟨.last written, congrArg Groupings.last shape, row, ?_⟩
      rw [Groupings.trees, setAlong_singleton, tree, Groupings.trees]
  | cons member others =>
      by_cases inside : index < countAlong member.row
      · obtain ⟨written, shape, row, tree⟩ := member.exists_set index color
        refine ⟨.cons written others, congrArg (Groupings.cons · _) shape, ?_, ?_⟩
        · rw [Groupings.row, Groupings.row, setAlong_append, if_pos inside, row]
        · rw [Groupings.trees, setAlong, member.count_tree, if_pos inside, tree, Groupings.trees]
      · obtain ⟨written, shape, row, trees⟩ :=
          others.exists_setAlong (index - countAlong member.row) color
        refine ⟨.cons member written, congrArg (Groupings.cons _) shape, ?_, ?_⟩
        · rw [Groupings.row, Groupings.row, setAlong_append, if_neg inside, row]
        · rw [Groupings.trees, setAlong, member.count_tree, if_neg inside, trees, Groupings.trees]
end

-----------------------------------------------------------------------------------------
-- Flushes in turn
-----------------------------------------------------------------------------------------

namespace Node

variable {around : Surroundings (StateM σ)}

/-- The wait between two members of a list. -/
def waitFor (around : Surroundings (StateM σ)) (spacing : Nat) : StateM σ Unit :=
  if spacing = 0 then pure () else around.pause spacing

/-- One flush of one member: the member as it was found and as it was left, and what came of it. -/
structure MemberFlush where
  found : Node
  left : Node
  result : Except DeviceFault Unit

/-- Flushes members one after the other, each behind a wait. -/
def flushInTurn (around : Surroundings (StateM σ)) : List (Nat × Node) → StateM σ (List MemberFlush)
  | [] => return []
  | (before, node) :: rest => do
    waitFor around before
    let (left, result) ← node.flush around
    let events ← flushInTurn around rest
    return ⟨node, left, result⟩ :: events

/-- The first fault of several flushes. -/
def outcome (events : List MemberFlush) : Except DeviceFault Unit :=
  (events.map MemberFlush.result).foldr firstFault (.ok ())

theorem outcome_append (events others : List MemberFlush)
    : outcome (events ++ others) = firstFault (outcome events) (outcome others) := by
  rw [outcome, List.map_append, foldr_firstFault_append]
  rfl

theorem run_flushInTurn_cons {before : Nat} {node left : Node} {rest : List (Nat × Node)}
    {result : Except DeviceFault Unit} {events : List MemberFlush} {s between s' : σ}
    (first
      : (node.flush around).run ((waitFor around before).run s).2 = ((left, result), between))
    (later : (flushInTurn around rest).run between = (events, s'))
    : (flushInTurn around ((before, node) :: rest)).run s
      = (⟨node, left, result⟩ :: events, s') := by
  rw [flushInTurn, StateT.run_bind]
  change StateT.run (do
    let (left, result) ← node.flush around
    let events ← flushInTurn around rest
    return MemberFlush.mk node left result :: events) ((waitFor around before).run s).2 = _
  rw [StateT.run_bind, first]
  change StateT.run (do
    let events ← flushInTurn around rest
    return MemberFlush.mk node left result :: events) between = _
  rw [StateT.run_bind, later]
  rfl

theorem run_flushInTurn_append {row others : List (Nat × Node)} {events later : List MemberFlush}
    {s between s' : σ} (first : (flushInTurn around row).run s = (events, between))
    (second : (flushInTurn around others).run between = (later, s'))
    : (flushInTurn around (row ++ others)).run s = (events ++ later, s') := by
  induction row generalizing s events with
  | nil =>
      cases first
      exact second
  | cons member rest ih =>
      obtain ⟨before, node⟩ := member
      rcases flushed : (node.flush around).run ((waitFor around before).run s).2
        with ⟨⟨left, result⟩, middle⟩
      rcases others' : (flushInTurn around rest).run middle with ⟨rest', between'⟩
      rw [run_flushInTurn_cons flushed others'] at first
      cases first
      exact run_flushInTurn_cons flushed (ih others')

/-- Members are found as they are. -/
theorem found_of_flushInTurn {row : List (Nat × Node)} {events : List MemberFlush} {s s' : σ}
    (flushed : (flushInTurn around row).run s = (events, s'))
    : events.map MemberFlush.found = row.map Prod.snd := by
  induction row generalizing s events with
  | nil =>
      cases flushed
      rfl
  | cons member rest ih =>
      obtain ⟨before, node⟩ := member
      rcases first : (node.flush around).run ((waitFor around before).run s).2
        with ⟨⟨left, result⟩, middle⟩
      rcases others : (flushInTurn around rest).run middle with ⟨rest', s''⟩
      rw [run_flushInTurn_cons first others] at flushed
      cases flushed
      exact congrArg (node :: ·) (ih others)

/-- The same members behind waits that do the same are flushed alike. -/
theorem flushInTurn_congr {row other : List (Nat × Node)}
    (members : other.map Prod.snd = row.map Prod.snd)
    (waits
      : (other.map Prod.fst).map (waitFor around) = (row.map Prod.fst).map (waitFor around))
    : flushInTurn around other = flushInTurn around row := by
  induction row generalizing other with
  | nil =>
      rw [List.map_nil, List.map_eq_nil_iff] at members
      rw [members]
  | cons member rest ih =>
      cases other with
      | nil => cases members
      | cons member' rest' =>
          obtain ⟨node, members⟩ := List.cons.inj members
          obtain ⟨wait, waits⟩ := List.cons.inj waits
          have alike : waitFor around member'.1 = waitFor around member.1 := wait
          rw [flushInTurn, flushInTurn, ih members waits, node, alike]

theorem run_flushMembers_singleton {spacing : Nat} {node node' : Node}
    {result : Except DeviceFault Unit} {s s' : σ}
    (flushed : (node.flush around).run s = ((node', result), s'))
    : (flushMembers around spacing [node]).run s = (([node'], result), s') := by
  rw [flushMembers, flushMembers, StateT.run_bind, flushed]
  cases result <;> rfl

theorem run_flushMembers_cons {spacing : Nat} {node node' : Node} {rest rest' : List Node}
    {result results : Except DeviceFault Unit} {s between s' : σ} (some : rest ≠ [])
    (first : (node.flush around).run s = ((node', result), between))
    (later
      : (flushMembers around spacing rest).run ((waitFor around spacing).run between).2
        = ((rest', results), s'))
    : (flushMembers around spacing (node :: rest)).run s
      = ((node' :: rest', firstFault result results), s') := by
  have others {world : σ}
      (later : (flushMembers around spacing rest).run world = ((rest', results), s'))
      : StateT.run (flushMembers around spacing rest >>= fun flushed =>
          pure (node' :: flushed.1, firstFault result flushed.2)) world
        = ((node' :: rest', firstFault result results), s') := by
    rw [StateT.run_bind, later]
    rfl
  rw [flushMembers, StateT.run_bind, first, List.isEmpty_eq_false_iff.mpr some, Bool.false_or]
  by_cases none : spacing = 0
  · rw [waitFor, if_pos none] at later
    simp only [decide_eq_true none]
    exact others later
  · rw [waitFor, if_neg none] at later
    simp only [decide_eq_false none]
    exact others later

end Node

/-- A flush of the tree of a grouping that consists of one flush of each member along the row, each
behind its wait. It leaves a tree of the same shape.
-/
structure Grouping.FlushesInTurn (around : Surroundings (StateM σ)) (grouping : Grouping Node)
    (before : Nat) (s : σ) (after : Grouping Node) (events : List MemberFlush) (s' : σ)
    : Prop where
  members : (flushInTurn around (grouping.schedule before)).run s = (events, s')
  left : events.map MemberFlush.left = after.row
  shape_eq : after.shape = grouping.shape
  tree
    : (grouping.tree.flush around).run ((waitFor around before).run s).2
      = ((after.tree, outcome events), s')

/-- The same for the members of a list, of which each keeps its number of pixels. -/
structure Groupings.FlushesInTurn (around : Surroundings (StateM σ)) (grouping : Groupings Node)
    (spacing before : Nat) (s : σ) (after : Groupings Node) (events : List MemberFlush) (s' : σ)
    : Prop where
  members : (flushInTurn around (grouping.schedule spacing before)).run s = (events, s')
  left : events.map MemberFlush.left = after.row
  shape_eq : after.shape = grouping.shape
  counts_eq : after.trees.map count = grouping.trees.map count
  trees
    : (flushMembers around spacing grouping.trees).run ((waitFor around before).run s).2
      = ((after.trees, outcome events), s')

mutual
/-- A flush of a tree goes along its row, by induction over the grouping. -/
theorem Grouping.exists_flush (around : Surroundings (StateM σ)) (grouping : Grouping Node)
    (before : Nat) (s : σ)
    : ∃ after events s', grouping.FlushesInTurn around before s after events s' := by
  cases grouping with
  | one node =>
      rcases flushed : (node.flush around).run ((waitFor around before).run s).2
        with ⟨⟨left, result⟩, s'⟩
      have single : result = outcome [⟨node, left, result⟩] := by
        cases result <;> rfl
      refine ⟨.one left, [⟨node, left, result⟩], s', run_flushInTurn_cons flushed rfl, rfl, rfl, ?_⟩
      rw [← single]
      exact flushed
  | list spacing members =>
      obtain ⟨after, events, s', flushed⟩ := members.exists_flushMembers around spacing before s
      refine ⟨.list spacing after, events, s', flushed.members, flushed.left,
        congrArg (Grouping.list spacing) flushed.shape_eq, ?_⟩
      rw [Grouping.tree, ofMembers, flush, StateT.run_bind, flushed.trees, Grouping.tree, ofMembers,
        flushed.counts_eq]
      rfl

theorem Groupings.exists_flushMembers (around : Surroundings (StateM σ))
    (grouping : Groupings Node) (spacing before : Nat) (s : σ)
    : ∃ after events s', grouping.FlushesInTurn around spacing before s after events s' := by
  cases grouping with
  | last member =>
      obtain ⟨after, events, s', flushed⟩ := member.exists_flush around before s
      have size := (flushes_of_flush flushed.tree).keeps.count_eq
      exact ⟨.last after, events, s', flushed.members, flushed.left,
        congrArg Groupings.last flushed.shape_eq, congrArg (fun size => [size]) size,
        run_flushMembers_singleton flushed.tree⟩
  | cons member others =>
      obtain ⟨after, events, between, first⟩ := member.exists_flush around before s
      obtain ⟨afters, later, s', rest⟩ := others.exists_flushMembers around spacing spacing between
      have size := (flushes_of_flush first.tree).keeps.count_eq
      have some : others.trees ≠ [] := by
        cases others <;> exact List.cons_ne_nil _ _
      refine ⟨.cons after afters, events ++ later, s',
        run_flushInTurn_append first.members rest.members, ?_,
        congrArg₂ Groupings.cons first.shape_eq rest.shape_eq,
        congrArg₂ List.cons size rest.counts_eq, ?_⟩
      · rw [List.map_append, first.left, rest.left, Groupings.row]
      · rw [outcome_append]
        exact run_flushMembers_cons some first.tree rest.trees
end

-----------------------------------------------------------------------------------------
-- Groupings of one row
-----------------------------------------------------------------------------------------

namespace Grouping

variable {around : Surroundings (StateM σ)} {grouping other : Grouping Node}

/-- What the waits of a flush do, in order. There is none in front of the first member. -/
def waits (around : Surroundings (StateM σ)) (grouping : Grouping Node) : List (StateM σ Unit) :=
  ((grouping.schedule 0).map Prod.fst).map (waitFor around)

theorem waits_eq_of_shape (same : other.shape = grouping.shape)
    : other.waits around = grouping.waits around := by
  rw [waits, map_fst_schedule, same, ← map_fst_schedule, waits]

/-- Lists that all have the same spacing wait alike, however they are nested. -/
theorem waits_eq_of_uniform {spacing : Nat} (uniform : grouping.Uniform spacing)
    (uniform' : other.Uniform spacing) (length : other.row.length = grouping.row.length)
    : other.waits around = grouping.waits around := by
  obtain ⟨others, length₁, waits₁⟩ := uniform.map_fst_schedule 0
  obtain ⟨others', length₂, waits₂⟩ := uniform'.map_fst_schedule 0
  obtain rfl : others' = others := by omega
  rw [waits, waits, waits₁, waits₂]

/-- Where waits do nothing, lists of any spacing wait alike. -/
theorem waits_eq_of_idle (idle : ∀ span, around.pause span = pure ())
    (length : other.row.length = grouping.row.length)
    : other.waits around = grouping.waits around := by
  have each (grouping : Grouping Node)
      : grouping.waits around = List.replicate grouping.row.length (pure ()) := by
    have nothing : waitFor around = fun _ => pure () := by
      funext spacing
      rw [waitFor, idle, ite_self]
    rw [waits, nothing, List.map_const', List.length_map, ← grouping.map_snd_schedule 0,
      List.length_map]
  rw [each, each, length]

theorem flushInTurn_schedule_eq (same : other.row = grouping.row)
    (waits : other.waits around = grouping.waits around)
    : flushInTurn around (other.schedule 0) = flushInTurn around (grouping.schedule 0) := by
  refine flushInTurn_congr ?_ waits
  rw [map_snd_schedule, map_snd_schedule, same]

/-- Trees of two shapes with one row between them. -/
structure Regrouped (grouping other : Grouping Node) (node node' : Node)
    (now now' : Grouping Node) : Prop where
  shape_eq : now.shape = grouping.shape
  shape_eq' : now'.shape = other.shape
  row_eq : now'.row = now.row
  tree_eq : node = now.tree
  tree_eq' : node' = now'.tree

/-- Two groupings of one row flush the same members with the same results, one after the other. -/
theorem Regrouped.flush {node node' : Node} {now now' : Grouping Node}
    (regrouped : Regrouped grouping other node node' now now')
    (waits : other.waits around = grouping.waits around) (s : σ)
    : ∃ after after' events s',
        now.FlushesInTurn around 0 s after events s'
        ∧ now'.FlushesInTurn around 0 s after' events s'
        ∧ Regrouped grouping other after.tree after'.tree after after' := by
  obtain ⟨after, events, s', flushed⟩ := now.exists_flush around 0 s
  obtain ⟨after', events', s'', flushed'⟩ := now'.exists_flush around 0 s
  have alike : now'.waits around = now.waits around := by
    rw [waits_eq_of_shape regrouped.shape_eq, waits_eq_of_shape regrouped.shape_eq', waits]
  have same := flushed'.members
  rw [flushInTurn_schedule_eq regrouped.row_eq alike, flushed.members] at same
  obtain ⟨rfl, rfl⟩ := Prod.mk.inj same
  exact ⟨after, after', events, s', flushed, flushed', flushed.shape_eq.trans regrouped.shape_eq,
    flushed'.shape_eq.trans regrouped.shape_eq', flushed'.left.symm.trans flushed.left, rfl, rfl⟩

/-- Groupings of one row whose waits are alike are not told apart by writes and flushes. -/
theorem bisimulation (waits : other.waits around = grouping.waits around)
    : Bisimulation around (fun node node' =>
        ∃ now now', Regrouped grouping other node node' now now') where
  count_eq := by
    rintro _ _ ⟨now, now', _, _, row, rfl, rfl⟩
    rw [count_tree, count_tree, row]
  get_eq := by
    rintro _ _ ⟨now, now', _, _, row, rfl, rfl⟩ index
    rw [get_tree, get_tree, row]
  lastFault_eq := by
    rintro _ _ ⟨now, now', _, _, row, rfl, rfl⟩
    rw [lastFault_tree, lastFault_tree, row]
  set := by
    rintro _ _ ⟨now, now', shape, shape', row, rfl, rfl⟩ index color
    obtain ⟨written, kept, along, tree⟩ := now.exists_set index color
    obtain ⟨written', kept', along', tree'⟩ := now'.exists_set index color
    refine ⟨written, written', kept.trans shape, kept'.trans shape', ?_, tree, tree'⟩
    rw [along, along', row]
  flush := by
    rintro _ _ ⟨now, now', shape, shape', row, rfl, rfl⟩ s
    have regrouped : Regrouped grouping other now.tree now'.tree now now' :=
      ⟨shape, shape', row, rfl, rfl⟩
    obtain ⟨after, after', events, s', flushed, flushed', kept⟩ := regrouped.flush waits s
    exact ⟨after.tree, after'.tree, outcome events, s', flushed.tree, flushed'.tree,
      after, after', kept⟩

/-- Nesting does not matter. Whatever is asked of the trees of two groupings of one row, they answer
the same, their members are the same behind it, and the next flush flushes the same members in the
same order and has the same outcome.
-/
theorem agree_of_row_eq {τ : Type} (same : other.row = grouping.row)
    (waits : other.waits around = grouping.waits around) (requests : List (Request τ)) (s : σ)
    : ∃ (now now' : Grouping Node) (answers : List (Answer τ)) (s' : σ),
        (grouping.tree.answerAll around requests).run s = ((now.tree, answers), s')
        ∧ (other.tree.answerAll around requests).run s = ((now'.tree, answers), s')
        ∧ now.shape = grouping.shape
        ∧ now'.shape = other.shape
        ∧ now'.row = now.row
        ∧ ∃ after after' events s'',
          events.map MemberFlush.found = now.row
          ∧ now.FlushesInTurn around 0 s' after events s''
          ∧ now'.FlushesInTurn around 0 s' after' events s'' := by
  have start : Regrouped grouping other grouping.tree other.tree grouping other :=
    ⟨rfl, rfl, same, rfl, rfl⟩
  obtain ⟨_, _, answers, s', first, second, now, now', regrouped⟩ :=
    (bisimulation waits).answerAll ⟨grouping, other, start⟩ requests s
  obtain ⟨after, after', events, s'', flushed, flushed', _⟩ := regrouped.flush waits s'
  have found := found_of_flushInTurn flushed.members
  rw [map_snd_schedule] at found
  obtain ⟨shape, shape', row, rfl, rfl⟩ := regrouped
  exact ⟨now, now', answers, s', first, second, shape, shape', row, after, after', events, s'',
    found, flushed, flushed'⟩

/-- Two ways to nest a device that fails once, one without pixels and one with two. Their lists have
different spacings, but nothing waits here.
-/
theorem agree_of_nested_three
    : let around : Surroundings (StateM (List RehearsalNote)) :=
        { Net.offline (StateM (List RehearsalNote)) with
          now := return 0
          pause := fun _ => pure ()
          note := fun note => modify (note :: ·) }
      let failing : Node := .tap (.fresh 1 "a" 1)
      let grouping : Grouping Node :=
        .list 5 (.cons (.one failing)
          (.last (.list 7 (.cons (.one (ofCount 0)) (.last (.one (ofCount 2)))))))
      let other : Grouping Node :=
        .list 3 (.cons (.list 0 (.cons (.one failing) (.last (.one (ofCount 0)))))
          (.last (.one (ofCount 2))))
      let requests : List (Request Unit) := [.set 2 Color.white, .flush, .lastFault, .snapshot]
      other.row = grouping.row
      ∧ other.waits around = grouping.waits around
      ∧ ∃ (now now' : Grouping Node) (answers : List (Answer Unit)) (s' : List RehearsalNote),
          (grouping.tree.answerAll around requests).run [] = ((now.tree, answers), s')
          ∧ (other.tree.answerAll around requests).run [] = ((now'.tree, answers), s')
          ∧ now'.row = now.row := by
  intro around failing grouping other requests
  have same : other.row = grouping.row := rfl
  have waits : other.waits around = grouping.waits around :=
    waits_eq_of_idle (fun _ => rfl) rfl
  obtain ⟨now, now', answers, s', first, second, _, _, row, _⟩ :=
    agree_of_row_eq same waits requests []
  exact ⟨same, waits, now, now', answers, s', first, second, row⟩

/-- Where all lists have the same spacing, nested lists behave alike in surroundings of any kind. -/
theorem behavesAs_of_uniform {spacing : Nat} (same : other.row = grouping.row)
    (uniform : grouping.Uniform spacing) (uniform' : other.Uniform spacing)
    : BehavesAs grouping.tree other.tree :=
  behavesAs_of_bisimulation
    (fun _ => bisimulation (waits_eq_of_uniform uniform uniform' (congrArg List.length same)))
    ⟨grouping, other, rfl, rfl, same, rfl, rfl⟩

end Grouping

end PixelTree
