import PixelTree.Proofs.Node.Painting

/-! Sparkling pixels change when they are due. A round changes the pixels whose time is up and
draws a wait for each of them, in order and from one source for all, and every pixel has left its
state once the longest wait of that state has passed.
-/

namespace PixelTree

namespace Twinkle

variable {γ : Type}

-----------------------------------------------------------------------------------------
-- Waits
-----------------------------------------------------------------------------------------

/-- The mean span of a state. -/
def meanOf (onMean offMean : Nat) (lit : Bool) : Nat :=
  if lit then onMean else offMean

/-- Whether the time of a pixel is up. -/
def isDue (now : Nat) (twinkle : Twinkle) : Bool :=
  decide (twinkle.nextChange ≤ now)

/-- Waits for several means, drawn one after the other, and what is left of the source. -/
def drawEach (draw : WaitSource γ) : List Nat → γ → List Nat × γ
  | [], g => ([], g)
  | mean :: rest, g =>
    let (wait, g) := draw mean g
    let (waits, g) := drawEach draw rest g
    (wait :: waits, g)

/-- The means that a round draws waits for: those of the states that the pixels whose time is up
change to, in the order of the pixels.
-/
def dueMeans (onMean offMean now : Nat) (twinkles : List Twinkle) : List Nat :=
  (twinkles.filter (isDue now)).map (fun twinkle => meanOf onMean offMean (!twinkle.lit))

/-- Every wait that a source has for one of two means is at most twice that mean. -/
def Held (draw : WaitSource γ) (onMean offMean : Nat) : Prop :=
  ∀ lit g, (draw (meanOf onMean offMean lit) g).1 ≤ 2 * meanOf onMean offMean lit

-----------------------------------------------------------------------------------------
-- One round
-----------------------------------------------------------------------------------------

/-- What a round does at a time: a pixel whose time is up changes once, and its wait is the one that
was drawn for it behind those of the pixels in front of it that change as well. All other pixels
are kept, and nothing else is drawn.
-/
structure Round (draw : WaitSource γ) (onMean offMean now : Nat) (twinkles : List Twinkle) (g : γ)
    (after : List Twinkle) (rest : γ) : Prop where
  length_eq : after.length = twinkles.length
  rest_eq : rest = (drawEach draw (dueMeans onMean offMean now twinkles) g).2
  kept
    : ∀ {pixel : Nat} {twinkle : Twinkle}, twinkles[pixel]? = some twinkle →
        now < twinkle.nextChange → after[pixel]? = some twinkle
  changed
    : ∀ {pixel : Nat} {twinkle : Twinkle}, twinkles[pixel]? = some twinkle →
        twinkle.nextChange ≤ now →
        ∃ wait,
          (drawEach draw (dueMeans onMean offMean now twinkles) g).1[
              (twinkles.take pixel).countP (isDue now)]? = some wait
          ∧ wait ≤ 2 * meanOf onMean offMean (!twinkle.lit)
          ∧ after[pixel]? = some ⟨!twinkle.lit, now + wait⟩

variable {draw : WaitSource γ} {onMean offMean now : Nat} {first : Twinkle}
  {twinkles after : List Twinkle} {g rest : γ}

/-- A pixel in front whose time is not up draws nothing. -/
theorem Round.wait (waiting : now < first.nextChange)
    (round : Round draw onMean offMean now twinkles g after rest)
    : Round draw onMean offMean now (first :: twinkles) g (first :: after) rest := by
  have notDue : isDue now first = false := decide_eq_false (Nat.not_le.mpr waiting)
  have means : dueMeans onMean offMean now (first :: twinkles)
      = dueMeans onMean offMean now twinkles := by
    rw [dueMeans, List.filter_cons, notDue]
    rfl
  refine ⟨congrArg (· + 1) round.length_eq, ?_, ?_, ?_⟩
  · rw [means, round.rest_eq]
  · intro pixel twinkle found later
    cases pixel with
    | zero => exact found
    | succ pixel => exact round.kept found later
  · intro pixel twinkle found due
    rw [means]
    cases pixel with
    | zero =>
        obtain rfl := Option.some.inj found
        exact absurd due (Nat.not_le.mpr waiting)
    | succ pixel =>
        rw [List.take_succ_cons, List.countP_cons, notDue]
        exact round.changed found due

/-- A pixel in front whose time is up takes the first wait, and the others draw behind it. -/
theorem Round.change (held : Held draw onMean offMean) (due : first.nextChange ≤ now)
    (round : Round draw onMean offMean now twinkles
      (draw (meanOf onMean offMean (!first.lit)) g).2 after rest)
    : Round draw onMean offMean now (first :: twinkles) g
        (⟨!first.lit, now + (draw (meanOf onMean offMean (!first.lit)) g).1⟩ :: after) rest := by
  have isDue : isDue now first = true := decide_eq_true due
  have means : dueMeans onMean offMean now (first :: twinkles)
      = meanOf onMean offMean (!first.lit) :: dueMeans onMean offMean now twinkles := by
    rw [dueMeans, List.filter_cons, isDue]
    rfl
  refine ⟨congrArg (· + 1) round.length_eq, ?_, ?_, ?_⟩
  · rw [means, round.rest_eq]
    rfl
  · intro pixel twinkle found later
    cases pixel with
    | zero =>
        obtain rfl := Option.some.inj found
        exact absurd due (Nat.not_le.mpr later)
    | succ pixel => exact round.kept found later
  · intro pixel twinkle found up
    rw [means]
    cases pixel with
    | zero =>
        obtain rfl := Option.some.inj found
        exact ⟨_, rfl, held _ g, rfl⟩
    | succ pixel =>
        rw [List.take_succ_cons, List.countP_cons, isDue]
        exact round.changed found up

/-- Every round is as it should be, by induction over the pixels. -/
theorem round_advance (held : Held draw onMean offMean) (now : Nat) (twinkles : List Twinkle)
    (g : γ)
    : Round draw onMean offMean now twinkles g (advance draw onMean offMean now twinkles g).1
        (advance draw onMean offMean now twinkles g).2 := by
  induction twinkles generalizing g with
  | nil => exact ⟨rfl, rfl, nofun, nofun⟩
  | cons first twinkles ih =>
      rw [advance, step]
      by_cases waiting : now < first.nextChange
      · rw [if_pos waiting]
        exact (ih g).wait waiting
      · rw [if_neg waiting]
        exact (ih _).change held (Nat.not_lt.mp waiting)

/-- Behind a round no pixel is due at an earlier time. -/
theorem Round.le_nextChange (round : Round draw onMean offMean now twinkles g after rest)
    {twinkle : Twinkle} (member : twinkle ∈ after)
    : now ≤ twinkle.nextChange := by
  obtain ⟨pixel, inside, found⟩ := List.mem_iff_getElem.mp member
  have inside' := inside
  rw [round.length_eq] at inside'
  have found' := List.getElem?_eq_getElem inside'
  rcases Nat.lt_or_ge now twinkles[pixel].nextChange with waiting | due
  · have kept := round.kept found' waiting
    rw [List.getElem?_eq_getElem inside, found, Option.some.injEq] at kept
    rw [kept]
    exact waiting.le
  · obtain ⟨wait, _, _, changed⟩ := round.changed found' due
    rw [List.getElem?_eq_getElem inside, found, Option.some.injEq] at changed
    rw [changed]
    exact Nat.le_add_right now wait

-----------------------------------------------------------------------------------------
-- Rounds
-----------------------------------------------------------------------------------------

/-- The pixels behind a number of rounds at given times, and what is left of the source. -/
def behind (draw : WaitSource γ) (onMean offMean : Nat) (times : Nat → Nat)
    (begun : List Twinkle × γ)
    : Nat → List Twinkle × γ
  | 0 => begun
  | rounds + 1 =>
    let (twinkles, g) := behind draw onMean offMean times begun rounds
    advance draw onMean offMean (times rounds) twinkles g

/-- A pixel enters a state at a time: at the start, which is time zero, or in a round. -/
inductive Enters (states : Nat → List Twinkle) (times : Nat → Nat) (pixel : Nat)
    : Nat → Bool → Nat → Prop where
  | made {twinkle : Twinkle} (found : (states 0)[pixel]? = some twinkle)
    : Enters states times pixel 0 twinkle.lit 0
  | changed {round : Nat} {twinkle after : Twinkle} (found : (states round)[pixel]? = some twinkle)
    (found' : (states (round + 1))[pixel]? = some after) (differ : after.lit ≠ twinkle.lit)
    : Enters states times pixel (round + 1) after.lit (times round)

variable {times : Nat → Nat} {begun : List Twinkle × γ} {pixel rounds : Nat}

theorem round_behind (held : Held draw onMean offMean) (times : Nat → Nat)
    (begun : List Twinkle × γ) (rounds : Nat)
    : Round draw onMean offMean (times rounds) (behind draw onMean offMean times begun rounds).1
        (behind draw onMean offMean times begun rounds).2
        (behind draw onMean offMean times begun (rounds + 1)).1
        (behind draw onMean offMean times begun (rounds + 1)).2 :=
  round_advance held (times rounds) _ _

/-- At the start every pixel is dark and has drawn a wait for that, by induction over them. -/
theorem dark_of_mem_start (held : Held draw onMean offMean) (g : γ) (count : Nat)
    {twinkle : Twinkle} (member : twinkle ∈ (start draw offMean g count).1)
    : twinkle.lit = false ∧ twinkle.nextChange ≤ 2 * offMean := by
  induction count generalizing g with
  | zero => cases member
  | succ count ih =>
      rcases List.mem_cons.mp member with rfl | member
      · exact ⟨rfl, held false g⟩
      · exact ih _ member

/-- The pixels of a sparkle that was made with a number of them, behind some rounds. -/
def states (draw : WaitSource γ) (onMean offMean : Nat) (times : Nat → Nat) (g : γ) (count : Nat)
    (rounds : Nat)
    : List Twinkle :=
  (behind draw onMean offMean times (start draw offMean g count) rounds).1

/-- A pixel that enters a state draws a wait for it there and then. -/
theorem Enters.exists_wait (held : Held draw onMean offMean) {count time : Nat} {lit : Bool}
    (enters : Enters (states draw onMean offMean times g count) times pixel rounds lit time)
    : ∃ wait ≤ 2 * meanOf onMean offMean lit,
        (states draw onMean offMean times g count rounds)[pixel]? = some ⟨lit, time + wait⟩ := by
  cases enters with
  | @made twinkle found =>
      obtain ⟨dark, most⟩ := dark_of_mem_start held g count (List.mem_of_getElem? found)
      refine ⟨twinkle.nextChange, ?_, ?_⟩
      · rw [dark]
        exact most
      · rw [Nat.zero_add]
        exact found
  | @changed round twinkle after found found' differ =>
      have made := round_behind held times (start draw offMean g count) round
      rcases Nat.lt_or_ge (times round) twinkle.nextChange with waiting | due
      · have kept := found'.symm.trans (made.kept found waiting)
        rw [Option.some.injEq] at kept
        exact absurd (congrArg Twinkle.lit kept) differ
      · obtain ⟨wait, _, most, changed⟩ := made.changed found due
        have same := found'.symm.trans changed
        rw [Option.some.injEq] at same
        rw [same]
        exact ⟨wait, most, changed⟩

/-- A pixel is as it was until it changes, by induction over the rounds. -/
theorem same_or_changed (held : Held draw onMean offMean) {twinkle : Twinkle}
    (found : (behind draw onMean offMean times begun rounds).1[pixel]? = some twinkle)
    (more : Nat)
    : (behind draw onMean offMean times begun (rounds + more)).1[pixel]? = some twinkle
      ∨ ∃ change, rounds ≤ change ∧ change < rounds + more
        ∧ ∃ after, (behind draw onMean offMean times begun (change + 1)).1[pixel]? = some after
          ∧ after.lit = !twinkle.lit := by
  induction more with
  | zero => exact Or.inl found
  | succ more ih =>
      rcases ih with same | ⟨change, past, before, changed⟩
      · have round := round_behind held times begun (rounds + more)
        rcases Nat.lt_or_ge (times (rounds + more)) twinkle.nextChange with waiting | due
        · exact Or.inl (round.kept same waiting)
        · obtain ⟨wait, _, _, changed⟩ := round.changed same due
          exact Or.inr ⟨rounds + more, Nat.le_add_right _ _, Nat.lt_succ_self _, _, changed, rfl⟩
      · exact Or.inr ⟨change, past, Nat.lt_succ_of_lt before, changed⟩

/-- A pixel has left its state behind the first round at which the longest wait for it is over: it
changes in that round at the latest.
-/
theorem Enters.exists_change (held : Held draw onMean offMean) {count time later : Nat} {lit : Bool}
    (enters : Enters (states draw onMean offMean times g count) times pixel rounds lit time)
    (ahead : rounds ≤ later) (passed : time + 2 * meanOf onMean offMean lit ≤ times later)
    : ∃ change, rounds ≤ change ∧ change ≤ later
        ∧ ∃ after, (states draw onMean offMean times g count (change + 1))[pixel]? = some after
          ∧ after.lit = !lit := by
  obtain ⟨wait, most, found⟩ := enters.exists_wait held
  obtain ⟨more, rfl⟩ := Nat.exists_eq_add_of_le ahead
  rcases same_or_changed held found more with same | ⟨change, past, before, changed⟩
  · have due : time + wait ≤ times (rounds + more) := by omega
    have round := round_behind held times (start draw offMean g count) (rounds + more)
    obtain ⟨wait', _, _, changed⟩ := round.changed same due
    exact ⟨rounds + more, ahead, Nat.le_refl _, _, changed, rfl⟩
  · exact ⟨change, past, before.le, changed⟩

end Twinkle

-----------------------------------------------------------------------------------------
-- Painting
-----------------------------------------------------------------------------------------

namespace Sparkle

open Node (Repainted)

/-- Whether the pixel at an index is lit. -/
def isLit (sparkle : Sparkle) (index : Nat) : Bool :=
  sparkle.twinkles[index]?.any Twinkle.lit

theorem mem_litIndices {sparkle : Sparkle} {index : Nat}
    : index ∈ sparkle.litIndices ↔ sparkle.isLit index = true := by
  rw [litIndices, List.mem_map, isLit, Option.any_eq_true]
  constructor
  · rintro ⟨⟨twinkle, index⟩, member, rfl⟩
    obtain ⟨entry, lit⟩ := List.mem_filter.mp member
    exact ⟨twinkle, List.mk_mem_zipIdx_iff_getElem?.mp entry, lit⟩
  · rintro ⟨twinkle, found, lit⟩
    have entry := List.mk_mem_zipIdx_iff_getElem?.mpr found
    exact ⟨(twinkle, index), List.mem_filter.mpr ⟨entry, lit⟩, rfl⟩

/-- Lit pixels show the color of the sparkle, and all others what they showed. -/
theorem get_paintLit {inner : Node} (independent : inner.Independent) (sparkle : Sparkle)
    {index : Nat} (visible : index < inner.count)
    : (Node.paintLit sparkle inner).get index
      = if sparkle.isLit index then sparkle.color else inner.get index := by
  rw [Node.paintLit, independent.get_setEach _ _ visible]
  simp only [mem_litIndices]

/-- The number of lit pixels is that of the indices at which a pixel is lit. -/
theorem litCount_eq (sparkle : Sparkle)
    : sparkle.litCount = (List.range sparkle.twinkles.length).countP sparkle.isLit := by
  have pixels : sparkle.twinkles.map Twinkle.lit
      = (List.range sparkle.twinkles.length).map sparkle.isLit := by
    refine List.ext_getElem (by simp) ?_
    intro index inside _
    rw [List.length_map] at inside
    simp [isLit, List.getElem?_eq_getElem inside]
  have counts : (sparkle.twinkles.map Twinkle.lit).countP id
      = ((List.range sparkle.twinkles.length).map sparkle.isLit).countP id :=
    congrArg _ pixels
  rwa [List.countP_map, List.countP_map] at counts

/-- What the filter does at a time: its pixels have a round, the inner node shows those that are lit
behind it, and a flush does both at the time of the clock before it flushes the inner node.
-/
structure AdvancesAndPaints (sparkle : Sparkle) (inner : Node) : Prop where
  advanced : ∀ now, (Node.sparkleAt now sparkle inner).1 = sparkle.advance now
  repainted : ∀ now, Repainted inner (Node.sparkleAt now sparkle inner).2
  get_eq
    : ∀ now, ∀ index < inner.count,
        (Node.sparkleAt now sparkle inner).2.get index
          = if (sparkle.advance now).isLit index then sparkle.color else inner.get index
  litCount_eq
    : ∀ now,
        (sparkle.advance now).litCount
          = (List.range sparkle.twinkles.length).countP (sparkle.advance now).isLit
  flush_eq
    : ∀ {m : Type → Type} [Monad m] (around : Surroundings m),
        (Node.sparkle sparkle inner).flush around
          = do
            let now ← around.now
            let (sparkle, painted) := Node.sparkleAt now sparkle inner
            let (inner, result) ← painted.flush around
            return (.sparkle sparkle inner, result)

theorem advancesAndPaints {inner : Node} (independent : inner.Independent) (sparkle : Sparkle)
    : sparkle.AdvancesAndPaints inner where
  advanced := fun _ => rfl
  repainted := fun _ => Node.repainted_setEach inner _ _
  get_eq := fun now _ visible => get_paintLit independent (sparkle.advance now) visible
  litCount_eq := by
    intro now
    have length_eq : (sparkle.advance now).twinkles.length = sparkle.twinkles.length :=
      Twinkle.length_advance _ _ _ _ _ _
    rw [litCount_eq, length_eq]
  flush_eq := by
    intro m _ around
    rw [Node.flush]

open Twinkle (Held Round Enters states behind meanOf WaitSource)

/-- A sparkle with waits from any source and any mean spans obeys its deadlines: what each round
does, what is painted then, and how long a pixel stays as it is.
-/
structure ObeysDeadlines {γ : Type} (draw : WaitSource γ) (onMean offMean : Nat) : Prop where
  round
    : ∀ now twinkles g,
        Round draw onMean offMean now twinkles g
          (Twinkle.advance draw onMean offMean now twinkles g).1
          (Twinkle.advance draw onMean offMean now twinkles g).2
  painted
    : ∀ now (sparkle : Sparkle) g {inner : Node}, inner.Independent →
        let after :=
          { sparkle with
            twinkles := (Twinkle.advance draw onMean offMean now sparkle.twinkles g).1 }
        Repainted inner (Node.paintLit after inner)
        ∧ ∀ index < inner.count,
          (Node.paintLit after inner).get index
            = if after.isLit index then sparkle.color else inner.get index
  /-- Behind a round no deadline is before its time, whatever the times of the rounds are. -/
  le_nextChange
    : ∀ times begun rounds, ∀ twinkle ∈ (behind draw onMean offMean times begun (rounds + 1)).1,
        times rounds ≤ twinkle.nextChange
  /-- The first round with a time at or behind twice the mean of a state is the last one in which a
  pixel can leave it.
  -/
  leaves
    : ∀ g count times pixel rounds lit time,
        Enters (states draw onMean offMean times g count) times pixel rounds lit time →
        ∀ later, rounds ≤ later → time + 2 * meanOf onMean offMean lit ≤ times later →
        ∃ change, rounds ≤ change ∧ change ≤ later
          ∧ ∃ after, (states draw onMean offMean times g count (change + 1))[pixel]? = some after
            ∧ after.lit = !lit

end Sparkle

end PixelTree
