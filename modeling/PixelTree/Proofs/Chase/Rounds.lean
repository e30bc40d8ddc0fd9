import PixelTree.Chase

/-! The rounds of a chase: as long as there are frames left, the next one is painted and flushed,
and then the loop waits. What comes of a flush is counted, and nothing else depends on it.
-/

namespace PixelTree.Chase

/-- A round that was shown: the number of its frame, the tree as found and as left behind by its
flush, and the result of the flush.
-/
structure Round where
  frame : Nat
  found : Node
  after : Node
  result : Except DeviceFault Unit

def Round.failed (round : Round) : Bool :=
  !round.result.isOk

variable {σ : Type}

/-- The course of a loop that goes on while the number of its frame is below a limit. Each time it
paints the frame, flushes what it painted once and waits until the next frame is due, or no longer
if that has passed.
-/
inductive Course (around : Surroundings (StateM σ)) (chase : Chase) (interval limit : Nat)
    : Nat → Node → Nat → σ → List Round → Node → σ → Prop where
  | ends {frame due : Nat} {node : Node} {s : σ} (reached : limit ≤ frame)
    : Course around chase interval limit frame node due s [] node s
  | shows {frame due next : Nat} {node after last : Node} {result : Except DeviceFault Unit}
    {rounds : List Round} {s between later s' : σ} (ahead : frame < limit)
    (flushed : ((chase.paint node frame).flush around).run s = ((after, result), between))
    (waited : (awaitTime around (due + interval)).run between = (next, later))
    (others : Course around chase interval limit (frame + 1) after next later rounds last s')
    : Course around chase interval limit frame node due s (⟨frame, node, after, result⟩ :: rounds)
        last s'

namespace Course

variable {around : Surroundings (StateM σ)} {chase : Chase} {interval limit frame due : Nat}
  {node last : Node} {rounds : List Round} {s s' : σ}

/-- A course shows every frame up to its limit once and in order, by induction over its rounds. -/
theorem frames_eq (course : Course around chase interval limit frame node due s rounds last s')
    : rounds.map Round.frame = List.range' frame (limit - frame) := by
  induction course with
  | ends reached =>
      rw [Nat.sub_eq_zero_of_le reached]
      rfl
  | @shows frame _ _ _ _ _ _ _ _ _ _ _ ahead _ _ _ ih =>
      have left : limit - frame = limit - (frame + 1) + 1 := by omega
      rw [List.map_cons, ih, left, List.range'_succ]

/-- Without a frame to show nothing is touched. -/
theorem eq_of_le (course : Course around chase interval limit frame node due s rounds last s')
    (reached : limit ≤ frame)
    : last = node ∧ s' = s := by
  cases course with
  | ends _ => exact ⟨rfl, rfl⟩
  | shows ahead _ _ _ => omega

end Course

variable {around : Surroundings (StateM σ)} {chase : Chase} {interval : Nat}

theorem frames_counted (tally : Tally) (result : Except DeviceFault Unit)
    : (counted tally result).frames = tally.frames + 1 :=
  rfl

/-- A round that is counted first and the failures behind it are those of all. -/
theorem failed_counted (tally : Tally) (round : Round) (rounds : List Round)
    : (counted tally round.result).failed + rounds.countP Round.failed
      = tally.failed + (round :: rounds).countP Round.failed := by
  rw [List.countP_cons, counted, Round.failed, Nat.add_assoc]
  cases round.result.isOk with
  | true => exact congrArg (tally.failed + ·) (Nat.zero_add _)
  | false => exact congrArg (tally.failed + ·) (Nat.add_comm 1 _)

/-- What comes second starts from what the first one left behind. -/
theorem run_bind_of_run {α β : Type} {first : StateM σ α} {second : α → StateM σ β} {a : α}
    {s between : σ} (ran : first.run s = (a, between))
    : (first >>= second).run s = (second a).run between := by
  rw [StateT.run_bind, ran]
  rfl

/-- A round paints the frame of its number and counts it, and what its flush has for a result. -/
theorem run_round {node after : Node} {progress : Progress} {result : Except DeviceFault Unit}
    {next : Nat} {s between later : σ}
    (flushed : ((chase.paint node progress.tally.frames).flush around).run s
      = ((after, result), between))
    (waited : (awaitTime around (progress.due + interval)).run between = (next, later))
    : (round around chase interval node progress).run s
      = ((after, ⟨counted progress.tally result, next⟩), later) :=
  (run_bind_of_run flushed).trans (run_bind_of_run waited)

/-- Rounds take a course and count the results of its flushes, by induction over their number:
behind each of them the number of the frame and the rounds that are left make up the limit.
-/
theorem exists_course_of_rounds (count : Nat) (node : Node) (progress : Progress) (s : σ)
    : ∃ shown last due s',
        (rounds around chase interval node progress count).run s
          = ((last,
              ⟨⟨progress.tally.frames + count,
                progress.tally.failed + shown.countP Round.failed⟩, due⟩), s')
        ∧ Course around chase interval (progress.tally.frames + count) progress.tally.frames node
            progress.due s shown last s' := by
  induction count generalizing node progress s with
  | zero => exact ⟨[], node, progress.due, s, rfl, .ends (Nat.le_refl _)⟩
  | succ count ih =>
      rcases flushed : ((chase.paint node progress.tally.frames).flush around).run s
        with ⟨⟨after, result⟩, between⟩
      rcases waited : (awaitTime around (progress.due + interval)).run between with ⟨next, later⟩
      obtain ⟨shown, last, due, s', run, course⟩ :=
        ih after ⟨counted progress.tally result, next⟩ later
      have limits : progress.tally.frames + 1 + count = progress.tally.frames + (count + 1) := by
        omega
      have failures := failed_counted progress.tally ⟨progress.tally.frames, node, after, result⟩
        shown
      simp only [frames_counted, limits, failures] at run course
      refine ⟨_ :: shown, last, due, s', ?_, .shows (by omega) flushed waited course⟩
      exact (run_bind_of_run (run_round flushed waited)).trans run

/-- A run shows its frames once each and in order, whatever comes of the flushes and however long
they take. It counts them all, and how many flushes failed. Without a frame it touches nothing.
-/
theorem run_shows_every_frame (around : Surroundings (StateM σ)) (chase : Chase)
    (framesPerSecond limit : Nat) (node : Node) (s : σ)
    : ∃ shown start begun last s',
        around.now.run s = (start, begun)
        ∧ (chase.run around framesPerSecond limit node).run s
          = ((last, ⟨limit, shown.countP Round.failed⟩), s')
        ∧ Course around chase (Chase.interval framesPerSecond) limit 0 node start begun shown last
            s'
        ∧ shown.map Round.frame = List.range limit
        ∧ (limit = 0 → last = node ∧ s' = begun) := by
  rcases clock : around.now.run s with ⟨start, begun⟩
  obtain ⟨shown, last, due, s', ran, course⟩ :=
    exists_course_of_rounds limit node ⟨⟨0, 0⟩, start⟩ begun
  simp only [Nat.zero_add] at ran course
  refine ⟨shown, start, begun, last, s', rfl, ?_, course, ?_, ?_⟩
  · exact (run_bind_of_run clock).trans (run_bind_of_run ran)
  · rw [course.frames_eq, List.range_eq_range', Nat.sub_zero]
  · intro none
    exact course.eq_of_le (Nat.le_of_eq none)

end PixelTree.Chase
