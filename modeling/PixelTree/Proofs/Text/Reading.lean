import Mathlib
import PixelTree.Text.Reader

/-! What readers take off the front of a text, and what they leave of it. -/

namespace PixelTree.Text.Reader

variable {α β : Type} {reader : Reader α} {cs rest : List Char} {value : α}

/-- A reader that finds a value leaves the rest of the text to the next one. -/
theorem run_bind_of_run (read : reader.run cs = some (value, rest)) (next : α → Reader β)
    : (reader >>= next).run cs = (next value).run rest := by
  rw [StateT.run_bind, read]
  rfl

theorem run_next (c : Char) (rest : List Char) : next.run (c :: rest) = some (c, rest) :=
  rfl

theorem run_peek? (cs : List Char) : peek?.run cs = some (cs.head?, cs) :=
  rfl

theorem run_satisfying {p : Char → Bool} {c : Char} (passes : p c = true) (rest : List Char)
    : (satisfying p).run (c :: rest) = some (c, rest) := by
  rw [satisfying, run_bind_of_run (run_next c rest), if_pos passes]
  rfl

theorem run_skip (c : Char) (rest : List Char) : (skip c).run (c :: rest) = some ((), rest) := by
  rw [skip, run_bind_of_run (run_satisfying (p := (· == c)) (beq_self_eq_true c) rest)]
  rfl

theorem run_skipAll (cs rest : List Char) : (skipAll cs).run (cs ++ rest) = some ((), rest) := by
  induction cs with
  | nil => rfl
  | cons c cs ih =>
      have first : skipAll (c :: cs) = (do skip c; skipAll cs) := rfl
      rw [first, List.cons_append, run_bind_of_run (run_skip c (cs ++ rest)), ih]

/-- A row of characters is taken off by a test that all of them pass and the next one does not. -/
theorem run_span {p : Char → Bool} (passes : ∀ c ∈ cs, p c = true)
    (stops : ∀ c ∈ rest.head?, p c = false)
    : (span p).run (cs ++ rest) = some (cs, rest) := by
  have empty : rest.takeWhile p = [] ∧ rest.dropWhile p = rest := by
    cases rest with
    | nil => exact ⟨rfl, rfl⟩
    | cons c rest => simp [stops c rfl]
  change some _ = _
  rw [List.takeWhile_append_of_pos passes, List.dropWhile_append_of_pos passes, empty.1, empty.2,
    List.append_nil]

theorem run_takes_eq (c : Char) (cs : List Char)
    : (takes [c]).run cs
      = if [c].isPrefixOf cs then some (true, cs.drop 1) else some (false, cs) := by
  have tested : (takes [c]).run cs
      = (if [c].isPrefixOf cs then (do set ((← get).drop 1); return true : Reader Bool)
        else return false).run cs :=
    rfl
  rw [tested]
  split <;> rfl

/-- A character that does not come next is not taken. -/
theorem run_takes_of_ne {c : Char} (differs : ∀ d ∈ cs.head?, d ≠ c)
    : (takes [c]).run cs = some (false, cs) := by
  rw [run_takes_eq, if_neg]
  cases cs with
  | nil => simp
  | cons d cs => simpa [List.isPrefixOf] using (differs d rfl).symm

theorem run_takes (c : Char) (rest : List Char)
    : (takes [c]).run (c :: rest) = some (true, rest) := by
  rw [run_takes_eq, if_pos (by simp [List.isPrefixOf])]
  rfl

variable {σ : Type} {step : σ → Reader (σ ⊕ α)} {state state' : σ}

theorem run_repeated_inl (read : (step state).run cs = some (.inl state', rest)) (bit : Char)
    (bound : List Char)
    : (repeated step (bit :: bound) state).run cs = (repeated step bound state').run rest := by
  rw [repeated, run_bind_of_run read]

theorem run_repeated_inr (read : (step state).run cs = some (.inr value, rest)) (bit : Char)
    (bound : List Char)
    : (repeated step (bit :: bound) state).run cs = some (value, rest) := by
  rw [repeated, run_bind_of_run read]
  rfl

/-- A reader that leaves nothing of a text finds the value of the whole text. -/
theorem readAll?_of_run {s : String} (read : reader.run s.toList = some (value, []))
    : readAll? reader s = some value := by
  have finished : (do let value ← reader; finish; return value : Reader α) s.toList
      = some (value, []) :=
    (run_bind_of_run read _).trans rfl
  rw [readAll?, finished]

end PixelTree.Text.Reader
