import PixelTree.Proofs.Remap.Permutation

/-! Tables on a machine of 64-bit words, which checks every operation: a result that does not fit
in a word stops it, and so does a divisor that is zero. For a strip that fits in memory nothing ever
stops it, and it finds the tables of the exact arithmetic.
-/

namespace PixelTree.Remap

/-- What stops a machine. -/
inductive Stop where
  | overflow
  | zeroDivisor
  | zeroStride
deriving DecidableEq

namespace Machine

-----------------------------------------------------------------------------------------
-- Operations
-----------------------------------------------------------------------------------------

/-- A result that has to be a word. -/
def word (n : Nat) : Except Stop Nat :=
  if n < Numeral.wordLimit then return n else throw .overflow

/-- A result that has to be a signed word. -/
def signed (i : Int) : Except Stop Int :=
  if -(Numeral.signedLimit : Int) ≤ i ∧ i < (Numeral.signedLimit : Int) then return i
  else throw .overflow

def remainder (a b : Nat) : Except Stop Nat :=
  if b = 0 then throw .zeroDivisor else return a % b

/-- The remainder of signed words that is not negative. The quotient of the least signed word by
minus one is none. -/
def euclid (a b : Int) : Except Stop Int :=
  if b = 0 then throw .zeroDivisor
  else if a = -(Numeral.signedLimit : Int) ∧ b = -1 then throw .overflow
  else return a % b

/-- The signed word with the bits of a word. -/
def toSigned (n : Nat) : Int :=
  (n : Int).bmod Numeral.wordLimit

/-- The word with the bits of a signed word. -/
def toWord (i : Int) : Nat :=
  (i % (Numeral.wordLimit : Int)).toNat

-----------------------------------------------------------------------------------------
-- Tables
-----------------------------------------------------------------------------------------

/-- A distance of either sign as an offset around a strip. -/
def around (count : Nat) (distance : Int64) : Except Stop Nat := do
  let rest ← euclid distance.toInt (toSigned count)
  return toWord rest

/-- The indices at distances of `stride` from `start` on. -/
def stepBy (count stride start : Nat) : Except Stop (List Nat) :=
  if stride = 0 then throw .zeroStride else return strided count stride start

/-- The indices below `count`, each moved on by `offset`. -/
def fill (count offset : Nat) : Except Stop (Array Nat) := do
  let indices ← (List.range count).mapM (fun index => do
    remainder (← word (index + offset)) count)
  return indices.toArray

/-- The steps between the turns of a bounce, if neither they nor their double overflow. -/
def span? (count after : Nat) : Option Int :=
  (word (count * after)).toOption.bind (fun product =>
    (signed product).toOption.filter (fun span => (signed (2 * span)).isOk))

/-- The place of a bounce on its way there or back. -/
def turned (span period rest : Int) : Except Stop Int :=
  if rest < span then return rest else signed (period - rest)

def bounced (count : Nat) (span : Int) (step : Int64) : Except Stop Nat := do
  let double ← signed (2 * span)
  let less ← signed (double - 1)
  let rest ← euclid step.toInt (max less 1)
  let place ← turned span (max less 1) rest
  remainder (toWord place) count

/-- The table after a number of steps. -/
def update (table : Table) (step : Int64) : Except Stop Table :=
  if table.size = 0 then return table
  else
    match table.rule with
    | .rotate _ => do
      let offset ← around table.size step
      return { table with indices := ← fill table.size offset }
    | .bounce _ after =>
      match span? table.size after with
      | none => return table
      | some span => do
        let offset ← bounced table.size span step
        return { table with indices := ← fill table.size offset }
    | _ => return table

/-- The first table of a rule. One that moves goes its first steps at once. -/
def initial (rule : Rule) (count : Nat) (first : Int64) : Except Stop Table :=
  match rule with
  | .random seed => return ⟨rule, Random.shuffle seed (Array.range count)⟩
  | .skip stride => do
    let runs ← (List.range (min stride count)).mapM (stepBy count stride)
    return ⟨rule, runs.flatten.toArray⟩
  | .shift offset => return ⟨rule, ← fill count offset⟩
  | _ => update ⟨rule, Array.replicate count 0⟩ first

/-- The table of a rule that is made and then told its steps again and again. -/
def run (rule : Rule) (count : Nat) (first : Int64) (steps : List Int64) : Except Stop Table := do
  steps.foldlM update (← initial rule count first)

-----------------------------------------------------------------------------------------
-- Operations that do not stop
-----------------------------------------------------------------------------------------

theorem bind_ok {α β : Type} (a : α) (f : α → Except Stop β) : Except.ok a >>= f = f a :=
  rfl

theorem word_eq {n : Nat} (small : n < Numeral.wordLimit) : word n = .ok n :=
  if_pos small

theorem word_eq_or (n : Nat) : word n = .ok n ∨ word n = .error .overflow := by
  unfold word
  split
  · exact Or.inl rfl
  · exact Or.inr rfl

theorem signed_eq {i : Int} (least : -(Numeral.signedLimit : Int) ≤ i)
    (most : i < (Numeral.signedLimit : Int))
    : signed i = .ok i :=
  if_pos ⟨least, most⟩

theorem signed_eq_or (i : Int) : signed i = .ok i ∨ signed i = .error .overflow := by
  unfold signed
  split
  · exact Or.inl rfl
  · exact Or.inr rfl

theorem remainder_eq {a b : Nat} (positive : 0 < b) : remainder a b = .ok (a % b) :=
  if_neg positive.ne'

theorem euclid_eq {a b : Int} (positive : 0 < b) : euclid a b = .ok (a % b) := by
  have nonzero : b ≠ 0 := by omega
  have noMinus : ¬ (a = -(Numeral.signedLimit : Int) ∧ b = -1) := by omega
  rw [euclid, if_neg nonzero, if_neg noMinus]
  rfl

theorem toSigned_eq {n : Nat} (small : n < Numeral.signedLimit) : toSigned n = n := by
  have limit : Numeral.signedLimit + Numeral.signedLimit = Numeral.wordLimit := rfl
  exact Int.bmod_eq_of_le (by omega) (by omega)

theorem toWord_eq {i : Int} (least : 0 ≤ i) (most : i < (Numeral.signedLimit : Int))
    : toWord i = i.toNat := by
  have limit : Numeral.signedLimit + Numeral.signedLimit = Numeral.wordLimit := rfl
  rw [toWord, Int.emod_eq_of_lt least (by omega)]

-----------------------------------------------------------------------------------------
-- Tables that are found
-----------------------------------------------------------------------------------------

variable {count offset : Nat}

theorem around_eq (positive : 0 < count) (small : count < Numeral.signedLimit) (distance : Int64)
    : around count distance = .ok (distance.toInt % (count : Int)).toNat := by
  have least := Int.emod_nonneg distance.toInt (b := (count : Int)) (by omega)
  have most := Int.emod_lt_of_pos distance.toInt (b := (count : Int)) (by omega)
  rw [around, toSigned_eq small, euclid_eq (by omega)]
  exact congrArg Except.ok (toWord_eq least (by omega))

/-- A row of operations that do not stop has all of their results. -/
theorem mapM_of_forall {α β ε : Type} {f : α → Except ε β} {g : α → β} {items : List α}
    (each : ∀ item ∈ items, f item = .ok (g item))
    : items.mapM f = .ok (items.map g) := by
  induction items with
  | nil => rfl
  | cons first rest ih =>
      obtain ⟨head, tail⟩ := List.forall_mem_cons.mp each
      rw [List.mapM_cons, head, ih tail]
      rfl

theorem stepBy_eq {stride : Nat} (positive : 0 < stride) (start : Nat)
    : stepBy count stride start = .ok (strided count stride start) :=
  if_neg positive.ne'

/-- No sum of an index and the offset of a pixel is too large for a word. -/
theorem fill_eq (small : count ≤ Numeral.signedLimit) (below : offset < max count 1)
    : fill count offset = .ok (shifted count offset) := by
  have limit : Numeral.signedLimit + Numeral.signedLimit = Numeral.wordLimit := rfl
  have each : ∀ index ∈ List.range count,
      (do remainder (← word (index + offset)) count) = .ok (advanced count offset index) := by
    intro index member
    have inside := List.mem_range.mp member
    have fits : index + offset < Numeral.wordLimit := by omega
    rw [word_eq fits, advanced, Nat.mod_eq_of_lt fits]
    exact remainder_eq (by omega)
  have indices : shifted count offset
      = ((List.range count).map (advanced count offset)).toArray := by
    rw [← Array.toList_inj, shifted, Array.toList_map, Array.toList_range]
  rw [fill, mapM_of_forall each, indices]
  rfl

theorem toOption_ok {α : Type} (a : α) : (Except.ok a : Except Stop α).toOption = some a :=
  rfl

theorem toOption_error {α : Type} (stop : Stop)
    : (Except.error stop : Except Stop α).toOption = none :=
  rfl

/-- The checked products find a span exactly if its double is a signed word. -/
theorem span?_eq (count after : Nat)
    : span? count after = Option.map Int.ofNat (Rule.span? count after) := by
  have limit : Numeral.signedLimit + Numeral.signedLimit = Numeral.wordLimit := rfl
  rw [span?, Rule.span?_eq]
  generalize count * after = product
  by_cases fits : 2 * product < Numeral.signedLimit
  · have single := signed_eq (i := product) (by omega) (by omega)
    have double := signed_eq (i := 2 * product) (by omega) (by omega)
    rw [word_eq (by omega), if_pos fits, toOption_ok, Option.bind_some, single, toOption_ok,
      Option.filter_some, double, Except.isOk, Except.toBool, if_pos rfl, Option.map_some,
      Int.ofNat_eq_natCast]
  · have double : signed (2 * product) = .error .overflow := if_neg (by omega)
    rw [if_neg fits, Option.map_none]
    rcases word_eq_or product with whole | whole
    · rcases signed_eq_or product with single | single
      · rw [whole, toOption_ok, Option.bind_some, single, toOption_ok, Option.filter_some, double,
          Except.isOk, Except.toBool, if_neg Bool.false_ne_true]
      · rw [whole, toOption_ok, Option.bind_some, single, toOption_error, Option.filter_none]
    · rw [whole, toOption_error, Option.bind_none]

theorem double_lt_of_span? {after span : Nat} (found : Rule.span? count after = some span)
    : 2 * span < Numeral.signedLimit := by
  rw [Rule.span?_eq] at found
  split at found
  · next fits =>
      obtain rfl := Option.some.inj found
      exact fits
  · cases found

/-- A bounce repeats itself after a number of steps that is a signed word. -/
theorem period_lt {span : Nat} (small : 2 * span < Numeral.signedLimit)
    : period span < Numeral.signedLimit := by
  have one : 1 < Numeral.signedLimit := by decide
  unfold period
  omega

/-- No difference of two places of a bounce overflows. -/
theorem turned_eq {span period rest : Nat} (small : period < Numeral.signedLimit)
    (inside : rest < period)
    : turned span period rest = .ok (if rest < span then rest else period - rest : Nat) := by
  unfold turned
  by_cases ahead : rest < span
  · rw [if_pos ahead, if_pos (by omega)]
    rfl
  · rw [if_neg ahead, if_neg (by omega), signed_eq (by omega) (by omega), Nat.cast_sub inside.le]

/-- A bounce finds its place: the double of its span does not overflow. -/
theorem bounced_eq {after span : Nat} (positive : 0 < count)
    (found : Rule.span? count after = some span) (step : Int64)
    : bounced count span step = .ok (bouncePlace span step.toInt % count) := by
  have small := double_lt_of_span? found
  have short := period_lt small
  have turns : max (2 * (span : Int) - 1) 1 = (period span : Int) := by
    unfold period
    omega
  have turning : 0 < period span := Nat.le_max_right _ _
  have least := Int.emod_nonneg step.toInt (b := (period span : Int)) (by omega)
  have most := Int.emod_lt_of_pos step.toInt (b := (period span : Int)) (by omega)
  obtain ⟨rest, stepped⟩ := Int.eq_ofNat_of_zero_le least
  rw [stepped] at most
  have placed : bouncePlace span step.toInt
      = if rest < span then rest else period span - rest := by
    rw [bouncePlace, stepped]
    rfl
  have below : (if rest < span then rest else period span - rest) < Numeral.signedLimit := by
    split <;> omega
  have double := signed_eq (i := 2 * (span : Int)) (by omega) (by omega)
  have less := signed_eq (i := 2 * (span : Int) - 1) (by omega) (by omega)
  have word := toWord_eq (Int.natCast_nonneg _) (Int.ofNat_lt.mpr below)
  rw [bounced, double, bind_ok, less, bind_ok, turns, euclid_eq (by omega), bind_ok, stepped,
    turned_eq short (Int.ofNat_lt.mp most), bind_ok, word, remainder_eq positive, placed,
    Int.toNat_natCast]

-----------------------------------------------------------------------------------------
-- Runs that do not stop
-----------------------------------------------------------------------------------------

/-- The machine finds the table after any number of steps, by cases on the rule. -/
theorem update_eq {table : Table} (small : table.size < Numeral.signedLimit) (step : Int64)
    : update table step = .ok (table.afterSteps step) := by
  unfold update Table.afterSteps Table.movedTo
  by_cases empty : table.size = 0
  · rw [if_pos empty, if_pos empty]
    rfl
  · have positive := Nat.pos_of_ne_zero empty
    rw [if_neg empty, if_neg empty]
    cases rule : table.rule with
    | rotate speed =>
        have most := Int.emod_lt_of_pos step.toInt (b := (table.size : Int)) (by omega)
        have below : (step.toInt % (table.size : Int)).toNat < max table.size 1 := by omega
        simp only [around_eq positive small, bind_ok, fill_eq small.le below, offsetAfter?]
        rfl
    | bounce speed after =>
        simp only [span?_eq, offsetAfter?]
        cases found : Rule.span? table.size after with
        | none => rfl
        | some span =>
            have most := Nat.mod_lt (bouncePlace span step.toInt) positive
            have below : bouncePlace span step.toInt % table.size < max table.size 1 := by omega
            simp only [Option.map_some, Int.ofNat_eq_natCast, bounced_eq positive found, bind_ok,
              fill_eq small.le below]
            rfl
    | random seed => rfl
    | skip stride => rfl
    | shift offset => rfl

/-- The machine finds the first table of a rule that does not move. -/
theorem initial_of_still {rule : Rule} (fits : rule.Fits count)
    (small : count < Numeral.signedLimit) (still : rule.moves = false) (first : Int64)
    : initial rule count first = .ok (Table.initial rule count) := by
  cases rule with
  | random seed => rfl
  | skip stride =>
      rw [initial, mapM_of_forall (fun start _ => stepBy_eq fits.1 start), bind_ok,
        ← List.flatMap_def]
      rfl
  | shift offset =>
      rw [initial, fill_eq small.le fits]
      rfl
  | rotate speed => cases still
  | bounce speed after => cases still

theorem initial_of_moves {rule : Rule} (small : count < Numeral.signedLimit)
    (moves : rule.moves = true) (first : Int64)
    : initial rule count first
      = .ok (Table.afterSteps ⟨rule, Array.replicate count 0⟩ first) := by
  have size : Table.size ⟨rule, Array.replicate count 0⟩ = count := Array.size_replicate
  rw [← size] at small
  have updated := update_eq small first
  cases rule with
  | rotate speed => exact updated
  | bounce speed after => exact updated
  | random seed => cases moves
  | skip stride => cases moves
  | shift offset => cases moves

/-- At the start the machine finds the first table of the exact arithmetic. -/
theorem initial_eq {rule : Rule} (fits : rule.Fits count) (small : count < Numeral.signedLimit)
    : initial rule count (rule.stepsAt count 0) = .ok (Table.initial rule count) := by
  cases moves : rule.moves with
  | false => exact initial_of_still fits small moves _
  | true =>
      have size : Table.size ⟨rule, Array.replicate count 0⟩ = count := Array.size_replicate
      have started := Table.atTime_eq ⟨rule, Array.replicate count 0⟩ 0
      rw [size] at started
      rw [initial_of_moves small moves, ← started]
      cases rule with
      | rotate speed => rfl
      | bounce speed after => rfl
      | random seed => cases moves
      | skip stride => cases moves
      | shift offset => cases moves

/-- The first table renumbers the strip, whatever the first steps are. -/
theorem exists_initial {rule : Rule} (fits : rule.Fits count)
    (small : count < Numeral.signedLimit) (first : Int64)
    : ∃ table, initial rule count first = .ok table ∧ table.Renumbers count := by
  cases moves : rule.moves with
  | false => exact ⟨_, initial_of_still fits small moves first, fits.renumbers small.le⟩
  | true =>
      exact ⟨_, initial_of_moves small moves first, fits.renumbers_afterSteps small.le moves first⟩

/-- Steps that are told again and again, by induction over them. -/
theorem foldlM_update {table : Table} (small : table.size < Numeral.signedLimit)
    (steps : List Int64)
    : steps.foldlM update table = .ok (steps.foldl Table.afterSteps table) := by
  induction steps generalizing table with
  | nil => rfl
  | cons step rest ih =>
      rw [List.foldlM_cons, update_eq small, bind_ok, ih (by rwa [Table.size_afterSteps]),
        List.foldl_cons]

theorem run_of_moves {rule : Rule} (small : count < Numeral.signedLimit)
    (moves : rule.moves = true) (first : Int64) (steps : List Int64)
    : run rule count first steps
      = .ok (steps.foldl Table.afterSteps
          (Table.afterSteps ⟨rule, Array.replicate count 0⟩ first)) := by
  have size : Table.size ⟨rule, Array.replicate count 0⟩ = count := Array.size_replicate
  rw [run, initial_of_moves small moves, bind_ok, foldlM_update]
  rwa [Table.size_afterSteps, size]

/-- A table goes on renumbering its strip, by induction over the steps that it is told. -/
theorem renumbers_foldl {table : Table} (small : count ≤ Numeral.signedLimit)
    (renumbers : table.Renumbers count) (steps : List Int64)
    : (steps.foldl Table.afterSteps table).Renumbers count := by
  induction steps generalizing table with
  | nil => exact renumbers
  | cons step rest ih => exact ih (renumbers.afterSteps small step)

/-- Nothing stops a machine from making and moving the table of a rule that fits, and the table
renumbers the strip whatever steps it is told.
-/
theorem exists_run {rule : Rule} (fits : rule.Fits count) (small : count < Numeral.signedLimit)
    (first : Int64) (steps : List Int64)
    : ∃ table, run rule count first steps = .ok table ∧ table.Renumbers count := by
  obtain ⟨table, made, renumbers⟩ := exists_initial fits small first
  refine ⟨steps.foldl Table.afterSteps table, ?_, renumbers_foldl small.le renumbers steps⟩
  rw [run, made, bind_ok, foldlM_update (by rwa [renumbers.size_eq])]

/-- Times at which a table is asked for are numbers of steps, by induction over them. -/
theorem foldl_atTime (table : Table) (times : List Nat)
    : times.foldl Table.atTime table
      = (times.map (table.rule.stepsAt table.size)).foldl Table.afterSteps table := by
  induction times generalizing table with
  | nil => rfl
  | cons elapsed rest ih =>
      rw [List.foldl_cons, ih, Table.rule_atTime, Table.size_atTime, List.map_cons,
        List.foldl_cons, Table.atTime_eq]

/-- The machine finds the tables of the exact arithmetic at all times. -/
theorem run_stepsAt {rule : Rule} (fits : rule.Fits count) (small : count < Numeral.signedLimit)
    (times : List Nat)
    : run rule count (rule.stepsAt count 0) (times.map (rule.stepsAt count))
      = .ok (times.foldl Table.atTime (Table.initial rule count)) := by
  have renumbers := fits.renumbers small.le
  have size := renumbers.size_eq
  rw [run, initial_eq fits small, bind_ok, foldlM_update (by rwa [size]), foldl_atTime,
    Table.rule_initial, size]

end Machine

end PixelTree.Remap
