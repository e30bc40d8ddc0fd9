import PixelTree.Descriptor.Nesting
import PixelTree.Text.Blank

/-! Cutting a text at the delimiters that lie outside every group and every quote. -/

namespace PixelTree.Descriptor

/-- Why a text cannot be split. -/
inductive SplitError where
  /-- The text holds nothing but blanks. -/
  | blank
  | unbalanced (fault : Imbalance)
deriving DecidableEq

/-- The first piece and the pieces after it. A delimiter that cuts belongs to no piece. -/
def cut (delimiter : Char)
    : Nesting → List Char → Except Imbalance (List Char × List (List Char))
  | nesting, [] => do
    nesting.finish
    return ([], [])
  | nesting, c :: rest =>
    if nesting.cutsAt delimiter c then do
      let (piece, pieces) ← cut delimiter nesting rest
      return ([], piece :: pieces)
    else do
      let next ← nesting.step c
      let (piece, pieces) ← cut delimiter next rest
      return (c :: piece, pieces)

/-- The pieces between the cuts without the blanks at their ends; empty pieces are kept. -/
def splitChars (delimiter : Char) (cs : List Char)
    : Except SplitError (List (List Char)) :=
  if Text.isAllBlank cs then throw .blank
  else
    match cut delimiter .top cs with
    | .error fault => throw (.unbalanced fault)
    | .ok (piece, pieces) => return (piece :: pieces).map Text.trimChars

def split (delimiter : Char) (input : String) : Except SplitError (List String) :=
  (splitChars delimiter input.toList).map (fun tokens => tokens.map String.ofList)

theorem length_trimChars_le (cs : List Char)
    : (Text.trimChars cs).length ≤ cs.length := by
  have hstart := (List.dropWhile_sublist Text.isBlank (l := cs)).length_le
  have hend :=
    (List.dropWhile_sublist Text.isBlank
      (l := (cs.dropWhile Text.isBlank).reverse)).length_le
  simp only [Text.trimChars, Text.dropBlankEnd, List.length_reverse] at *
  omega

/-- No piece is longer than the text. -/
theorem length_le_of_cut {delimiter : Char} {cs : List Char} {nesting : Nesting}
    {piece : List Char} {pieces : List (List Char)}
    (h : cut delimiter nesting cs = .ok (piece, pieces))
    : ∀ p ∈ piece :: pieces, p.length ≤ cs.length := by
  induction cs generalizing nesting piece pieces with
  | nil =>
      simp only [cut, bind, Except.bind, pure, Except.pure] at h
      split at h
      · cases h
      · cases h
        simp
  | cons c rest ih =>
      simp only [cut, bind, Except.bind, pure, Except.pure] at h
      split at h
      · split at h
        · cases h
        · next result hr =>
            cases h
            intro p hp
            have hle := ih hr p
            rcases List.mem_cons.mp hp with rfl | hp
            · simp
            · exact Nat.le_succ_of_le (hle hp)
      · split at h
        · cases h
        · split at h
          · cases h
          · next result hr =>
              cases h
              intro p hp
              rcases List.mem_cons.mp hp with rfl | hp
              · exact Nat.succ_le_succ (ih hr _ List.mem_cons_self)
              · exact Nat.le_succ_of_le (ih hr p (List.mem_cons_of_mem _ hp))

/-- No token is longer than the text. -/
theorem length_le_of_splitChars {delimiter : Char} {cs : List Char}
    {tokens : List (List Char)} (h : splitChars delimiter cs = .ok tokens)
    : ∀ token ∈ tokens, token.length ≤ cs.length := by
  simp only [splitChars, throw, throwThe, MonadExceptOf.throw, pure, Except.pure] at h
  split at h
  · cases h
  · split at h
    · cases h
    · next hcut =>
        cases h
        intro token ht
        obtain ⟨piece, hp, rfl⟩ := List.mem_map.mp ht
        exact Nat.le_trans (length_trimChars_le piece) (length_le_of_cut hcut piece hp)

end PixelTree.Descriptor
