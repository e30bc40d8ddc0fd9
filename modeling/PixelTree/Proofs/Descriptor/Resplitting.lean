import PixelTree.Proofs.Descriptor.Splitting

/-! Splitting what was split before. What a token keeps inside its groups and quotes stays there,
and no more of it is trimmed, so tokens are split into themselves, alone and in a row. This holds
for every delimiter; a quote or an end of a group never cuts and leaves one token.
-/

namespace PixelTree.Descriptor

open Text

variable {delimiter : Char}

/-- A quote or an end of a group cuts nothing, by induction over the text. -/
theorem pieces_eq_nil_of_isStructural (structural : Nesting.isStructural delimiter = true)
    {nesting : Nesting} {cs piece : List Char} {pieces : List (List Char)}
    (cuts : cut delimiter nesting cs = .ok (piece, pieces))
    : pieces = [] := by
  induction cs generalizing nesting piece with
  | nil =>
      obtain rfl := eq_top_of_cut_nil cuts
      exact (Prod.mk.inj (Except.ok.inj cuts)).2.symm
  | cons c rest ih =>
      have stays : nesting.cutsAt delimiter c = false := by
        cases cutting : nesting.cutsAt delimiter c with
        | false => rfl
        | true =>
            obtain ⟨_, rfl, plain⟩ := Nesting.eq_of_cutsAt cutting
            rw [structural] at plain
            cases plain
      cases step : nesting.step c with
      | error fault =>
          rw [cut_cons_of_error stays step] at cuts
          cases cuts
      | ok next =>
          rw [cut_cons_of_step stays step] at cuts
          obtain ⟨found, tail, same⟩ := exists_of_map_eq_ok cuts
          obtain ⟨_, rfl⟩ := Prod.mk.inj same
          exact ih tail

/-- Trimming the parts of a separated text does not make it blank, by induction over them. -/
theorem isAllBlank_intercalate_trim (separator : String) (pieces : List String)
    : isAllBlank (separator.intercalate (pieces.map trim)).toList
      = isAllBlank (separator.intercalate pieces).toList := by
  have chars : (pieces.map trim).map String.toList = (pieces.map String.toList).map trimChars := by
    simp [trim, Function.comp_def]
  rw [String.toList_intercalate, String.toList_intercalate, chars]
  induction pieces.map String.toList with
  | nil => rfl
  | cons piece rest ih =>
      have head : (trimChars piece).all isBlank = piece.all isBlank := isAllBlank_trimChars piece
      cases rest with
      | nil => simp
      | cons next others =>
          rw [List.map_cons, List.map_cons, List.intercalate_cons_cons, ← List.map_cons,
            List.intercalate_cons_cons]
          simp only [isAllBlank, List.all_append] at ih ⊢
          rw [head, ih]

/-- A token that is not empty is split into itself. -/
theorem IsToken.splitIn_eq {token : String} (separate : IsToken delimiter token)
    (nonempty : token ≠ "") (context : String)
    : splitIn context delimiter token = .ok [token] := by
  have visible : isAllBlank token.toList = false := by
    rcases eq_nil_or_tidy separate.trimmed with empty | tidy
    · exact absurd (String.toList_eq_nil_iff.mp empty) nonempty
    · exact tidy.not_isAllBlank
  rw [splitIn_eq_ok visible, separate.whole.tokens_eq, separate.trimmed]
  exact ⟨_, rfl, by simp⟩

/-- The tokens of a text are split into themselves: each of them that is not empty alone, and all of
them in a row with the bare delimiter between them.
-/
theorem splitIn_splits_again {context input : String} {tokens : List String}
    (split : splitIn context delimiter input = .ok tokens) (again : String)
    : (∀ token ∈ tokens, token ≠ "" → splitIn again delimiter token = .ok [token])
      ∧ splitIn again delimiter ((String.singleton delimiter).intercalate tokens)
        = .ok tokens := by
  have separate := isToken_of_splitIn split
  refine ⟨fun token member nonempty => (separate token member).splitIn_eq nonempty again, ?_⟩
  cases structural : Nesting.isStructural delimiter with
  | true =>
      obtain ⟨piece, pieces, _, cuts, rfl⟩ := exists_pieces_of_splitIn split
      obtain rfl := pieces_eq_nil_of_isStructural structural cuts
      have nonempty : String.ofList (trimChars piece) ≠ "" := by
        intro empty
        exact ne_blank_of_splitIn split (by rw [List.map_singleton, empty])
      rw [List.map_singleton, String.intercalate_singleton]
      exact (separate _ (by simp)).splitIn_eq nonempty again
  | false =>
      obtain ⟨visible, pieces, rfl, _, rfl⟩ := (splitIn_eq_ok_iff structural).mp split
      refine (splitIn_eq_ok_iff structural).mpr ⟨?_, pieces.map trim, rfl, ?_, ?_⟩
      · rwa [isAllBlank_intercalate_trim]
      · exact fun token member => nested_singleton.mpr (separate token member).whole
      · exact (map_trim_of_isToken separate).symm

/-- A backslash and a blank are delimiters like any other. -/
theorem splitIn_splits_again_of_backslash
    : splitIn "t" '\\' " a '\\\\ ' \\ (\\ ) \\" = .ok ["a '\\\\ '", "(\\ )", ""]
      ∧ splitIn "u" '\\' "(\\ )" = .ok ["(\\ )"]
      ∧ splitIn "u" '\\' "a '\\\\ '\\(\\ )\\" = .ok ["a '\\\\ '", "(\\ )", ""] := by
  have found : splitIn "t" '\\' " a '\\\\ ' \\ (\\ ) \\" = .ok ["a '\\\\ '", "(\\ )", ""] := by
    decide
  obtain ⟨alone, row⟩ := splitIn_splits_again found "u"
  exact ⟨found, alone "(\\ )" (by decide) (by decide), row⟩

end PixelTree.Descriptor
