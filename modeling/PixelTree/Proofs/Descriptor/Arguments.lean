import PixelTree.Proofs.Descriptor.Grammar

/-! Any text as an argument. Between quotes, with a backslash in front of every backslash and every
quote of the kind that encloses it, a text is one token for every delimiter and is read back as it
was.
-/

namespace PixelTree

namespace Text

/-- Quotes are visible. -/
theorem isBlank_of_isQuote {c : Char} (quotes : isQuote c = true) : isBlank c = false := by
  simp only [isQuote, Bool.or_eq_true, beq_iff_eq] at quotes
  rcases quotes with rfl | rfl
  · decide
  · decide

theorem unescape_cons {c : Char} (unescaped : c ≠ '\\') (rest : List Char)
    : unescape (c :: rest) = c :: unescape rest := by
  rw [unescape]
  · exact fun _ _ backslash _ => unescaped backslash
  · exact fun backslash _ => unescaped backslash

/-- Taking the backslashes away undoes putting them in, by induction over the text. -/
theorem unescape_escape (enclosing : Char) (cs : List Char)
    : unescape (escape enclosing cs) = cs := by
  induction cs with
  | nil => rfl
  | cons c rest ih =>
      by_cases special : c = '\\' ∨ c = enclosing
      · rw [escape, if_pos special, unescape, ih]
      · rw [escape, if_neg special, unescape_cons (not_or.mp special).1, ih]

variable {enclosing : Char}

theorem toList_quote (enclosing : Char) (s : String)
    : (quote enclosing s).toList = enclosing :: (escape enclosing s.toList ++ [enclosing]) := by
  rw [quote, String.toList_ofList, List.cons_append]

/-- A text in quotes is read back as it was. -/
theorem unquote_quote (quotes : isQuote enclosing = true) (s : String)
    : unquote (quote enclosing s) = s := by
  have last : (escape enclosing s.toList ++ [enclosing]).getLast? = some enclosing :=
    List.getLast?_concat ..
  rw [unquote, toList_quote, unquoteChars, if_pos ⟨quotes, last⟩, List.dropLast_concat,
    unescape_escape, String.ofList_toList]

theorem tidy_quote (quotes : isQuote enclosing = true) (s : String)
    : Tidy (quote enclosing s).toList := by
  have ends : Tidy [enclosing] := Tidy.singleton (isBlank_of_isQuote quotes)
  rw [toList_quote]
  exact ends.append _ ends

end Text

namespace Descriptor

open Text

/-- Every quote that could end it has a backslash in front of it, by induction over the text. -/
theorem quotable_escape (enclosing : Char) (cs : List Char)
    : Quotable enclosing (escape enclosing cs) := by
  induction cs with
  | nil => exact .nil
  | cons c rest ih =>
      by_cases special : c = '\\' ∨ c = enclosing
      · rw [escape, if_pos special]
        exact .escaped c ih
      · rw [escape, if_neg special]
        exact .plain (not_or.mp special).2 (not_or.mp special).1 ih

theorem whole_quote {enclosing delimiter : Char} (quotes : isQuote enclosing = true) (s : String)
    : Whole delimiter (quote enclosing s).toList := by
  rw [toList_quote]
  exact (quotable_escape enclosing s.toList).whole quotes

/-- An argument that is written between quotes of either kind, with blanks around it. -/
structure QuotedArgument where
  text : String
  enclosing : Char
  before : String
  after : String
  quotes : enclosing = '\'' ∨ enclosing = '"'
  beforeBlank : isAllBlank before.toList = true
  afterBlank : isAllBlank after.toList = true

namespace QuotedArgument

def display (argument : QuotedArgument) : String :=
  argument.before ++ quote argument.enclosing argument.text ++ argument.after

theorem isQuote_enclosing (argument : QuotedArgument) : isQuote argument.enclosing = true := by
  rcases argument.quotes with same | same
  · rw [same]; rfl
  · rw [same]; rfl

/-- The blanks around the quotes are trimmed away. -/
theorem trim_display (argument : QuotedArgument)
    : trim argument.display = quote argument.enclosing argument.text :=
  trim_between argument.beforeBlank (tidy_quote argument.isQuote_enclosing argument.text)
    argument.afterBlank

/-- A comma inside the quotes does not cut, and there is none around them. -/
theorem whole_display (argument : QuotedArgument) : Whole ',' argument.display.toList := by
  have blanks {cs : List Char} (blank : isAllBlank cs = true) : Whole ',' cs := by
    refine .of_forall (fun c member => ?_)
    have head := List.all_eq_true.mp blank c member
    refine ⟨Nesting.isStructural_of_isBlank head, ?_⟩
    rintro rfl
    exact absurd head (by decide)
  rw [display, String.toList_append, String.toList_append]
  exact ((blanks argument.beforeBlank).append (whole_quote argument.isQuote_enclosing _)).append
    (blanks argument.afterBlank)

theorem not_isAllBlank_display (argument : QuotedArgument)
    : isAllBlank argument.display.toList = false := by
  have visible := (tidy_quote argument.isQuote_enclosing argument.text).not_isAllBlank
  rw [← argument.trim_display, trim, String.toList_ofList, isAllBlank_trimChars] at visible
  exact visible

end QuotedArgument

/-- Arguments in quotes with commas between them are read back as the texts that they were, whatever
these are.
-/
theorem map_unquote_parseList {arguments : List QuotedArgument} (nonempty : arguments ≠ [])
    (context : String)
    : ∃ tokens,
        parseList context (",".intercalate (arguments.map QuotedArgument.display)) = .ok tokens
        ∧ tokens.map unquote = arguments.map QuotedArgument.text := by
  have single : ∀ arg, arguments.map QuotedArgument.display = [arg] →
      isAllBlank arg.toList = false := by
    intro arg only
    obtain ⟨argument, _, rfl⟩ := List.map_eq_singleton_iff.mp only
    exact argument.not_isAllBlank_display
  have whole : ∀ arg ∈ arguments.map QuotedArgument.display, Whole ',' arg.toList :=
    List.forall_mem_map.mpr (fun argument _ => argument.whole_display)
  refine ⟨_, parseList_comma (by simpa using nonempty) single whole, ?_⟩
  rw [List.map_map, List.map_map]
  refine List.map_congr_left (fun argument _ => ?_)
  rw [Function.comp_apply, Function.comp_apply, argument.trim_display,
    unquote_quote argument.isQuote_enclosing]

/-- An empty text, and one of quotes, backslashes, brackets and a comma that ends in a blank. -/
theorem map_unquote_parseList_of_quotes
    : let arguments : List QuotedArgument :=
        [ ⟨"", '\'', "", " \t", by decide, by decide, by decide⟩,
          ⟨"é\\'\"],( ", '"', " ", "", by decide, by decide, by decide⟩ ]
      arguments ≠ []
      ∧ parseList "t" "'' \t, \"é\\\\'\\\"],( \"" = .ok ["''", "\"é\\\\'\\\"],( \""]
      ∧ ["''", "\"é\\\\'\\\"],( \""].map unquote = ["", "é\\'\"],( "] := by
  intro arguments
  have nonempty : arguments ≠ [] := by simp [arguments]
  obtain ⟨tokens, parsed, same⟩ := map_unquote_parseList nonempty "t"
  have written : ",".intercalate (arguments.map QuotedArgument.display)
      = "'' \t, \"é\\\\'\\\"],( \"" := by
    decide
  have read : parseList "t" "'' \t, \"é\\\\'\\\"],( \"" = .ok ["''", "\"é\\\\'\\\"],( \""] := by
    decide
  rw [written, read] at parsed
  obtain rfl := Except.ok.inj parsed
  exact ⟨nonempty, read, same⟩

end Descriptor

end PixelTree
