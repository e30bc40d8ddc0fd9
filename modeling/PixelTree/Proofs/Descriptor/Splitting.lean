import PixelTree.Proofs.Descriptor.Grammar

/-! What a text leaves open, and which fault is found in it.
A text that cannot be split has a first end of a group that is out of place, or else leaves a quote
or a group open at its end; which of these it is does not depend on the delimiter.
-/

namespace PixelTree.Descriptor

open Text

/-- What is open behind a text: nothing behind a nested one, and each group and quote from its start
on, with a nested text inside the group or something that does not end the quote inside the quote.
-/
inductive Leaves : Nesting → List Char → Prop where
  | nested {cs : List Char} (nested : Nested [] cs) : Leaves ⟨[], .plain⟩ cs
  | group {outer : List Group} {front inside : List Char} {left : Char} {kind : Group}
      (behind : Leaves ⟨outer, .plain⟩ front) (opening : Group.opening? left = some kind)
      (nested : Nested [] inside)
      : Leaves ⟨kind :: outer, .plain⟩ (front ++ left :: inside)
  | quoted {opened : List Group} {front inside : List Char} {quote : Char}
      (behind : Leaves ⟨opened, .plain⟩ front) (quotes : isQuote quote = true)
      (quotable : Quotable quote inside)
      : Leaves ⟨opened, .quoted quote⟩ (front ++ quote :: inside)
  | escaped {opened : List Group} {front inside : List Char} {quote : Char}
      (behind : Leaves ⟨opened, .plain⟩ front) (quotes : isQuote quote = true)
      (quotable : Quotable quote inside)
      : Leaves ⟨opened, .escaped quote⟩ (front ++ quote :: (inside ++ ['\\']))

/-- The end of a group is out of place behind a text that leaves nothing open, or whose innermost
open group is of the other kind.
-/
inductive Misplaced : List Char → Char → Imbalance → Prop where
  | nothingOpen {front : List Char} {right : Char} {closing : Group}
      (behind : Leaves ⟨[], .plain⟩ front) (closes : Group.closing? right = some closing)
      : Misplaced front right (.nothingOpen closing)
  | mismatch {front : List Char} {right : Char} {innermost closing : Group} {outer : List Group}
      (behind : Leaves ⟨innermost :: outer, .plain⟩ front)
      (closes : Group.closing? right = some closing) (other : innermost ≠ closing)
      : Misplaced front right (.mismatch innermost closing)

/-- No end of a group in the text is out of place. -/
def WellPlaced (cs : List Char) : Prop :=
  ∀ front right fault, front ++ [right] <+: cs → ¬Misplaced front right fault

/-- The text ends inside a quote. -/
def EndsInQuote (cs : List Char) : Prop :=
  ∃ opened quote, Leaves ⟨opened, .quoted quote⟩ cs ∨ Leaves ⟨opened, .escaped quote⟩ cs

/-- The fault of a text: its leftmost end of a group that is out of place; if there is none, the
quote that it ends in; and if it ends in none, the innermost group that it leaves open.
-/
inductive Faulty : List Char → Imbalance → Prop where
  | misplaced {front : List Char} {right : Char} {fault : Imbalance} (back : List Char)
      (misplaced : Misplaced front right fault) (leftmost : WellPlaced front)
      : Faulty (front ++ right :: back) fault
  | openQuote {cs : List Char} (placed : WellPlaced cs) (ends : EndsInQuote cs)
      : Faulty cs .openQuote
  | unclosed {cs : List Char} {innermost : Group} {outer : List Group} (placed : WellPlaced cs)
      (closed : ¬EndsInQuote cs) (behind : Leaves ⟨innermost :: outer, .plain⟩ cs)
      : Faulty cs (.unclosed innermost)

-----------------------------------------------------------------------------------------
-- What is open behind a text
-----------------------------------------------------------------------------------------

theorem Nested.append {separators front back : List Char} (hf : Nested separators front)
    (hb : Nested separators back)
    : Nested separators (front ++ back) := by
  obtain ⟨frontBalanced, frontWhole⟩ := nested_iff.mp hf
  obtain ⟨backBalanced, backWhole⟩ := nested_iff.mp hb
  exact nested_iff.mpr ⟨frontBalanced.append backBalanced,
    fun delimiter member => (frontWhole delimiter member).append (backWhole delimiter member)⟩

theorem Quotable.append {quote : Char} {front back : List Char} (hf : Quotable quote front)
    (hb : Quotable quote back)
    : Quotable quote (front ++ back) := by
  induction hf with
  | nil => exact hb
  | plain other unescaped _ ih => exact .plain other unescaped ih
  | escaped c _ ih => exact .escaped c ih

/-- A nested text leaves open what is open in front of it. -/
theorem Leaves.append {opened : List Group} {front back : List Char}
    (behind : Leaves ⟨opened, .plain⟩ front) (nested : Nested [] back)
    : Leaves ⟨opened, .plain⟩ (front ++ back) := by
  cases behind with
  | nested front => exact .nested (front.append nested)
  | group outer opening inside =>
      rw [List.append_assoc, List.cons_append]
      exact .group outer opening (inside.append nested)

/-- One more character that is read outside of quotes, by what the character is. -/
theorem Leaves.step_plain {opened : List Group} {next : Nesting} {cs : List Char} {c : Char}
    (behind : Leaves ⟨opened, .plain⟩ cs) (step : Nesting.step ⟨opened, .plain⟩ c = .ok next)
    : Leaves next (cs ++ [c]) := by
  rcases Nesting.character_cases c with plain | quotes | ⟨kind, opening⟩ | ⟨kind, closing⟩
  · rw [Nesting.step_of_not_isStructural plain] at step
    obtain rfl := Except.ok.inj step
    exact behind.append (.plain plain (by simp) .nil)
  · rw [Nesting.step_of_isQuote quotes] at step
    obtain rfl := Except.ok.inj step
    exact .quoted behind quotes .nil
  · rw [Nesting.step_of_opening opening] at step
    obtain rfl := Except.ok.inj step
    exact .group behind opening .nil
  · rw [Nesting.step_of_closing closing] at step
    obtain ⟨outer, rfl, rfl⟩ := Nesting.close_eq_ok.mp step
    cases behind with
    | group front opening nested =>
        rw [List.append_assoc, List.cons_append]
        exact front.append (.group opening closing nested .nil)

/-- One more character, by how it is read. -/
theorem Leaves.step {nesting next : Nesting} {cs : List Char} {c : Char}
    (behind : Leaves nesting cs) (step : nesting.step c = .ok next)
    : Leaves next (cs ++ [c]) := by
  cases behind with
  | nested nested => exact (Leaves.nested nested).step_plain step
  | group outer opening nested => exact (Leaves.group outer opening nested).step_plain step
  | @quoted opened front inside quote behind quotes quotable =>
      rw [List.append_assoc, List.cons_append]
      by_cases backslash : c = '\\'
      · subst backslash
        obtain rfl := Except.ok.inj step
        exact .escaped behind quotes quotable
      · by_cases ending : c = quote
        · subst ending
          rw [Nesting.step_end backslash] at step
          obtain rfl := Except.ok.inj step
          exact behind.append (.quoted quotes quotable .nil)
        · rw [Nesting.step_inside ending backslash] at step
          obtain rfl := Except.ok.inj step
          exact .quoted behind quotes (quotable.append (.plain ending backslash .nil))
  | @escaped opened front inside quote behind quotes quotable =>
      obtain rfl := Except.ok.inj step
      rw [List.append_assoc, List.cons_append, List.append_assoc]
      exact .quoted behind quotes (quotable.append (.escaped c .nil))

/-- What is open further out stays open. -/
theorem Nesting.run_frame {opened opened' : List Group} {mode mode' : Mode} {cs : List Char}
    (run : Nesting.run ⟨opened, mode⟩ cs = .ok ⟨opened', mode'⟩) (outer : List Group)
    : Nesting.run ⟨opened ++ outer, mode⟩ cs = .ok ⟨opened' ++ outer, mode'⟩ := by
  induction cs generalizing opened mode with
  | nil =>
      obtain ⟨rfl, rfl⟩ := Nesting.mk.inj (Except.ok.inj run)
      rfl
  | cons c rest ih =>
      obtain ⟨next, step, tail⟩ := Nesting.exists_step_of_run run
      rw [Nesting.run_cons_of_step (Nesting.step_frame step outer)]
      exact ih tail

theorem Nested.run_eq {cs : List Char} (nested : Nested [] cs) (opened : List Group)
    : Nesting.run ⟨opened, .plain⟩ cs = .ok ⟨opened, .plain⟩ :=
  Nesting.run_frame nested.balanced opened

/-- The inside of a quote does not end it, by induction over the inside. -/
theorem Quotable.run_eq {quote : Char} {inside : List Char} (quotable : Quotable quote inside)
    (opened : List Group)
    : Nesting.run ⟨opened, .quoted quote⟩ inside = .ok ⟨opened, .quoted quote⟩ := by
  induction quotable with
  | nil => rfl
  | @plain c cs other unescaped _ ih =>
      rw [Nesting.run_cons_of_step (Nesting.step_inside other unescaped opened)]
      exact ih
  | escaped c _ ih => exact ih

/-- The reader of one character at a time keeps track of what is open behind a text: forward by
induction over the text from its end, backward over what is open.
-/
theorem leaves_iff {nesting : Nesting} {cs : List Char}
    : Leaves nesting cs ↔ Nesting.run .top cs = .ok nesting := by
  constructor
  · intro behind
    induction behind with
    | nested nested => exact nested.balanced
    | @group outer front inside left kind _ opening nested ih =>
        rw [Nesting.run_append, ih, Except.bind,
          Nesting.run_cons_of_step (Nesting.step_of_opening opening outer), nested.run_eq]
    | @quoted opened front inside quote _ quotes quotable ih =>
        rw [Nesting.run_append, ih, Except.bind,
          Nesting.run_cons_of_step (Nesting.step_of_isQuote quotes opened), quotable.run_eq]
    | @escaped opened front inside quote _ quotes quotable ih =>
        rw [Nesting.run_append, ih, Except.bind,
          Nesting.run_cons_of_step (Nesting.step_of_isQuote quotes opened), Nesting.run_append,
          quotable.run_eq]
        rfl
  · intro run
    induction cs using List.reverseRecOn generalizing nesting with
    | nil =>
        obtain rfl := Except.ok.inj run
        exact .nested .nil
    | append_singleton cs c ih =>
        rw [Nesting.run_concat] at run
        cases front : Nesting.run .top cs with
        | error fault =>
            rw [front] at run
            cases run
        | ok last =>
            rw [front] at run
            exact (ih front).step run

/-- A text leaves one thing open. -/
theorem Leaves.unique {nesting nesting' : Nesting} {cs : List Char} (behind : Leaves nesting cs)
    (behind' : Leaves nesting' cs)
    : nesting = nesting' :=
  Except.ok.inj ((leaves_iff.mp behind).symm.trans (leaves_iff.mp behind'))

-----------------------------------------------------------------------------------------
-- Where the reader stops
-----------------------------------------------------------------------------------------

/-- Only the end of a group can stop the reader. -/
theorem misplaced_iff {front : List Char} {right : Char} {fault : Imbalance}
    : Misplaced front right fault
      ↔ ∃ nesting, Nesting.run .top front = .ok nesting ∧ nesting.step right = .error fault := by
  constructor
  · intro misplaced
    cases misplaced with
    | nothingOpen behind closes =>
        refine ⟨_, leaves_iff.mp behind, ?_⟩
        rw [Nesting.step_of_closing closes, Nesting.close_eq_error]
        exact Or.inl ⟨rfl, rfl⟩
    | mismatch behind closes other =>
        refine ⟨_, leaves_iff.mp behind, ?_⟩
        rw [Nesting.step_of_closing closes, Nesting.close_eq_error]
        exact Or.inr ⟨_, _, rfl, other, rfl⟩
  · rintro ⟨⟨opened, mode⟩, run, step⟩
    have behind := leaves_iff.mpr run
    cases mode with
    | escaped quote => cases step
    | quoted quote =>
        simp only [Nesting.step] at step
        split at step
        · cases step
        · split at step <;> cases step
    | plain =>
        rcases Nesting.character_cases right with plain | quotes | ⟨kind, opening⟩ | ⟨kind, closing⟩
        · rw [Nesting.step_of_not_isStructural plain] at step
          cases step
        · rw [Nesting.step_of_isQuote quotes] at step
          cases step
        · rw [Nesting.step_of_opening opening] at step
          cases step
        · rw [Nesting.step_of_closing closing] at step
          rcases Nesting.close_eq_error.mp step with
            ⟨rfl, rfl⟩ | ⟨innermost, outer, rfl, other, rfl⟩
          · exact .nothingOpen behind closing
          · exact .mismatch behind closing other

theorem Misplaced.run_eq {front : List Char} {right : Char} {fault : Imbalance}
    (misplaced : Misplaced front right fault) (back : List Char)
    : Nesting.run .top (front ++ right :: back) = .error fault := by
  obtain ⟨nesting, run, step⟩ := misplaced_iff.mp misplaced
  rw [Nesting.run_append, run, Except.bind, Nesting.run_cons_of_error step]

/-- The reader reaches the end of a text in which every end of a group is in place. -/
theorem wellPlaced_of_run {nesting : Nesting} {cs : List Char}
    (run : Nesting.run .top cs = .ok nesting)
    : WellPlaced cs := by
  rintro front right fault ⟨back, rfl⟩ misplaced
  rw [List.append_assoc, List.singleton_append, misplaced.run_eq] at run
  cases run

/-- The reader stops at the first end of a group that is out of place, by induction over the text
from its end.
-/
theorem exists_misplaced_of_run {cs : List Char} {fault : Imbalance}
    (run : Nesting.run .top cs = .error fault)
    : ∃ front right back,
        cs = front ++ right :: back ∧ Misplaced front right fault ∧ WellPlaced front := by
  induction cs using List.reverseRecOn with
  | nil => cases run
  | append_singleton cs c ih =>
      rw [Nesting.run_concat] at run
      cases whole : Nesting.run .top cs with
      | error earlier =>
          rw [whole] at run
          obtain rfl := Except.error.inj run
          obtain ⟨front, right, back, rfl, misplaced, leftmost⟩ := ih whole
          exact ⟨front, right, back ++ [c], by simp, misplaced, leftmost⟩
      | ok last =>
          rw [whole] at run
          exact ⟨cs, c, [], rfl, misplaced_iff.mpr ⟨last, whole, run⟩, wellPlaced_of_run whole⟩

/-- A text has a fault exactly if the reader stops in it or may not stop at its end. -/
theorem faulty_iff {cs : List Char} {fault : Imbalance}
    : Faulty cs fault ↔ (Nesting.run .top cs).bind Nesting.finish = .error fault := by
  constructor
  · intro faulty
    cases faulty with
    | misplaced back misplaced leftmost => rw [misplaced.run_eq]; rfl
    | openQuote placed ends =>
        obtain ⟨opened, quote, behind | behind⟩ := ends
        · rw [leaves_iff.mp behind]
          rfl
        · rw [leaves_iff.mp behind]
          rfl
    | unclosed placed closed behind => rw [leaves_iff.mp behind]; rfl
  · intro stops
    cases run : Nesting.run .top cs with
    | error earlier =>
        rw [run] at stops
        obtain rfl := Except.error.inj stops
        obtain ⟨front, right, back, rfl, misplaced, leftmost⟩ := exists_misplaced_of_run run
        exact .misplaced back misplaced leftmost
    | ok nesting =>
        have placed := wellPlaced_of_run run
        rw [run] at stops
        obtain ⟨opened, mode⟩ := nesting
        cases mode with
        | quoted quote =>
            obtain rfl := Except.error.inj stops
            exact .openQuote placed ⟨opened, quote, Or.inl (leaves_iff.mpr run)⟩
        | escaped quote =>
            obtain rfl := Except.error.inj stops
            exact .openQuote placed ⟨opened, quote, Or.inr (leaves_iff.mpr run)⟩
        | plain =>
            cases opened with
            | nil => cases stops
            | cons innermost outer =>
                obtain rfl := Except.error.inj stops
                have behind := leaves_iff.mpr run
                refine .unclosed placed ?_ behind
                rintro ⟨opened, quote, other | other⟩
                · cases behind.unique other
                · cases behind.unique other

-----------------------------------------------------------------------------------------
-- Splitting
-----------------------------------------------------------------------------------------

/-- Where a text is cut does not decide whether it can be, by induction over the text. -/
theorem map_cut_eq_run (delimiter : Char) (nesting : Nesting) (cs : List Char)
    : (cut delimiter nesting cs).map (fun _ => ()) = (nesting.run cs).bind Nesting.finish := by
  induction cs generalizing nesting with
  | nil =>
      change (cut delimiter nesting []).map _ = nesting.finish
      rw [cut]
      cases nesting.finish <;> rfl
  | cons c rest ih =>
      cases stays : nesting.cutsAt delimiter c with
      | true =>
          have plain : nesting.step c = .ok nesting := by
            obtain ⟨rfl, _, structural⟩ := Nesting.eq_of_cutsAt stays
            exact Nesting.step_of_not_isStructural structural []
          rw [Nesting.run_cons_of_step plain, ← ih, cut_cons_of_cutsAt stays]
          cases cut delimiter nesting rest <;> rfl
      | false =>
          cases step : nesting.step c with
          | error fault =>
              rw [cut_cons_of_error stays step, Nesting.run_cons_of_error step]
              rfl
          | ok next =>
              rw [Nesting.run_cons_of_step step, ← ih, cut_cons_of_step stays step]
              cases cut delimiter next rest <;> rfl

theorem cut_eq_error (delimiter : Char) {cs : List Char} {fault : Imbalance}
    : cut delimiter .top cs = .error fault ↔ Faulty cs fault := by
  rw [faulty_iff, ← map_cut_eq_run delimiter]
  cases cut delimiter .top cs with
  | error found => simp [Except.map]
  | ok pieces => simp [Except.map]

theorem exists_cut_iff (delimiter : Char) {cs : List Char}
    : (∃ pieces, cut delimiter .top cs = .ok pieces) ↔ Nested [] cs := by
  have verdict := map_cut_eq_run delimiter .top cs
  constructor
  · rintro ⟨pieces, cuts⟩
    rw [cuts] at verdict
    cases run : Nesting.run .top cs with
    | error fault =>
        rw [run] at verdict
        cases verdict
    | ok last =>
        rw [run] at verdict
        have balanced : Balanced cs := by
          rw [Balanced, run, Nesting.eq_top_of_finish verdict.symm]
        exact nested_iff.mpr ⟨balanced, by simp⟩
  · intro nested
    have run : Nesting.run .top cs = .ok .top := nested.balanced
    rw [run] at verdict
    cases cuts : cut delimiter .top cs with
    | error fault =>
        rw [cuts] at verdict
        cases verdict
    | ok pieces => exact ⟨pieces, rfl⟩

theorem isAllBlank_eq_false_iff {cs : List Char}
    : isAllBlank cs = false ↔ ∃ c ∈ cs, isBlank c = false := by
  rw [isAllBlank, List.all_eq_false]
  simp only [Bool.not_eq_true]

theorem Nesting.isStructural_of_notMem {c : Char} (other : c ∉ ['(', ')', '[', ']', '\'', '"'])
    : isStructural c = false := by
  simp only [List.mem_cons, List.not_mem_nil, or_false, not_or] at other
  simp only [isStructural, isQuote, Group.opening?, Group.closing?]
  simp [other]

theorem exists_splitIn_iff {context input : String} {delimiter : Char}
    : (∃ tokens, splitIn context delimiter input = .ok tokens)
      ↔ isAllBlank input.toList = false ∧ Nested [] input.toList := by
  constructor
  · rintro ⟨tokens, split⟩
    obtain ⟨piece, pieces, visible, cuts, _⟩ := exists_pieces_of_splitIn split
    exact ⟨visible, (exists_cut_iff delimiter).mp ⟨_, cuts⟩⟩
  · rintro ⟨visible, nested⟩
    obtain ⟨pieces, cuts⟩ := (exists_cut_iff delimiter).mpr nested
    have found : tokens delimiter input.toList
        = .ok ((pieces.1 :: pieces.2).map trimChars) := by
      rw [tokens, cuts]
      rfl
    exact ⟨_, (splitIn_eq_ok visible).mpr ⟨_, found, rfl⟩⟩

/-- A text is split exactly at the delimiters that stand outside of its groups and quotes. -/
theorem splitIn_eq_ok_iff {context input : String} {delimiter : Char} {tokens : List String}
    (plain : Nesting.isStructural delimiter = false)
    : splitIn context delimiter input = .ok tokens
      ↔ isAllBlank input.toList = false
        ∧ ∃ pieces,
          input = (String.singleton delimiter).intercalate pieces
          ∧ (∀ piece ∈ pieces, Nested [delimiter] piece.toList)
          ∧ tokens = pieces.map trim := by
  constructor
  · intro split
    obtain ⟨piece, pieces, visible, cuts, rfl⟩ := exists_pieces_of_splitIn split
    obtain ⟨text, whole⟩ := (cut_eq_ok plain).mp cuts
    refine ⟨visible, (piece :: pieces).map String.ofList, ?_, ?_, ?_⟩
    · rw [← String.toList_inj, String.toList_intercalate, text, String.toList_singleton]
      simp [Function.comp_def]
    · rw [List.forall_mem_map]
      intro p member
      rw [String.toList_ofList]
      exact nested_singleton.mpr (whole p member)
    · simp [trim, Function.comp_def]
  · rintro ⟨visible, pieces, rfl, nested, rfl⟩
    cases pieces with
    | nil => cases visible
    | cons piece others =>
        have cuts : cut delimiter .top
            ((String.singleton delimiter).intercalate (piece :: others)).toList
              = .ok (piece.toList, others.map String.toList) := by
          rw [cut_eq_ok plain, String.toList_intercalate, String.toList_singleton,
            ← List.map_cons, List.forall_mem_map]
          exact ⟨rfl, fun p member => nested_singleton.mp (nested p member)⟩
        rw [splitIn_eq_ok visible, tokens, cuts]
        exact ⟨_, rfl, by simp [trim, Function.comp_def]⟩

/-- A text that is not blank is refused with the fault in it. -/
theorem splitIn_eq_error_iff {context input : String} {delimiter : Char} {error : ParseError}
    : splitIn context delimiter input = .error error
      ↔ (isAllBlank input.toList = true ∧ error = .emptyList context)
        ∨ (isAllBlank input.toList = false
          ∧ ∃ fault,
            Faulty input.toList fault ∧ error = .malformed context (.unbalanced fault)) := by
  cases visible : isAllBlank input.toList with
  | true =>
      rw [splitIn, split, splitChars, if_pos visible]
      simp [throw, throwThe, MonadExceptOf.throw, Except.map, Except.mapError, ParseError.ofSplit,
        eq_comm]
  | false =>
      rw [splitIn, split, splitChars_eq_tokens visible, tokens]
      simp only [← cut_eq_error delimiter]
      cases cut delimiter .top input.toList with
      | error fault => simp [Except.map, Except.mapError, ParseError.ofSplit, eq_comm]
      | ok pieces => simp [Except.map, Except.mapError]

/-- Splitting accepts the nested texts that are not blank, cuts them at the delimiters outside of
their groups and quotes, and trims the pieces. Of any other text it tells the fault.
-/
theorem splitIn_decided {delimiter : Char} (plain : delimiter ∉ ['(', ')', '[', ']', '\'', '"'])
    (context input : String)
    : ((∃ tokens, splitIn context delimiter input = .ok tokens)
        ↔ (∃ c ∈ input.toList, isBlank c = false) ∧ Nested [] input.toList)
      ∧ (∀ tokens,
        splitIn context delimiter input = .ok tokens
        ↔ (∃ c ∈ input.toList, isBlank c = false)
          ∧ ∃ pieces,
            input = (String.singleton delimiter).intercalate pieces
            ∧ (∀ piece ∈ pieces, Nested [delimiter] piece.toList)
            ∧ tokens = pieces.map trim)
      ∧ (∀ error,
        splitIn context delimiter input = .error error
        ↔ (¬(∃ c ∈ input.toList, isBlank c = false) ∧ error = .emptyList context)
          ∨ ((∃ c ∈ input.toList, isBlank c = false)
            ∧ ∃ fault,
              Faulty input.toList fault ∧ error = .malformed context (.unbalanced fault)))
      ∧ (∀ closing,
        (Imbalance.nothingOpen closing).message = "too many right " ++ closing.plural)
      ∧ (∀ innermost closing,
        (Imbalance.mismatch innermost closing).message
          = "left " ++ innermost.singular ++ " closed by right " ++ closing.singular)
      ∧ Imbalance.openQuote.message = "missing closing quote"
      ∧ ∀ innermost,
        (Imbalance.unclosed innermost).message = "missing right " ++ innermost.singular := by
  have structural := Nesting.isStructural_of_notMem plain
  simp only [← isAllBlank_eq_false_iff, Bool.not_eq_false]
  exact ⟨exists_splitIn_iff, fun tokens => splitIn_eq_ok_iff structural,
    fun error => splitIn_eq_error_iff, fun closing => rfl, fun innermost closing => rfl, rfl,
    fun innermost => rfl⟩

/-- A quote with brackets and an escaped end in it, and delimiters in a group and outside of it; and
a bracket that closes a parenthesis, in front of an open quote.
-/
theorem splitIn_decided_of_mismatch
    : ',' ∉ ['(', ')', '[', ']', '\'', '"']
      ∧ splitIn "t" ',' " 'a)\\'', (b,c) ,," = .ok ["'a)\\''", "(b,c)", "", ""]
      ∧ Faulty "a,(b],'".toList (.mismatch .paren .bracket)
      ∧ splitIn "t" ',' "a,(b],'"
        = .error (.malformed "t" (.unbalanced (.mismatch .paren .bracket))) := by
  have plain : ',' ∉ ['(', ')', '[', ']', '\'', '"'] := by decide
  have row : splitIn "t" ',' " 'a)\\'', (b,c) ,," = .ok ["'a)\\''", "(b,c)", "", ""] := by
    refine ((splitIn_decided plain "t" _).2.1 _).mpr ⟨⟨'b', by decide, by decide⟩,
      [" 'a)\\''", " (b,c) ", "", ""], by decide, ?_, by decide⟩
    decide
  have inside : Nested [] ['b'] := by decide
  have front : Leaves ⟨[], .plain⟩ "a,".toList := .nested (by decide)
  have behind : Leaves ⟨[.paren], .plain⟩ "a,(b".toList := .group front rfl inside
  have fault : Faulty "a,(b],'".toList (.mismatch .paren .bracket) :=
    .misplaced ",'".toList (.mismatch behind rfl (by decide))
      (wellPlaced_of_run (leaves_iff.mp behind))
  refine ⟨plain, row, fault, ?_⟩
  exact ((splitIn_decided plain "t" _).2.2.1 _).mpr
    (Or.inr ⟨⟨'a', by decide, by decide⟩, _, fault, rfl⟩)

end PixelTree.Descriptor
