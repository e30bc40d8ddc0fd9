import PixelTree.Descriptor.Split
import PixelTree.Proofs.Text.Trimming

/-! The pieces of a text whose parts a delimiter leaves whole.
A text in groups of its own is whole for every delimiter, so what is written inside brackets is
read back by the next level of splitting and by no other.
-/

namespace PixelTree.Descriptor

open Text

/-- The nesting after a text. -/
def Nesting.run (nesting : Nesting) (cs : List Char) : Except Imbalance Nesting :=
  cs.foldlM Nesting.step nesting

/-- Every group and every quote of the text is closed in it. -/
def Balanced (cs : List Char) : Prop :=
  Nesting.run .top cs = .ok .top

/-- A balanced text that the delimiter does not cut. -/
def Whole (delimiter : Char) (cs : List Char) : Prop :=
  cut delimiter .top cs = .ok (cs, [])

/-- The trimmed pieces of a text, which may be blank. -/
def tokens (delimiter : Char) (cs : List Char) : Except Imbalance (List (List Char)) :=
  (cut delimiter .top cs).map (fun pieces => (pieces.1 :: pieces.2).map trimChars)

-----------------------------------------------------------------------------------------
-- One character
-----------------------------------------------------------------------------------------

theorem cut_cons_of_cutsAt {delimiter c : Char} {nesting : Nesting}
    (cuts : nesting.cutsAt delimiter c = true) (rest : List Char)
    : cut delimiter nesting (c :: rest)
      = (cut delimiter nesting rest).map (fun pieces => ([], pieces.1 :: pieces.2)) := by
  rw [cut, if_pos cuts]
  cases cut delimiter nesting rest <;> rfl

theorem cut_cons_of_step {delimiter c : Char} {nesting next : Nesting}
    (stays : nesting.cutsAt delimiter c = false) (step : nesting.step c = .ok next)
    (rest : List Char)
    : cut delimiter nesting (c :: rest)
      = (cut delimiter next rest).map (fun pieces => (c :: pieces.1, pieces.2)) := by
  rw [cut, if_neg (by simp [stays]), step]
  change (cut delimiter next rest).bind _ = _
  cases cut delimiter next rest <;> rfl

/-- A character that ends no piece and is a fault is a fault of the whole text. -/
theorem cut_cons_of_error {delimiter c : Char} {nesting : Nesting} {fault : Imbalance}
    (stays : nesting.cutsAt delimiter c = false) (step : nesting.step c = .error fault)
    (rest : List Char)
    : cut delimiter nesting (c :: rest) = .error fault := by
  rw [cut, if_neg (by simp [stays]), step]
  rfl

/-- A text ends only where nothing is open, by cases on what may be open. -/
theorem Nesting.eq_top_of_finish {nesting : Nesting} (ends : nesting.finish = .ok ())
    : nesting = .top := by
  obtain ⟨opened, mode⟩ := nesting
  cases mode with
  | plain =>
      cases opened with
      | nil => rfl
      | cons innermost outer => cases ends
  | quoted quote => cases ends
  | escaped quote => cases ends

/-- A character that is no part of a quote or a group leaves the outside of quotes as it is. -/
theorem Nesting.step_of_not_isStructural {c : Char} (plain : isStructural c = false)
    (opened : List Group)
    : Nesting.step ⟨opened, .plain⟩ c = .ok ⟨opened, .plain⟩ := by
  simp only [isStructural, Bool.or_eq_false_iff, Option.isSome_eq_false_iff,
    Option.isNone_iff_eq_none] at plain
  obtain ⟨⟨quote, opening⟩, closing⟩ := plain
  simp [step, quote, opening, closing, pure, Except.pure]

/-- A character that cuts is the delimiter, where nothing is open. -/
theorem Nesting.eq_of_cutsAt {nesting : Nesting} {delimiter c : Char}
    (cuts : nesting.cutsAt delimiter c = true)
    : nesting = .top ∧ c = delimiter ∧ isStructural c = false := by
  simpa [cutsAt, and_assoc] using cuts

theorem Nesting.cutsAt_of_isStructural {c : Char} (structural : isStructural c = true)
    (delimiter : Char) (nesting : Nesting)
    : nesting.cutsAt delimiter c = false := by
  simp [cutsAt, structural]

/-- A blank is no part of a quote or a group, since these are visible. -/
theorem Nesting.isStructural_of_isBlank {c : Char} (blank : isBlank c = true)
    : isStructural c = false := by
  have visible : ['\'', '"', '(', ')', '[', ']'].any isBlank = false := by decide
  cases structural : isStructural c with
  | false => rfl
  | true =>
      have member : c ∈ ['\'', '"', '(', ')', '[', ']'] := by
        simp only [isStructural, isQuote, Group.opening?, Group.closing?, Bool.or_eq_true]
          at structural
        rcases structural with (quote | opening) | closing
        · rcases quote with single | double
          · simp [beq_iff_eq.mp single]
          · simp [beq_iff_eq.mp double]
        · split at opening <;> simp_all
        · split at closing <;> simp_all
      exact absurd blank (List.any_eq_false.mp visible c member)

-----------------------------------------------------------------------------------------
-- One character after the other
-----------------------------------------------------------------------------------------

theorem Nesting.run_cons_of_step {nesting next : Nesting} {c : Char}
    (step : nesting.step c = .ok next) (rest : List Char)
    : nesting.run (c :: rest) = next.run rest := by
  rw [run, List.foldlM_cons, step]
  rfl

theorem Nesting.run_cons_of_error {nesting : Nesting} {c : Char} {fault : Imbalance}
    (step : nesting.step c = .error fault) (rest : List Char)
    : nesting.run (c :: rest) = .error fault := by
  rw [run, List.foldlM_cons, step]
  rfl

/-- A text is read to its end by way of its first character. -/
theorem Nesting.exists_step_of_run {nesting last : Nesting} {c : Char} {rest : List Char}
    (run : nesting.run (c :: rest) = .ok last)
    : ∃ next, nesting.step c = .ok next ∧ next.run rest = .ok last := by
  cases step : nesting.step c with
  | error fault =>
      rw [run_cons_of_error step] at run
      cases run
  | ok next => exact ⟨next, rfl, by rwa [run_cons_of_step step] at run⟩

theorem Nesting.run_append (nesting : Nesting) (front back : List Char)
    : nesting.run (front ++ back) = (nesting.run front).bind (fun next => next.run back) :=
  List.foldlM_append

theorem Nesting.run_concat (nesting : Nesting) (cs : List Char) (c : Char)
    : nesting.run (cs ++ [c]) = (nesting.run cs).bind (fun last => last.step c) := by
  have single (last : Nesting) : last.run [c] = last.step c := bind_pure _
  rw [run_append, funext single]

-----------------------------------------------------------------------------------------
-- Texts that are not cut
-----------------------------------------------------------------------------------------

/-- Nothing is cut off an empty text, and nothing may be open at its end. -/
theorem eq_top_of_cut_nil {delimiter : Char} {nesting : Nesting}
    {pieces : List Char × List (List Char)} (cuts : cut delimiter nesting [] = .ok pieces)
    : nesting = .top := by
  cases ends : nesting.finish with
  | ok done => exact Nesting.eq_top_of_finish ends
  | error fault => simp [cut, ends, bind, Except.bind] at cuts

/-- In a text that is not cut the first character is read without a cut and without a fault,
and the rest is not cut either.
-/
theorem cut_cons_inv {delimiter c : Char} {nesting : Nesting} {rest : List Char}
    (uncut : cut delimiter nesting (c :: rest) = .ok (c :: rest, []))
    : ∃ next,
        nesting.cutsAt delimiter c = false
        ∧ nesting.step c = .ok next
        ∧ cut delimiter next rest = .ok (rest, []) := by
  cases stays : nesting.cutsAt delimiter c with
  | true =>
      rw [cut_cons_of_cutsAt stays] at uncut
      cases result : cut delimiter nesting rest <;> simp [result, Except.map] at uncut
  | false =>
      cases step : nesting.step c with
      | error fault =>
          rw [cut_cons_of_error stays step] at uncut
          cases uncut
      | ok next =>
          rw [cut_cons_of_step stays step] at uncut
          refine ⟨next, rfl, rfl, ?_⟩
          cases result : cut delimiter next rest with
          | error fault => simp [result, Except.map] at uncut
          | ok pieces =>
              obtain ⟨piece, others⟩ := pieces
              simp only [result, Except.map, Except.ok.injEq, Prod.mk.injEq, List.cons.injEq,
                true_and] at uncut
              rw [uncut.1, uncut.2]

/-- What follows a text that is not cut and closes everything is cut as if it stood alone, and
its first piece is prolonged, by induction over the front.
-/
theorem cut_append_of_cut {delimiter : Char} {nesting : Nesting} {front : List Char}
    (uncut : cut delimiter nesting front = .ok (front, [])) (back : List Char)
    : cut delimiter nesting (front ++ back)
      = (cut delimiter .top back).map (fun pieces => (front ++ pieces.1, pieces.2)) := by
  induction front generalizing nesting with
  | nil =>
      rw [eq_top_of_cut_nil uncut, List.nil_append]
      cases cut delimiter .top back <;> rfl
  | cons c rest ih =>
      obtain ⟨next, stays, step, restUncut⟩ := cut_cons_inv uncut
      rw [List.cons_append, cut_cons_of_step stays step, ih restUncut]
      cases cut delimiter .top back <;> rfl

theorem Whole.nil (delimiter : Char) : Whole delimiter [] :=
  rfl

theorem Whole.append {delimiter : Char} {front back : List Char}
    (hf : Whole delimiter front) (hb : Whole delimiter back)
    : Whole delimiter (front ++ back) := by
  unfold Whole at *
  rw [cut_append_of_cut hf, hb]
  rfl

/-- One character that is neither structural nor the delimiter is whole. -/
theorem Whole.singleton {delimiter c : Char} (plain : Nesting.isStructural c = false)
    (other : c ≠ delimiter)
    : Whole delimiter [c] := by
  have stays : Nesting.top.cutsAt delimiter c = false := by simp [Nesting.cutsAt, other]
  rw [Whole, cut_cons_of_step stays (Nesting.step_of_not_isStructural plain [])]
  rfl

/-- A text of such characters is whole, by induction over the text. -/
theorem Whole.of_forall {delimiter : Char} {cs : List Char}
    (plain : ∀ c ∈ cs, Nesting.isStructural c = false ∧ c ≠ delimiter)
    : Whole delimiter cs := by
  induction cs with
  | nil => exact .nil delimiter
  | cons c rest ih =>
      have head := plain c List.mem_cons_self
      have tail := ih (fun c member => plain c (List.mem_cons_of_mem _ member))
      exact (Whole.singleton head.1 head.2).append tail

-----------------------------------------------------------------------------------------
-- Groups
-----------------------------------------------------------------------------------------

/-- What is open further out does not change how a character is read. -/
theorem Nesting.step_frame {opened opened' : List Group} {mode mode' : Mode} {c : Char}
    (step : Nesting.step ⟨opened, mode⟩ c = .ok ⟨opened', mode'⟩) (outer : List Group)
    : Nesting.step ⟨opened ++ outer, mode⟩ c = .ok ⟨opened' ++ outer, mode'⟩ := by
  simp only [Nesting.step, pure, Except.pure] at step ⊢
  cases mode with
  | escaped quote =>
      simp only [Except.ok.injEq, Nesting.mk.injEq] at step ⊢
      exact ⟨by rw [step.1], step.2⟩
  | quoted quote =>
      dsimp only at step ⊢
      split at step
      · next backslash =>
          simp only [Except.ok.injEq, Nesting.mk.injEq] at step
          rw [if_pos backslash, step.1, step.2]
      · next backslash =>
          rw [if_neg backslash]
          split at step
          · next ending =>
              simp only [Except.ok.injEq, Nesting.mk.injEq] at step
              rw [if_pos ending, step.1, step.2]
          · next ending =>
              simp only [Except.ok.injEq, Nesting.mk.injEq] at step
              rw [if_neg ending, step.1, step.2]
  | plain =>
      dsimp only at step ⊢
      split at step
      · next quote =>
          simp only [Except.ok.injEq, Nesting.mk.injEq] at step
          rw [if_pos quote, step.1, step.2]
      · next quote =>
          rw [if_neg quote]
          split at step
          · simp only [Except.ok.injEq, Nesting.mk.injEq] at step
            rw [← step.1, ← step.2, List.cons_append]
          · cases opened with
            | nil => cases step
            | cons innermost rest =>
                simp only [Nesting.close, List.cons_append] at step ⊢
                split at step
                · next same =>
                    simp only [pure, Except.pure, Except.ok.injEq, Nesting.mk.injEq] at step
                    rw [if_pos same, ← step.1, ← step.2]
                    rfl
                · cases step
          · simp only [Except.ok.injEq, Nesting.mk.injEq] at step
            rw [step.1, step.2]

/-- Inside a group no delimiter cuts, so a text that leaves the groups inside it closed belongs
to the piece around it as a whole, by induction over the text.
-/
theorem cut_append_of_run {delimiter : Char} {opened opened' outer : List Group}
    {mode mode' : Mode} {inside : List Char} (open_ : outer ≠ [])
    (run : Nesting.run ⟨opened, mode⟩ inside = .ok ⟨opened', mode'⟩) (back : List Char)
    : cut delimiter ⟨opened ++ outer, mode⟩ (inside ++ back)
      = (cut delimiter ⟨opened' ++ outer, mode'⟩ back).map
          (fun pieces => (inside ++ pieces.1, pieces.2)) := by
  induction inside generalizing opened mode with
  | nil =>
      simp only [Nesting.run, List.foldlM_nil, pure, Except.pure, Except.ok.injEq,
        Nesting.mk.injEq] at run
      rw [run.1, run.2, List.nil_append]
      cases cut delimiter ⟨opened' ++ outer, mode'⟩ back <;> rfl
  | cons c rest ih =>
      obtain ⟨⟨nextOpened, nextMode⟩, step, tail⟩ := Nesting.exists_step_of_run run
      have stays : Nesting.cutsAt delimiter ⟨opened ++ outer, mode⟩ c = false := by
        have below : (⟨opened ++ outer, mode⟩ : Nesting) ≠ .top := by
          simp [Nesting.top, open_]
        simp [Nesting.cutsAt, below]
      rw [List.cons_append, cut_cons_of_step stays (Nesting.step_frame step outer), ih tail]
      cases cut delimiter ⟨opened' ++ outer, mode'⟩ back <;> rfl

/-- A text that is not cut closes everything that is open before it, by induction over it. -/
theorem run_of_cut {delimiter : Char} {nesting : Nesting} {cs : List Char}
    (uncut : cut delimiter nesting cs = .ok (cs, []))
    : nesting.run cs = .ok .top := by
  induction cs generalizing nesting with
  | nil =>
      rw [eq_top_of_cut_nil uncut]
      rfl
  | cons c rest ih =>
      obtain ⟨next, _, step, restUncut⟩ := cut_cons_inv uncut
      rw [Nesting.run_cons_of_step step]
      exact ih restUncut

theorem Whole.balanced {delimiter : Char} {cs : List Char} (whole : Whole delimiter cs)
    : Balanced cs :=
  run_of_cut whole

theorem Balanced.append {front back : List Char} (hf : Balanced front) (hb : Balanced back)
    : Balanced (front ++ back) := by
  rw [Balanced, Nesting.run_append, hf]
  exact hb

/-- What holds of a text in front of another holds of separated texts, by induction over them. -/
theorem intercalate_of_append {holds : List Char → Prop} (nil : holds [])
    (append : ∀ {front back}, holds front → holds back → holds (front ++ back))
    {separator : List Char} (between : holds separator) {items : List (List Char)}
    (each : ∀ item ∈ items, holds item)
    : holds (separator.intercalate items) := by
  induction items with
  | nil => exact nil
  | cons item rest ih =>
      have head := each item List.mem_cons_self
      cases rest with
      | nil => rwa [List.intercalate_singleton]
      | cons next others =>
          have tail := ih (fun i member => each i (List.mem_cons_of_mem _ member))
          rw [List.intercalate_cons_cons, List.append_assoc]
          exact append head (append between tail)

theorem Balanced.intercalate {separator : List Char} (between : Balanced separator)
    {items : List (List Char)} (each : ∀ item ∈ items, Balanced item)
    : Balanced (separator.intercalate items) := by
  have empty : Balanced [] := rfl
  exact intercalate_of_append empty Balanced.append between each

theorem Whole.intercalate {delimiter : Char} {separator : List Char}
    (between : Whole delimiter separator) {items : List (List Char)}
    (each : ∀ item ∈ items, Whole delimiter item)
    : Whole delimiter (separator.intercalate items) :=
  intercalate_of_append (.nil delimiter) Whole.append between each

/-- A balanced text between the ends of a group is whole for every delimiter. -/
theorem Balanced.whole_group {inside : List Char} (balanced : Balanced inside)
    {left right : Char} {group : Group} (opening : Group.opening? left = some group)
    (closing : Group.closing? right = some group) (delimiter : Char)
    : Whole delimiter (left :: (inside ++ [right])) := by
  have leftStructural : Nesting.isStructural left = true := by
    simp [Nesting.isStructural, opening]
  have rightStructural : Nesting.isStructural right = true := by
    simp [Nesting.isStructural, closing]
  have enter : Nesting.step .top left = .ok ⟨[] ++ [group], .plain⟩ := by
    cases group <;> (unfold Group.opening? at opening; split at opening <;> simp_all; rfl)
  have leave : Nesting.step ⟨[] ++ [group], .plain⟩ right = .ok .top := by
    cases group <;> (unfold Group.closing? at closing; split at closing <;> simp_all; rfl)
  rw [Whole, cut_cons_of_step (Nesting.cutsAt_of_isStructural leftStructural _ _) enter,
    cut_append_of_run (by simp) balanced [right],
    cut_cons_of_step (Nesting.cutsAt_of_isStructural rightStructural _ _) leave]
  rfl

-----------------------------------------------------------------------------------------
-- Tokens
-----------------------------------------------------------------------------------------

/-- The tokens of a text that is not blank are what splitting finds. -/
theorem splitChars_eq_tokens {cs : List Char} (visible : isAllBlank cs = false)
    (delimiter : Char)
    : splitChars delimiter cs = (tokens delimiter cs).mapError .unbalanced := by
  rw [splitChars, if_neg (by simp [visible]), tokens]
  cases cut delimiter .top cs <;> rfl

theorem Whole.tokens_eq {delimiter : Char} {cs : List Char} (whole : Whole delimiter cs)
    : tokens delimiter cs = .ok [trimChars cs] := by
  rw [tokens, whole]
  rfl

/-- A whole text in front of a delimiter is the first token. -/
theorem Whole.tokens_append {delimiter : Char} {front : List Char}
    (whole : Whole delimiter front) (plain : Nesting.isStructural delimiter = false)
    (back : List Char)
    : tokens delimiter (front ++ delimiter :: back)
      = (tokens delimiter back).map (trimChars front :: ·) := by
  have cuts : Nesting.top.cutsAt delimiter delimiter = true := by
    simp [Nesting.cutsAt, plain]
  rw [tokens, tokens, cut_append_of_cut whole, cut_cons_of_cutsAt cuts]
  cases cut delimiter .top back with
  | error fault => rfl
  | ok pieces => simp [Except.map]

/-- A blank at the start of a text is in no token. -/
theorem tokens_cons_of_isBlank {delimiter c : Char} (blank : isBlank c = true)
    (other : c ≠ delimiter) (cs : List Char)
    : tokens delimiter (c :: cs) = tokens delimiter cs := by
  have stays : Nesting.top.cutsAt delimiter c = false := by simp [Nesting.cutsAt, other]
  have step := Nesting.step_of_not_isStructural (Nesting.isStructural_of_isBlank blank) []
  rw [tokens, cut_cons_of_step stays step, tokens]
  change Except.map _ (Except.map _ (cut delimiter .top cs)) = _
  cases cut delimiter .top cs with
  | error fault => rfl
  | ok pieces => simp [Except.map, trimChars_cons_of_isBlank blank]

-----------------------------------------------------------------------------------------
-- Parts of texts that are not cut
-----------------------------------------------------------------------------------------

variable {delimiter : Char}

/-- Two parts of a text that is not cut are not cut either, if all is closed between them, by
induction over the first part.
-/
theorem cut_parts {nesting : Nesting} {front back : List Char}
    (closed : nesting.run front = .ok .top)
    (uncut : cut delimiter nesting (front ++ back) = .ok (front ++ back, []))
    : cut delimiter nesting front = .ok (front, []) ∧ Whole delimiter back := by
  induction front generalizing nesting with
  | nil =>
      obtain rfl : nesting = .top := Except.ok.inj closed
      exact ⟨rfl, uncut⟩
  | cons c rest ih =>
      obtain ⟨next, stays, step, restUncut⟩ := cut_cons_inv uncut
      rw [Nesting.run_cons_of_step step] at closed
      obtain ⟨front, back⟩ := ih closed restUncut
      rw [cut_cons_of_step stays step, front]
      exact ⟨rfl, back⟩

theorem Whole.parts {front back : List Char} (balanced : Balanced front)
    (whole : Whole delimiter (front ++ back))
    : Whole delimiter front ∧ Whole delimiter back :=
  cut_parts balanced whole

/-- Balanced texts with something balanced between them are not cut if the whole is not, by
induction over them.
-/
theorem Whole.of_intercalate {separator : List Char} (between : Balanced separator)
    {items : List (List Char)} (balanced : ∀ item ∈ items, Balanced item)
    (whole : Whole delimiter (separator.intercalate items))
    : ∀ item ∈ items, Whole delimiter item := by
  induction items with
  | nil => simp
  | cons item rest ih =>
      have head := balanced item List.mem_cons_self
      cases rest with
      | nil => simpa using whole
      | cons next others =>
          rw [List.intercalate_cons_cons, List.append_assoc] at whole
          obtain ⟨front, back⟩ := Whole.parts head whole
          exact List.forall_mem_cons.mpr ⟨front,
            ih (fun i member => balanced i (List.mem_cons_of_mem _ member))
              (Whole.parts between back).2⟩

-----------------------------------------------------------------------------------------
-- Pieces
-----------------------------------------------------------------------------------------

/-- The text between its cuts is in the pieces, none of which is cut again, by induction over the
text.
-/
theorem pieces_of_cut {nesting : Nesting} {cs piece : List Char} {pieces : List (List Char)}
    (cuts : cut delimiter nesting cs = .ok (piece, pieces))
    : cs = [delimiter].intercalate (piece :: pieces)
      ∧ cut delimiter nesting piece = .ok (piece, [])
      ∧ ∀ p ∈ pieces, Whole delimiter p := by
  induction cs generalizing nesting piece pieces with
  | nil =>
      obtain rfl := eq_top_of_cut_nil cuts
      obtain ⟨rfl, rfl⟩ := Prod.mk.inj (Except.ok.inj cuts)
      exact ⟨rfl, rfl, by simp⟩
  | cons c rest ih =>
      cases stays : nesting.cutsAt delimiter c with
      | true =>
          rw [cut_cons_of_cutsAt stays] at cuts
          cases tail : cut delimiter nesting rest with
          | error fault =>
              rw [tail] at cuts
              cases cuts
          | ok found =>
              obtain ⟨next, others⟩ := found
              rw [tail] at cuts
              obtain ⟨rfl, rfl⟩ := Prod.mk.inj (Except.ok.inj cuts)
              obtain ⟨text, first, each⟩ := ih tail
              obtain ⟨rfl, rfl, _⟩ := Nesting.eq_of_cutsAt stays
              refine ⟨?_, rfl, ?_⟩
              · rw [List.intercalate_cons_cons, ← text]
                rfl
              · intro p member
                rcases List.mem_cons.mp member with rfl | member
                · exact first
                · exact each p member
      | false =>
          cases step : nesting.step c with
          | error fault =>
              rw [cut_cons_of_error stays step] at cuts
              cases cuts
          | ok next =>
              rw [cut_cons_of_step stays step] at cuts
              cases tail : cut delimiter next rest with
              | error fault =>
                  rw [tail] at cuts
                  cases cuts
              | ok found =>
                  obtain ⟨first, others⟩ := found
                  rw [tail] at cuts
                  obtain ⟨rfl, rfl⟩ := Prod.mk.inj (Except.ok.inj cuts)
                  obtain ⟨text, firstUncut, each⟩ := ih tail
                  refine ⟨?_, ?_, each⟩
                  · rw [text]
                    cases others with
                    | nil => rfl
                    | cons next rest => simp
                  · rw [cut_cons_of_step stays step, firstUncut]
                    rfl

/-- A text has some pieces exactly if the delimiter between them makes the text up and cuts none
of them.
-/
theorem cut_eq_ok (plain : Nesting.isStructural delimiter = false) {cs piece : List Char}
    {pieces : List (List Char)}
    : cut delimiter .top cs = .ok (piece, pieces)
      ↔ cs = [delimiter].intercalate (piece :: pieces)
        ∧ ∀ p ∈ piece :: pieces, Whole delimiter p := by
  constructor
  · intro cuts
    obtain ⟨text, first, each⟩ := pieces_of_cut cuts
    exact ⟨text, List.forall_mem_cons.mpr ⟨first, each⟩⟩
  · rintro ⟨rfl, each⟩
    induction pieces generalizing piece with
    | nil =>
        rw [List.intercalate_singleton]
        exact each piece List.mem_cons_self
    | cons next others ih =>
        have head := each piece List.mem_cons_self
        have tail := ih (fun p member => each p (List.mem_cons_of_mem _ member))
        have cuts : Nesting.top.cutsAt delimiter delimiter = true := by
          simp [Nesting.cutsAt, plain]
        rw [List.intercalate_cons_cons, List.append_assoc, cut_append_of_cut head,
          List.singleton_append, cut_cons_of_cutsAt cuts, tail]
        simp [Except.map]

-----------------------------------------------------------------------------------------
-- Blanks at the ends
-----------------------------------------------------------------------------------------

/-- Only quotes are waited for. -/
def Nesting.WaitsForQuote (nesting : Nesting) : Prop :=
  match nesting.mode with
  | .plain => True
  | .quoted quote | .escaped quote => isQuote quote = true

theorem Nesting.WaitsForQuote.step {nesting next : Nesting} {c : Char}
    (waits : nesting.WaitsForQuote) (step : nesting.step c = .ok next)
    : next.WaitsForQuote := by
  obtain ⟨opened, mode⟩ := nesting
  cases mode with
  | escaped quote =>
      obtain rfl := Except.ok.inj step
      exact waits
  | quoted quote =>
      simp only [Nesting.step] at step
      split at step
      · obtain rfl := Except.ok.inj step
        exact waits
      · split at step
        · obtain rfl := Except.ok.inj step
          trivial
        · obtain rfl := Except.ok.inj step
          exact waits
  | plain =>
      simp only [Nesting.step] at step
      split at step
      · next opens =>
          obtain rfl := Except.ok.inj step
          exact opens
      · split at step
        · obtain rfl := Except.ok.inj step
          trivial
        · cases opened with
          | nil => cases step
          | cons innermost outer =>
              simp only [Nesting.close] at step
              split at step
              · obtain rfl := Except.ok.inj step
                trivial
              · cases step
        · obtain rfl := Except.ok.inj step
          trivial

/-- A blank is read everywhere, and it neither opens nor closes anything. -/
theorem Nesting.WaitsForQuote.exists_step_of_isBlank {nesting : Nesting} {c : Char}
    (waits : nesting.WaitsForQuote) (blank : isBlank c = true)
    : ∃ next, nesting.step c = .ok next ∧ next.finish = nesting.finish := by
  obtain ⟨opened, mode⟩ := nesting
  have plain := Nesting.isStructural_of_isBlank blank
  cases mode with
  | plain => exact ⟨_, Nesting.step_of_not_isStructural plain opened, rfl⟩
  | quoted quote =>
      have other : c ≠ quote := by
        rintro rfl
        have quotes : isQuote c = true := waits
        simp [Nesting.isStructural, quotes] at plain
      simp only [Nesting.step, if_neg other]
      split
      · exact ⟨_, rfl, rfl⟩
      · exact ⟨_, rfl, rfl⟩
  | escaped quote => exact ⟨_, rfl, rfl⟩

/-- The pieces of a text with another character at their end. -/
def prolonged (c : Char) : List Char → List (List Char) → List Char × List (List Char)
  | piece, [] => (piece ++ [c], [])
  | piece, next :: others => (piece, (prolonged c next others).1 :: (prolonged c next others).2)

theorem prolonged_cons (c first : Char) (piece : List Char) (pieces : List (List Char))
    : prolonged c (first :: piece) pieces
      = (first :: (prolonged c piece pieces).1, (prolonged c piece pieces).2) := by
  cases pieces <;> rfl

/-- A blank at the end of a text is at the end of its last piece, by induction over the text. -/
theorem cut_concat_of_isBlank {nesting : Nesting} {c : Char} (waits : nesting.WaitsForQuote)
    (blank : isBlank c = true) (other : c ≠ delimiter) (cs : List Char)
    : cut delimiter nesting (cs ++ [c])
      = (cut delimiter nesting cs).map (fun pieces => prolonged c pieces.1 pieces.2) := by
  have stays (nesting : Nesting) : nesting.cutsAt delimiter c = false := by
    simp [Nesting.cutsAt, other]
  induction cs generalizing nesting with
  | nil =>
      obtain ⟨next, step, finish⟩ := waits.exists_step_of_isBlank blank
      rw [List.nil_append, cut_cons_of_step (stays nesting) step, cut, cut, finish]
      cases nesting.finish <;> rfl
  | cons first rest ih =>
      rw [List.cons_append]
      cases cuts : nesting.cutsAt delimiter first with
      | true =>
          rw [cut_cons_of_cutsAt cuts, cut_cons_of_cutsAt cuts, ih waits]
          cases cut delimiter nesting rest <;> rfl
      | false =>
          cases step : nesting.step first with
          | error fault => rw [cut_cons_of_error cuts step, cut_cons_of_error cuts step]; rfl
          | ok next =>
              rw [cut_cons_of_step cuts step, cut_cons_of_step cuts step, ih (waits.step step)]
              cases cut delimiter next rest with
              | error fault => rfl
              | ok pieces => simp [Except.map, prolonged_cons]

theorem map_trimChars_prolonged {c : Char} (blank : isBlank c = true) (piece : List Char)
    (pieces : List (List Char))
    : ((prolonged c piece pieces).1 :: (prolonged c piece pieces).2).map trimChars
      = (piece :: pieces).map trimChars := by
  induction pieces generalizing piece with
  | nil => simp [prolonged, trimChars_concat_of_isBlank blank]
  | cons next others ih => simpa [prolonged] using ih next

theorem tokens_concat_of_isBlank {c : Char} (blank : isBlank c = true) (other : c ≠ delimiter)
    (cs : List Char)
    : tokens delimiter (cs ++ [c]) = tokens delimiter cs := by
  have waits : Nesting.top.WaitsForQuote := trivial
  rw [tokens, cut_concat_of_isBlank waits blank other, tokens]
  cases cut delimiter .top cs with
  | error fault => rfl
  | ok pieces => exact congrArg Except.ok (map_trimChars_prolonged blank pieces.1 pieces.2)

/-- Blanks in front of a text are in none of its tokens, by induction over them. -/
theorem tokens_append_left {front : List Char}
    (blank : ∀ c ∈ front, isBlank c = true ∧ c ≠ delimiter) (cs : List Char)
    : tokens delimiter (front ++ cs) = tokens delimiter cs := by
  induction front with
  | nil => rfl
  | cons c rest ih =>
      have head := blank c List.mem_cons_self
      rw [List.cons_append, tokens_cons_of_isBlank head.1 head.2]
      exact ih (fun d member => blank d (List.mem_cons_of_mem _ member))

/-- Nor are blanks behind it, by induction over them. -/
theorem tokens_append_right {back : List Char}
    (blank : ∀ c ∈ back, isBlank c = true ∧ c ≠ delimiter) (cs : List Char)
    : tokens delimiter (cs ++ back) = tokens delimiter cs := by
  induction back generalizing cs with
  | nil => rw [List.append_nil]
  | cons c rest ih =>
      have head := blank c List.mem_cons_self
      rw [List.append_cons, ih (fun d member => blank d (List.mem_cons_of_mem _ member)),
        tokens_concat_of_isBlank head.1 head.2]

/-- A trimmed text has the tokens of the text. -/
theorem tokens_trimChars (visible : isBlank delimiter = false) (cs : List Char)
    : tokens delimiter (trimChars cs) = tokens delimiter cs := by
  have other {c : Char} (blank : isBlank c = true) : c ≠ delimiter := by
    rintro rfl
    rw [visible] at blank
    cases blank
  obtain ⟨front, back, whole, frontBlank, backBlank⟩ := exists_blank_ends cs
  conv => rhs; rw [whole]
  rw [tokens_append_left (fun c member => ⟨frontBlank c member, other (frontBlank c member)⟩),
    tokens_append_right (fun c member => ⟨backBlank c member, other (backBlank c member)⟩)]

theorem splitChars_trimChars (visible : isBlank delimiter = false) (cs : List Char)
    : splitChars delimiter (trimChars cs) = splitChars delimiter cs := by
  cases blank : isAllBlank cs with
  | true => rw [splitChars, splitChars, isAllBlank_trimChars, if_pos blank, if_pos blank]
  | false =>
      rw [splitChars_eq_tokens (by rw [isAllBlank_trimChars, blank]),
        splitChars_eq_tokens blank, tokens_trimChars visible]

theorem Balanced.of_forall {cs : List Char} (plain : ∀ c ∈ cs, Nesting.isStructural c = false)
    : Balanced cs := by
  induction cs with
  | nil => rfl
  | cons c rest ih =>
      have head := Nesting.step_of_not_isStructural (plain c List.mem_cons_self) []
      rw [Balanced, Nesting.top, Nesting.run_cons_of_step head]
      exact ih (fun d member => plain d (List.mem_cons_of_mem _ member))

/-- What is open in front of blanks is open behind them, by induction over them. -/
theorem Nesting.WaitsForQuote.finish_eq_of_run {nesting last : Nesting} {blanks : List Char}
    (waits : nesting.WaitsForQuote) (blank : ∀ c ∈ blanks, isBlank c = true)
    (run : nesting.run blanks = .ok last)
    : last.finish = nesting.finish := by
  induction blanks generalizing nesting with
  | nil => rw [Except.ok.inj run]
  | cons c rest ih =>
      obtain ⟨next, step, finish⟩ := waits.exists_step_of_isBlank (blank c List.mem_cons_self)
      rw [Nesting.run_cons_of_step step] at run
      rw [← finish]
      exact ih (waits.step step) (fun d member => blank d (List.mem_cons_of_mem _ member)) run

theorem Nesting.WaitsForQuote.run {nesting last : Nesting} {cs : List Char}
    (waits : nesting.WaitsForQuote) (run : nesting.run cs = .ok last)
    : last.WaitsForQuote := by
  induction cs generalizing nesting with
  | nil => rwa [← Except.ok.inj run]
  | cons c rest ih =>
      obtain ⟨next, step, tail⟩ := Nesting.exists_step_of_run run
      exact ih (waits.step step) tail

/-- A trimmed text is balanced if the text is, for the blanks behind it close nothing. -/
theorem Balanced.trimChars {cs : List Char} (balanced : Balanced cs)
    : Balanced (trimChars cs) := by
  obtain ⟨front, back, whole, frontBlank, backBlank⟩ := exists_blank_ends cs
  have frontBalanced : Balanced front :=
    .of_forall (fun c member => Nesting.isStructural_of_isBlank (frontBlank c member))
  rw [whole, Balanced, Nesting.run_append, frontBalanced, Except.bind, Nesting.run_append]
    at balanced
  cases run : Nesting.run .top (Text.trimChars cs) with
  | error fault =>
      rw [run] at balanced
      cases balanced
  | ok last =>
      rw [run] at balanced
      have start : Nesting.top.WaitsForQuote := trivial
      have finish := (start.run run).finish_eq_of_run backBlank balanced
      rw [Balanced, run, Nesting.eq_top_of_finish finish.symm]

theorem Whole.trimChars {cs : List Char} (whole : Whole delimiter cs)
    : Whole delimiter (trimChars cs) := by
  have trimmed := whole.balanced.trimChars
  obtain ⟨front, back, text, frontBlank, _⟩ := exists_blank_ends cs
  rw [text] at whole
  have frontBalanced : Balanced front :=
    .of_forall (fun c member => Nesting.isStructural_of_isBlank (frontBlank c member))
  exact (Whole.parts trimmed (Whole.parts frontBalanced whole).2).1

end PixelTree.Descriptor
