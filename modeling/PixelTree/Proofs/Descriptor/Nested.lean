import PixelTree.Proofs.Descriptor.Pieces

/-! A grammar of texts whose groups and quotes are closed.
A text is of the grammar exactly if the reader of one character at a time ends where it started,
with no separator outside its groups and quotes.
-/

namespace PixelTree.Descriptor

open Text

/-- What may stand inside a quote: its end is there behind a backslash only, and a backslash in
front of another character only.
-/
inductive Quotable (quote : Char) : List Char → Prop where
  | nil : Quotable quote []
  | plain {c : Char} {cs : List Char} (other : c ≠ quote) (unescaped : c ≠ '\\')
      (rest : Quotable quote cs)
      : Quotable quote (c :: cs)
  | escaped (c : Char) {cs : List Char} (rest : Quotable quote cs)
      : Quotable quote ('\\' :: c :: cs)

/-- A row of plain characters other than the separators, of quotes, and of groups around such
rows. Inside a group every separator is plain.
-/
inductive Nested : List Char → List Char → Prop where
  | nil {separators : List Char} : Nested separators []
  | plain {separators : List Char} {c : Char} {cs : List Char}
      (structureless : Nesting.isStructural c = false) (other : c ∉ separators)
      (rest : Nested separators cs)
      : Nested separators (c :: cs)
  | quoted {separators : List Char} {quote : Char} {inside cs : List Char}
      (quotes : isQuote quote = true) (quotable : Quotable quote inside)
      (rest : Nested separators cs)
      : Nested separators (quote :: (inside ++ quote :: cs))
  | group {separators : List Char} {left right : Char} {kind : Group} {inside cs : List Char}
      (opening : Group.opening? left = some kind) (closing : Group.closing? right = some kind)
      (nested : Nested [] inside) (rest : Nested separators cs)
      : Nested separators (left :: (inside ++ right :: cs))

-----------------------------------------------------------------------------------------
-- Readings of one character
-----------------------------------------------------------------------------------------

theorem ne_backslash_of_isQuote {c : Char} (quotes : isQuote c = true) : c ≠ '\\' := by
  rintro rfl
  cases quotes

namespace Nesting

/-- A character is plain, a quote, or one end of a group. -/
theorem character_cases (c : Char)
    : isStructural c = false
      ∨ isQuote c = true
      ∨ (∃ kind, Group.opening? c = some kind)
      ∨ ∃ kind, Group.closing? c = some kind := by
  simp only [isStructural, Bool.or_eq_false_iff, ← Option.isSome_iff_exists]
  cases isQuote c <;> cases (Group.opening? c).isSome <;> cases (Group.closing? c).isSome <;> simp

theorem step_of_isQuote {c : Char} (quotes : isQuote c = true) (opened : List Group)
    : Nesting.step ⟨opened, .plain⟩ c = .ok ⟨opened, .quoted c⟩ := by
  simp [step, quotes, pure, Except.pure]

theorem step_of_opening {c : Char} {kind : Group} (opening : Group.opening? c = some kind)
    (opened : List Group)
    : Nesting.step ⟨opened, .plain⟩ c = .ok ⟨kind :: opened, .plain⟩ := by
  unfold Group.opening? at opening
  split at opening
  · obtain rfl := Option.some.inj opening
    rfl
  · obtain rfl := Option.some.inj opening
    rfl
  · cases opening

theorem step_of_closing {c : Char} {kind : Group} (closing : Group.closing? c = some kind)
    (opened : List Group)
    : Nesting.step ⟨opened, .plain⟩ c = close opened kind := by
  unfold Group.closing? at closing
  split at closing
  · obtain rfl := Option.some.inj closing
    rfl
  · obtain rfl := Option.some.inj closing
    rfl
  · cases closing

/-- The end of a group closes the innermost open group if that is of its kind. -/
theorem close_eq_ok {opened : List Group} {kind : Group} {next : Nesting}
    : close opened kind = .ok next ↔ ∃ outer, opened = kind :: outer ∧ next = ⟨outer, .plain⟩ := by
  cases opened with
  | nil => simp [close, throw, throwThe, MonadExceptOf.throw]
  | cons innermost outer =>
      by_cases same : innermost = kind
      · simp [close, same, pure, Except.pure, eq_comm]
      · simp [close, same, throw, throwThe, MonadExceptOf.throw]

theorem close_eq_error {opened : List Group} {kind : Group} {fault : Imbalance}
    : close opened kind = .error fault
      ↔ (opened = [] ∧ fault = .nothingOpen kind)
        ∨ ∃ innermost outer,
          opened = innermost :: outer ∧ innermost ≠ kind ∧ fault = .mismatch innermost kind := by
  cases opened with
  | nil => simp [close, throw, throwThe, MonadExceptOf.throw, eq_comm]
  | cons innermost outer =>
      by_cases same : innermost = kind
      · simp [close, same, pure, Except.pure]
      · have other : ¬kind = innermost := Ne.symm same
        simp [close, same, other, throw, throwThe, MonadExceptOf.throw, eq_comm]

/-- A quote goes on behind a character that neither ends it nor escapes the next one. -/
theorem step_inside {quote c : Char} (other : c ≠ quote) (unescaped : c ≠ '\\')
    (opened : List Group)
    : Nesting.step ⟨opened, .quoted quote⟩ c = .ok ⟨opened, .quoted quote⟩ := by
  simp [step, unescaped, other, pure, Except.pure]

theorem step_end {quote : Char} (unescaped : quote ≠ '\\') (opened : List Group)
    : Nesting.step ⟨opened, .quoted quote⟩ quote = .ok ⟨opened, .plain⟩ := by
  simp [step, unescaped, pure, Except.pure]

end Nesting

-----------------------------------------------------------------------------------------
-- Nested texts are whole
-----------------------------------------------------------------------------------------

variable {delimiter : Char}

/-- A quote is one part of the piece around it, by induction over its inside. -/
theorem Quotable.cut_eq {quote : Char} {inside : List Char} (quotable : Quotable quote inside)
    (quotes : isQuote quote = true) (back : List Char)
    : cut delimiter ⟨[], .quoted quote⟩ (inside ++ quote :: back)
      = (cut delimiter .top back).map
          (fun pieces => (inside ++ quote :: pieces.1, pieces.2)) := by
  have stays (c : Char) : Nesting.cutsAt delimiter ⟨[], .quoted quote⟩ c = false := rfl
  have staysEscaped (c : Char) : Nesting.cutsAt delimiter ⟨[], .escaped quote⟩ c = false := rfl
  induction quotable with
  | nil =>
      have step := Nesting.step_end (ne_backslash_of_isQuote quotes) []
      rw [List.nil_append, cut_cons_of_step (stays quote) step]
      rfl
  | @plain c cs other unescaped _ ih =>
      have step := Nesting.step_inside other unescaped []
      rw [List.cons_append, cut_cons_of_step (stays c) step, ih]
      cases cut delimiter .top back <;> rfl
  | @escaped c cs _ ih =>
      have enter : Nesting.step ⟨[], .quoted quote⟩ '\\' = .ok ⟨[], .escaped quote⟩ := by
        simp [Nesting.step, pure, Except.pure]
      have leave : Nesting.step ⟨[], .escaped quote⟩ c = .ok ⟨[], .quoted quote⟩ := rfl
      rw [List.cons_append, List.cons_append, cut_cons_of_step (stays _) enter,
        cut_cons_of_step (staysEscaped c) leave, ih]
      cases cut delimiter .top back <;> rfl

theorem Quotable.whole {quote : Char} {inside : List Char} (quotable : Quotable quote inside)
    (quotes : isQuote quote = true)
    : Whole delimiter (quote :: (inside ++ [quote])) := by
  have structural : Nesting.isStructural quote = true := by
    simp [Nesting.isStructural, quotes]
  have enter : Nesting.step .top quote = .ok ⟨[], .quoted quote⟩ :=
    Nesting.step_of_isQuote quotes []
  rw [Whole, cut_cons_of_step (Nesting.cutsAt_of_isStructural structural _ _) enter,
    quotable.cut_eq quotes []]
  rfl

/-- A nested text is not cut at its separators, nor at parts of quotes and groups, by induction
over its parts.
-/
theorem Nested.whole {separators cs : List Char} (nested : Nested separators cs)
    (apart : delimiter ∈ separators ∨ Nesting.isStructural delimiter = true)
    : Whole delimiter cs := by
  induction nested generalizing delimiter with
  | nil => exact .nil delimiter
  | @plain separators c cs structureless other _ ih =>
      have differs : c ≠ delimiter := by
        rintro rfl
        rcases apart with separator | structural
        · exact other separator
        · rw [structureless] at structural
          cases structural
      exact (Whole.singleton structureless differs).append (ih apart)
  | @quoted separators quote inside cs quotes quotable _ ih =>
      have front : Whole delimiter (quote :: (inside ++ [quote])) := quotable.whole quotes
      simpa using front.append (ih apart)
  | @group separators left right kind inside cs opening closing _ _ inner ih =>
      have uncut : Whole '(' inside := inner (Or.inr rfl)
      simpa using (uncut.balanced.whole_group opening closing delimiter).append (ih apart)

theorem Nested.balanced {separators cs : List Char} (nested : Nested separators cs)
    : Balanced cs := by
  have uncut : Whole '(' cs := nested.whole (Or.inr rfl)
  exact uncut.balanced

-----------------------------------------------------------------------------------------
-- Whole texts are nested
-----------------------------------------------------------------------------------------

/-- What the first character of a text may be whose groups are all closed in the end. -/
theorem Nesting.run_cons_cases {opened : List Group} {c : Char} {rest : List Char}
    (run : Nesting.run ⟨opened, .plain⟩ (c :: rest) = .ok .top)
    : (isStructural c = false ∧ Nesting.run ⟨opened, .plain⟩ rest = .ok .top)
      ∨ (isQuote c = true ∧ Nesting.run ⟨opened, .quoted c⟩ rest = .ok .top)
      ∨ (∃ kind,
          Group.opening? c = some kind
          ∧ Nesting.run ⟨kind :: opened, .plain⟩ rest = .ok .top)
      ∨ ∃ kind outer,
          Group.closing? c = some kind
          ∧ opened = kind :: outer
          ∧ Nesting.run ⟨outer, .plain⟩ rest = .ok .top := by
  obtain ⟨next, step, tail⟩ := Nesting.exists_step_of_run run
  rcases Nesting.character_cases c with plain | quotes | ⟨kind, opening⟩ | ⟨kind, closing⟩
  · rw [Nesting.step_of_not_isStructural plain] at step
    obtain rfl := Except.ok.inj step
    exact Or.inl ⟨plain, tail⟩
  · rw [Nesting.step_of_isQuote quotes] at step
    obtain rfl := Except.ok.inj step
    exact Or.inr (Or.inl ⟨quotes, tail⟩)
  · rw [Nesting.step_of_opening opening] at step
    obtain rfl := Except.ok.inj step
    exact Or.inr (Or.inr (Or.inl ⟨kind, opening, tail⟩))
  · rw [Nesting.step_of_closing closing] at step
    obtain ⟨outer, rfl, rfl⟩ := Nesting.close_eq_ok.mp step
    exact Or.inr (Or.inr (Or.inr ⟨kind, outer, closing, rfl, tail⟩))

/-- A quote that is closed in the end has an end, by induction over the text in both modes of
reading it.
-/
theorem exists_quotable {opened : List Group} {quote : Char} (cs : List Char)
    : (Nesting.run ⟨opened, .quoted quote⟩ cs = .ok .top →
        ∃ inside back,
          Quotable quote inside
          ∧ cs = inside ++ quote :: back
          ∧ Nesting.run ⟨opened, .plain⟩ back = .ok .top)
      ∧ (Nesting.run ⟨opened, .escaped quote⟩ cs = .ok .top →
        ∃ c inside back,
          Quotable quote inside
          ∧ cs = c :: (inside ++ quote :: back)
          ∧ Nesting.run ⟨opened, .plain⟩ back = .ok .top) := by
  induction cs with
  | nil =>
      constructor
      · intro run
        cases run
      · intro run
        cases run
  | cons c rest ih =>
      constructor
      · intro run
        obtain ⟨next, step, tail⟩ := Nesting.exists_step_of_run run
        by_cases backslash : c = '\\'
        · subst backslash
          obtain rfl := Except.ok.inj step
          obtain ⟨d, inside, back, quotable, rfl, closed⟩ := ih.2 tail
          exact ⟨'\\' :: d :: inside, back, .escaped d quotable, rfl, closed⟩
        · by_cases ending : c = quote
          · subst ending
            rw [Nesting.step_end backslash] at step
            obtain rfl := Except.ok.inj step
            exact ⟨[], rest, .nil, rfl, tail⟩
          · rw [Nesting.step_inside ending backslash] at step
            obtain rfl := Except.ok.inj step
            obtain ⟨inside, back, quotable, rfl, closed⟩ := ih.1 tail
            exact ⟨c :: inside, back, .plain ending backslash quotable, rfl, closed⟩
      · intro run
        obtain ⟨inside, back, quotable, rfl, closed⟩ := ih.1 run
        exact ⟨c, inside, back, quotable, rfl, closed⟩

/-- A text that closes the groups in order, the first of them first, with nested texts between
their ends.
-/
def Closes : List Group → List Char → Prop
  | [], cs => Nested [] cs
  | kind :: outer, cs =>
      ∃ inside right back,
        cs = inside ++ right :: back
        ∧ Group.closing? right = some kind
        ∧ Nested [] inside
        ∧ Closes outer back

/-- What may stand in front of every nested text may stand in front of the ends of groups. -/
theorem Closes.append {opened : List Group} {cs : List Char} (closes : Closes opened cs)
    (front : List Char) (prolongs : ∀ cs, Nested [] cs → Nested [] (front ++ cs))
    : Closes opened (front ++ cs) := by
  cases opened with
  | nil => exact prolongs cs closes
  | cons kind outer =>
      obtain ⟨inside, right, back, rfl, closing, nested, others⟩ := closes
      exact ⟨front ++ inside, right, back, by rw [List.append_assoc], closing,
        prolongs inside nested, others⟩

/-- A text that leaves nothing open closes the groups that are open in front of it, by induction
over its length: a quote is passed at once.
-/
theorem closes_of_run {opened : List Group} {cs : List Char}
    (run : Nesting.run ⟨opened, .plain⟩ cs = .ok .top)
    : Closes opened cs := by
  induction length : cs.length using Nat.strong_induction_on generalizing opened cs with
  | _ n ih =>
      subst length
      cases cs with
      | nil =>
          obtain rfl : opened = [] := congrArg Nesting.opened (Except.ok.inj run)
          exact Nested.nil
      | cons c rest =>
          rcases Nesting.run_cons_cases run with
            ⟨plain, closed⟩ | ⟨quotes, closed⟩ | ⟨kind, opening, closed⟩
            | ⟨kind, outer, closing, rfl, closed⟩
          · have tail := ih rest.length (by simp) closed rfl
            exact tail.append [c] (fun _ nested => .plain plain (by simp) nested)
          · obtain ⟨inside, back, quotable, rfl, behind⟩ := (exists_quotable rest).1 closed
            have shorter : back.length < (c :: (inside ++ c :: back)).length := by
              simp
              omega
            have tail := ih back.length shorter behind rfl
            have whole := tail.append (c :: (inside ++ [c]))
              (fun cs nested => by simpa using Nested.quoted quotes quotable nested)
            simpa using whole
          · obtain ⟨inside, right, back, rfl, closing, nested, others⟩ :=
              ih rest.length (by simp) closed rfl
            have whole := others.append (c :: (inside ++ [right]))
              (fun cs rest => by simpa using Nested.group opening closing nested rest)
            simpa using whole
          · exact ⟨[], c, rest, rfl, closing, .nil, ih rest.length (by simp) closed rfl⟩

/-- A nested text keeps every separator that does not cut it inside groups and quotes, by
induction over its parts.
-/
theorem Nested.separate {separators others cs : List Char} (nested : Nested separators cs)
    (whole : ∀ delimiter ∈ others, Whole delimiter cs)
    : Nested others cs := by
  induction nested with
  | nil => exact .nil
  | @plain separators c cs structureless _ _ ih =>
      refine .plain structureless ?_ (ih ?_)
      · intro member
        obtain ⟨next, stays, _⟩ := cut_cons_inv (whole c member)
        simp [Nesting.cutsAt, structureless] at stays
      · intro delimiter member
        have single : Balanced [c] := .of_forall (by simpa using structureless)
        exact (Whole.parts single (whole delimiter member)).2
  | @quoted separators quote inside cs quotes quotable _ ih =>
      refine .quoted quotes quotable (ih ?_)
      intro delimiter member
      have front : Whole delimiter (quote :: (inside ++ [quote])) := quotable.whole quotes
      exact (Whole.parts front.balanced (by simpa using whole delimiter member)).2
  | @group separators left right kind inside cs opening closing inner _ _ ih =>
      refine .group opening closing inner (ih ?_)
      intro delimiter member
      have front := inner.balanced.whole_group opening closing delimiter
      exact (Whole.parts front.balanced (by simpa using whole delimiter member)).2

/-- The nested texts are the balanced ones that no separator cuts. -/
theorem nested_iff {separators cs : List Char}
    : Nested separators cs
      ↔ Balanced cs ∧ ∀ delimiter ∈ separators, Whole delimiter cs := by
  constructor
  · intro nested
    exact ⟨nested.balanced, fun _ member => nested.whole (Or.inl member)⟩
  · rintro ⟨balanced, whole⟩
    have nested : Nested [] cs := closes_of_run balanced
    exact nested.separate whole

theorem nested_singleton {delimiter : Char} {cs : List Char}
    : Nested [delimiter] cs ↔ Whole delimiter cs := by
  rw [nested_iff, List.forall_mem_singleton]
  exact and_iff_right_of_imp Whole.balanced

instance Balanced.decidable (cs : List Char) : Decidable (Balanced cs) :=
  inferInstanceAs (Decidable (Nesting.run .top cs = .ok .top))

instance Whole.decidable (delimiter : Char) (cs : List Char) : Decidable (Whole delimiter cs) :=
  inferInstanceAs (Decidable (cut delimiter .top cs = .ok (cs, [])))

instance Nested.decidable (separators cs : List Char) : Decidable (Nested separators cs) :=
  have : Decidable (∀ delimiter ∈ separators, Whole delimiter cs) := List.decidableBAll _ _
  decidable_of_iff (Balanced cs ∧ ∀ delimiter ∈ separators, Whole delimiter cs) nested_iff.symm

example : Nested [','] "(a,b)|'c,\\'d'".toList ∧ ¬ Nested ['|'] "(a,b)|'c,\\'d'".toList := by
  decide +kernel

end PixelTree.Descriptor
