import PixelTree.Build
import PixelTree.Catalog.Standard
import PixelTree.Proofs.Descriptor.Plain
import PixelTree.Proofs.Node.Rounded
import PixelTree.Proofs.Remap.Permutation

/-! What each filter of the standard catalog makes of a node, the stage that the result is
written as, and that the stage makes the same again.
-/

namespace PixelTree

open Descriptor (Stage Plain)

-----------------------------------------------------------------------------------------
-- Programs that use up seeds
-----------------------------------------------------------------------------------------

section Supply

variable {α β ε σ : Type} {state state' : σ}

/-- A sequence of two programs succeeds when both do, the second one after the first. -/
theorem bind_eq_ok {first : StateT σ (Except ε) α} {second : α → StateT σ (Except ε) β}
    {value : β}
    : (first >>= second) state = .ok (value, state')
      ↔ ∃ found between,
          first state = .ok (found, between) ∧ second found between = .ok (value, state') := by
  change (first state).bind (fun result => second result.1 result.2) = _ ↔ _
  cases result : first state with
  | error fault => simp [Except.bind]
  | ok pair =>
      obtain ⟨found, between⟩ := pair
      simp [Except.bind]

theorem lift_eq_ok {result : Except ε α} {value : α}
    : (liftM result : StateT σ (Except ε) α) state = .ok (value, state')
      ↔ result = .ok value ∧ state = state' := by
  change result.bind (fun found => .ok (found, state)) = _ ↔ _
  cases result with
  | error fault => simp [Except.bind]
  | ok found => simp [Except.bind]

theorem pure_eq_ok {found value : α}
    : (pure found : StateT σ (Except ε) α) state = .ok (value, state')
      ↔ found = value ∧ state = state' := by
  change Except.ok (found, state) = _ ↔ _
  simp

end Supply

-----------------------------------------------------------------------------------------
-- Stages of filters
-----------------------------------------------------------------------------------------

/-- The stage that a rule is written as. -/
def Remap.Rule.stage : Remap.Rule → Stage
  | .random seed => ⟨"random", [Numeral.decimal seed.toNat]⟩
  | .skip stride => ⟨"skip", [Numeral.decimal stride]⟩
  | .shift offset => ⟨"shift", [Numeral.decimal offset]⟩
  | .rotate speed => ⟨"rotate", [Decimal.display speed]⟩
  | .bounce speed after => ⟨"bounce", [Decimal.display speed, Numeral.decimal after]⟩

/-- A filter of the standard catalog around a node: the stage that it is written as, the inner
node, and the node that is made.
-/
inductive Wraps : Stage → Node → Node → Prop where
  | flip (inner : Node) : Wraps ⟨"flip", []⟩ inner (.flip inner)
  | remap {rule : Remap.Rule} {inner : Node} (fits : rule.Fits inner.count)
    : Wraps rule.stage inner (.remap (Remap.Table.initial rule inner.count) inner)
  | solid (color : Color) (inner : Node)
    : Wraps ⟨"solid", [color.display]⟩ inner (.solid color inner)
  | gradient (start goal : Color) (inner : Node)
    : Wraps ⟨"gradient", [start.display, goal.display]⟩ inner (.gradient start goal inner)
  | sparkle (color : Color) {onMean offMean : Nat} (seed : UInt64) (inner : Node)
    (hon : onMean < Numeral.wordLimit) (hoff : offMean < Numeral.wordLimit)
    : Wraps
        ⟨"sparkle",
          [color.display, Numeral.decimal onMean, Numeral.decimal offMean,
            Numeral.decimal seed.toNat]⟩
        inner (Node.sparkling color onMean offMean seed inner)
  | nav {margin : Nat} (inner : Node) (word : margin < Numeral.wordLimit)
    : Wraps ⟨"nav", [Numeral.decimal margin]⟩ inner (.nav margin inner)

/-- The names of all types of filters. -/
def filterNames : List String :=
  ["flip", "random", "skip", "shift", "rotate", "bounce", "solid", "gradient", "sparkle", "nav"]

theorem Remap.Rule.display_stage (rule : Remap.Rule) : rule.stage.display = rule.display := by
  rw [← String.toList_inj, Stage.toList_display]
  cases rule with
  | random seed => simp [stage, display]
  | skip stride => simp [stage, display]
  | shift offset => simp [stage, display]
  | rotate speed => simp [stage, display]
  | bounce speed after => simp [stage, display, toString]

namespace Wraps

variable {stage : Stage} {inner node : Node}

/-- A filter node is described by its stage in front of the description of the inner node. -/
theorem describe_eq (wraps : Wraps stage inner node)
    : node.describe = stage.display ++ "|" ++ inner.describe := by
  rw [← String.toList_inj, String.toList_append, String.toList_append, Stage.toList_display]
  cases wraps with
  | flip => simp [Node.describe]
  | remap fits =>
      rw [Node.describe, Remap.Table.rule_initial, ← Remap.Rule.display_stage, String.toList_append,
        String.toList_append, Stage.toList_display]
  | solid color => simp [Node.describe]
  | gradient start goal => simp [Node.describe]
  | sparkle color seed _ hon hoff =>
      simp [Node.describe, Node.sparkling, Sparkle.display, Sparkle.start, toString]
  | nav _ word => simp [Node.describe]

/-- The arguments of the stage are plain. -/
theorem plain_of_mem_args (wraps : Wraps stage inner node)
    : ∀ arg ∈ stage.args, Plain arg := by
  have number : ∀ n : Nat, Plain (Numeral.decimal n) := Descriptor.plain_decimal
  have color : ∀ c : Color, Plain c.display := Descriptor.plain_color
  cases wraps with
  | flip => simp
  | @remap rule _ fits =>
      cases rule with
      | random seed => simp [Remap.Rule.stage, number]
      | skip stride => simp [Remap.Rule.stage, number]
      | shift offset => simp [Remap.Rule.stage, number]
      | rotate speed =>
          have float := Descriptor.plain_display fits
          simp [Remap.Rule.stage, float]
      | bounce speed after =>
          have float := Descriptor.plain_display fits.1
          simp [Remap.Rule.stage, float, number]
  | solid c => simp [color]
  | gradient start goal => simp [color]
  | sparkle c seed _ hon hoff => simp [color, number]
  | nav _ word => simp [number]

/-- The name of the stage is that of a type. -/
theorem name_mem (wraps : Wraps stage inner node) : stage.name ∈ filterNames := by
  unfold filterNames
  cases wraps with
  | @remap rule _ fits => cases rule <;> simp [Remap.Rule.stage]
  | flip => simp
  | solid c => simp
  | gradient start goal => simp
  | sparkle c seed _ hon hoff => simp
  | nav _ word => simp

/-- The stage is read back from its written form. -/
theorem wellFormed (wraps : Wraps stage inner node) : stage.WellFormed := by
  have names : ∀ name ∈ filterNames,
      name ≠ "" ∧ name.toList.all Descriptor.isNameChar = true := by
    decide
  have name := names stage.name wraps.name_mem
  exact .of_plain name.1 name.2 wraps.plain_of_mem_args

end Wraps

-----------------------------------------------------------------------------------------
-- Making filters again
-----------------------------------------------------------------------------------------

/-- A stage with the name of a filter type applies the maker of that type. -/
theorem Catalog.applyFilter_eq_ok {catalog : Catalog} {name : String} {args : List String}
    {wrap : List String → Node → Making Node} {inner : Node} {supply : SeedSupply}
    {result : Node × SeedSupply}
    (found : (catalog.find? name).map Entry.maker = some (.filter wrap))
    : catalog.applyFilter ⟨name, args⟩ inner supply = .ok result
      ↔ wrap args inner supply = .ok result := by
  obtain ⟨entry, entered, filter⟩ := Option.map_eq_some_iff.mp found
  simp only [applyFilter, entered, filter, Building.ofMaking]
  cases wrap args inner supply with
  | error fault => simp [Except.mapError]
  | ok found => simp [Except.mapError]

namespace Standard

open Arguments

variable {args : List String} {inner node : Node} {supply supply' : SeedSupply}

/-- A number of arguments within bounds is let through. -/
theorem requireCount_eq_ok {least most : Nat}
    : requireCount least most args = .ok () ↔ least ≤ args.length ∧ args.length ≤ most := by
  unfold requireCount
  split
  · next outside =>
      constructor
      · intro ok
        cases ok
      · omega
  · next inside =>
      constructor
      · omega
      · intro _
        rfl

/-- A renumbering filter is made exactly if its rule applies to the inner node. -/
theorem remap_eq_ok {rule : Remap.Rule}
    : remap rule inner supply = .ok (node, supply')
      ↔ rule.check inner.count = .ok ()
        ∧ node = .remap (Remap.Table.initial rule inner.count) inner ∧ supply = supply' := by
  rw [remap, lift_eq_ok, Node.remapped, Remap.Table.make]
  cases rule.check inner.count with
  | error fault => simp [bind, Except.bind, Except.mapError]
  | ok done => simp [bind, Except.bind, Except.mapError, pure, Except.pure, eq_comm]

theorem seed_decimal (seed : UInt64) (supply : SeedSupply)
    : Arguments.seed (some (Numeral.decimal seed.toNat)) supply = .ok (seed, supply) := by
  have word := Descriptor.word_decimal (n := seed.toNat) seed.toNat_lt "seed"
  rw [Arguments.seed, word]
  change Except.ok (UInt64.ofNat seed.toNat, supply) = _
  rw [UInt64.ofNat_toNat]

/-- A number of arguments within bounds uses up no seed. -/
theorem lift_requireCount {least most : Nat} (inside : least ≤ args.length ∧ args.length ≤ most)
    (supply : SeedSupply)
    : (liftM (requireCount least most args) : Making Unit) supply = .ok ((), supply) :=
  lift_eq_ok.mpr ⟨requireCount_eq_ok.mpr inside, rfl⟩

theorem lift_word {n : Nat} (below : n < Numeral.wordLimit) (what : String) (supply : SeedSupply)
    : (liftM (Arguments.word what (Numeral.decimal n)) : Making Nat) supply = .ok (n, supply) :=
  lift_eq_ok.mpr ⟨Descriptor.word_decimal below what, rfl⟩

theorem lift_color (c : Color) (supply : SeedSupply)
    : (liftM (Arguments.color c.display) : Making Color) supply = .ok (c.rounded, supply) :=
  lift_eq_ok.mpr ⟨Descriptor.color_display c, rfl⟩

/-- An offset of either sign makes a filter, which has what is left of the offset when it goes
around the strip.
-/
theorem shift_of_read {text : String} {offset : Int}
    (found : read Numeral.signed? "offset" text = .ok offset) (inner : Node) (supply : SeedSupply)
    : shift [text] inner supply
      = .ok
          (.remap
            (Remap.Table.initial (.shift (offset % (max inner.count 1 : Nat)).toNat) inner.count)
            inner, supply) := by
  have arity : (liftM (requireCount 1 1 [text]) : Making Unit) supply = .ok ((), supply) :=
    lift_requireCount (by simp) supply
  rw [shift, List.getElem?_cons_zero, Option.getD_some]
  exact bind_eq_ok.mpr ⟨(), supply, arity, bind_eq_ok.mpr
    ⟨offset, supply, lift_eq_ok.mpr ⟨found, rfl⟩, remap_eq_ok.mpr ⟨rfl, rfl, rfl⟩⟩⟩

/-- A written offset makes a filter exactly if a signed word can hold it, and then the filter has
what is left of the offset when it goes around the strip.
-/
theorem shift_decimal_eq_ok {offset : Nat}
    : shift [Numeral.decimal offset] inner supply = .ok (node, supply')
      ↔ offset < Numeral.signedLimit
        ∧ node
          = .remap (Remap.Table.initial (.shift (offset % max inner.count 1)) inner.count) inner
        ∧ supply = supply' := by
  have found := (Descriptor.plain_decimal offset).read_eq_elim Numeral.signed? "offset"
  have around : ((offset : Int) % (max inner.count 1 : Nat)).toNat
      = offset % max inner.count 1 := by
    rw [← Int.natCast_mod, Int.toNat_natCast]
  rw [Numeral.signed?_decimal_eq] at found
  by_cases below : offset < Numeral.signedLimit
  · rw [if_pos below] at found
    rw [shift_of_read found, around, Except.ok.injEq, Prod.mk.injEq, @eq_comm _ _ node]
    exact (and_iff_right below).symm
  · rw [if_neg below] at found
    constructor
    · intro made
      obtain ⟨_, _, _, made⟩ := bind_eq_ok.mp made
      obtain ⟨_, _, same, _⟩ := bind_eq_ok.mp made
      have same := (lift_eq_ok.mp same).1
      rw [List.getElem?_cons_zero, Option.getD_some, found] at same
      cases same
    · rintro ⟨small, _⟩
      exact absurd small below

/-- A rule that fits a node is made again around the node from its written arguments. -/
theorem applyFilter_stage {rule : Remap.Rule} (inner : Node) (fits : rule.Fits inner.count)
    (small : inner.count ≤ Numeral.signedLimit) (supply : SeedSupply)
    : Catalog.standard.applyFilter rule.stage inner supply
      = .ok (.remap (Remap.Table.initial rule inner.count) inner, supply) := by
  have made : remap rule inner supply
      = .ok (.remap (Remap.Table.initial rule inner.count) inner, supply) :=
    remap_eq_ok.mpr ⟨fits.applies, rfl, rfl⟩
  have count {least most : Nat} {args : List String}
      (inside : least ≤ args.length ∧ args.length ≤ most) :=
    lift_requireCount inside supply
  cases rule with
  | random seed =>
      have entered : (Catalog.standard.find? "random").map Entry.maker = some (.filter random) := by
        rfl
      rw [Remap.Rule.stage]
      refine (Catalog.applyFilter_eq_ok entered).mpr ?_
      exact bind_eq_ok.mpr ⟨(), supply, count (by simp),
        bind_eq_ok.mpr ⟨seed, supply, seed_decimal seed supply, made⟩⟩
  | skip stride =>
      have entered : (Catalog.standard.find? "skip").map Entry.maker = some (.filter skip) := by
        rfl
      rw [Remap.Rule.stage]
      refine (Catalog.applyFilter_eq_ok entered).mpr ?_
      exact bind_eq_ok.mpr ⟨(), supply, count (by simp),
        bind_eq_ok.mpr ⟨stride, supply, lift_word fits.2 "stride" supply, made⟩⟩
  | shift offset =>
      have below : offset < max inner.count 1 := fits
      have signed : offset < Numeral.signedLimit := by
        have one : 1 < Numeral.signedLimit := by decide
        omega
      have entered : (Catalog.standard.find? "shift").map Entry.maker = some (.filter shift) := by
        rfl
      have around : offset % max inner.count 1 = offset := Nat.mod_eq_of_lt below
      rw [Remap.Rule.stage]
      refine (Catalog.applyFilter_eq_ok entered).mpr (shift_decimal_eq_ok.mpr ⟨signed, ?_, rfl⟩)
      rw [around]
  | rotate speed =>
      have float := Descriptor.float_display fits "speed"
      have entered : (Catalog.standard.find? "rotate").map Entry.maker = some (.filter rotate) := by
        rfl
      rw [Remap.Rule.stage]
      refine (Catalog.applyFilter_eq_ok entered).mpr ?_
      exact bind_eq_ok.mpr ⟨(), supply, count (by simp),
        bind_eq_ok.mpr ⟨speed, supply, lift_eq_ok.mpr ⟨float, rfl⟩, made⟩⟩
  | bounce speed after =>
      have float := Descriptor.float_display fits.1 "speed"
      have word := lift_word fits.2.2.1 "after" supply
      have entered : (Catalog.standard.find? "bounce").map Entry.maker = some (.filter bounce) := by
        rfl
      rw [Remap.Rule.stage]
      refine (Catalog.applyFilter_eq_ok entered).mpr ?_
      exact bind_eq_ok.mpr ⟨(), supply, count (by simp),
        bind_eq_ok.mpr ⟨speed, supply, lift_eq_ok.mpr ⟨float, rfl⟩,
          bind_eq_ok.mpr ⟨after, supply, word, made⟩⟩⟩

end Standard

namespace Wraps

variable {stage : Stage} {inner node : Node}

open Arguments in
/-- The stage of a filter node makes the rounded filter node of the rounded inner node. It draws
no seed, for all of its arguments are written out.
-/
theorem applyFilter_rounded (wraps : Wraps stage inner node)
    (small : inner.count ≤ Numeral.signedLimit) (supply : SeedSupply)
    : Catalog.standard.applyFilter stage inner.rounded supply = .ok (node.rounded, supply) := by
  have count {least most : Nat} {args : List String}
      (inside : least ≤ args.length ∧ args.length ≤ most) :=
    Standard.lift_requireCount inside supply
  cases wraps with
  | flip =>
      have entered : (Catalog.standard.find? "flip").map Entry.maker
          = some (.filter Standard.flip) := by
        rfl
      refine (Catalog.applyFilter_eq_ok entered).mpr ?_
      exact bind_eq_ok.mpr ⟨(), supply, count (by simp), rfl⟩
  | remap fits =>
      have same := Standard.applyFilter_stage inner.rounded (by rwa [Node.count_rounded])
        (by rwa [Node.count_rounded]) supply
      rwa [Node.count_rounded] at same
  | solid c =>
      have entered : (Catalog.standard.find? "solid").map Entry.maker
          = some (.filter Standard.solid) := by
        rfl
      refine (Catalog.applyFilter_eq_ok entered).mpr ?_
      exact bind_eq_ok.mpr ⟨(), supply, count (by simp),
        bind_eq_ok.mpr ⟨c.rounded, supply, Standard.lift_color c supply, rfl⟩⟩
  | gradient start goal =>
      have entered : (Catalog.standard.find? "gradient").map Entry.maker
          = some (.filter Standard.gradient) := by
        rfl
      refine (Catalog.applyFilter_eq_ok entered).mpr ?_
      exact bind_eq_ok.mpr ⟨(), supply, count (by simp),
        bind_eq_ok.mpr ⟨start.rounded, supply, Standard.lift_color start supply,
          bind_eq_ok.mpr ⟨goal.rounded, supply, Standard.lift_color goal supply, rfl⟩⟩⟩
  | @sparkle c onMean offMean seed _ hon hoff =>
      have entered : (Catalog.standard.find? "sparkle").map Entry.maker
          = some (.filter Standard.sparkle) := by
        rfl
      have made : (Node.sparkling c onMean offMean seed inner).rounded
          = Node.sparkling c.rounded onMean offMean seed inner.rounded := by
        simp only [Node.sparkling, Node.rounded, Node.count_rounded]
        rfl
      rw [made]
      refine (Catalog.applyFilter_eq_ok entered).mpr ?_
      exact bind_eq_ok.mpr ⟨(), supply, count (by simp),
        bind_eq_ok.mpr ⟨c.rounded, supply, Standard.lift_color c supply,
          bind_eq_ok.mpr ⟨onMean, supply, Standard.lift_word hon "on time" supply,
            bind_eq_ok.mpr ⟨offMean, supply, Standard.lift_word hoff "off time" supply,
              bind_eq_ok.mpr ⟨seed, supply, Standard.seed_decimal seed supply, rfl⟩⟩⟩⟩⟩
  | @nav margin _ below =>
      have entered : (Catalog.standard.find? "nav").map Entry.maker
          = some (.filter Standard.nav) := by
        rfl
      refine (Catalog.applyFilter_eq_ok entered).mpr ?_
      exact bind_eq_ok.mpr ⟨(), supply, count (by simp),
        bind_eq_ok.mpr ⟨margin, supply, Standard.lift_word below "margin" supply, rfl⟩⟩

end Wraps

-----------------------------------------------------------------------------------------
-- What filters can be made
-----------------------------------------------------------------------------------------

namespace Arguments

/-- A word that was read is below the limit of words. -/
theorem lt_of_word {what argument : String} {n : Nat}
    (read : Arguments.read Numeral.word? what argument = .ok n)
    : n < Numeral.wordLimit := by
  unfold Arguments.read at read
  cases found : Numeral.word? (Text.trim (Text.unquote argument)) with
  | none => rw [found] at read; cases read
  | some m =>
      rw [found] at read
      cases read
      exact Numeral.lt_of_word? found

/-- A word that may be missing is below the limit of words if its default is. -/
theorem lt_of_readOr {what : String} {default n : Nat} {argument? : Option String}
    (small : default < Numeral.wordLimit)
    (read : readOr Numeral.word? what default argument? = .ok n)
    : n < Numeral.wordLimit := by
  cases argument? with
  | none => cases read; exact small
  | some argument => exact lt_of_word read

end Arguments

namespace Standard

variable {args : List String} {inner node : Node} {supply supply' : SeedSupply}

/-- Each maker of a filter checks its arguments for what their written form has to keep. -/
theorem flip_wraps (made : flip args inner supply = .ok (node, supply'))
    : ∃ stage, Wraps stage inner node := by
  obtain ⟨_, _, _, rest⟩ := bind_eq_ok.mp made
  obtain ⟨rfl, _⟩ := pure_eq_ok.mp rest
  exact ⟨_, .flip inner⟩

theorem remap_wraps {rule : Remap.Rule}
    (fits : rule.check inner.count = .ok () → rule.Fits inner.count)
    (made : remap rule inner supply = .ok (node, supply'))
    : ∃ stage, Wraps stage inner node := by
  obtain ⟨applies, rfl, _⟩ := remap_eq_ok.mp made
  exact ⟨_, .remap (fits applies)⟩

theorem random_wraps (made : random args inner supply = .ok (node, supply'))
    : ∃ stage, Wraps stage inner node := by
  obtain ⟨_, _, _, rest⟩ := bind_eq_ok.mp made
  obtain ⟨seed, _, _, last⟩ := bind_eq_ok.mp rest
  have fits : (Remap.Rule.random seed).Fits inner.count := trivial
  exact remap_wraps (fun _ => fits) last

theorem skip_wraps (made : skip args inner supply = .ok (node, supply'))
    : ∃ stage, Wraps stage inner node := by
  obtain ⟨_, _, _, rest⟩ := bind_eq_ok.mp made
  obtain ⟨stride, _, word, last⟩ := bind_eq_ok.mp rest
  have below := Arguments.lt_of_word (lift_eq_ok.mp word).1
  exact remap_wraps (Remap.Rule.fits_skip below) last

theorem shift_wraps (made : shift args inner supply = .ok (node, supply'))
    : ∃ stage, Wraps stage inner node := by
  obtain ⟨_, _, _, rest⟩ := bind_eq_ok.mp made
  obtain ⟨offset, _, _, last⟩ := bind_eq_ok.mp rest
  refine remap_wraps ?_ last
  intro _
  have least := Int.emod_nonneg offset (b := (max inner.count 1 : Nat)) (by omega)
  have most := Int.emod_lt_of_pos offset (b := (max inner.count 1 : Nat)) (by omega)
  change (offset % (max inner.count 1 : Nat)).toNat < max inner.count 1
  omega

theorem rotate_wraps (made : rotate args inner supply = .ok (node, supply'))
    : ∃ stage, Wraps stage inner node := by
  obtain ⟨_, _, _, rest⟩ := bind_eq_ok.mp made
  obtain ⟨speed, _, _, last⟩ := bind_eq_ok.mp rest
  exact remap_wraps Remap.Rule.fits_rotate last

theorem bounce_wraps (made : bounce args inner supply = .ok (node, supply'))
    : ∃ stage, Wraps stage inner node := by
  obtain ⟨_, _, _, rest⟩ := bind_eq_ok.mp made
  obtain ⟨speed, _, _, rest⟩ := bind_eq_ok.mp rest
  obtain ⟨after, _, word, last⟩ := bind_eq_ok.mp rest
  have below := Arguments.lt_of_readOr (by decide) (lift_eq_ok.mp word).1
  exact remap_wraps (Remap.Rule.fits_bounce below) last

theorem solid_wraps (made : solid args inner supply = .ok (node, supply'))
    : ∃ stage, Wraps stage inner node := by
  obtain ⟨_, _, _, rest⟩ := bind_eq_ok.mp made
  obtain ⟨color, _, _, last⟩ := bind_eq_ok.mp rest
  obtain ⟨rfl, _⟩ := pure_eq_ok.mp last
  exact ⟨_, .solid color inner⟩

theorem gradient_wraps (made : gradient args inner supply = .ok (node, supply'))
    : ∃ stage, Wraps stage inner node := by
  obtain ⟨_, _, _, rest⟩ := bind_eq_ok.mp made
  obtain ⟨start, _, _, rest⟩ := bind_eq_ok.mp rest
  obtain ⟨goal, _, _, last⟩ := bind_eq_ok.mp rest
  obtain ⟨rfl, _⟩ := pure_eq_ok.mp last
  exact ⟨_, .gradient start goal inner⟩

theorem sparkle_wraps (made : sparkle args inner supply = .ok (node, supply'))
    : ∃ stage, Wraps stage inner node := by
  obtain ⟨_, _, _, rest⟩ := bind_eq_ok.mp made
  obtain ⟨color, _, _, rest⟩ := bind_eq_ok.mp rest
  obtain ⟨onMean, _, onWord, rest⟩ := bind_eq_ok.mp rest
  obtain ⟨offMean, _, offWord, rest⟩ := bind_eq_ok.mp rest
  obtain ⟨seed, _, _, last⟩ := bind_eq_ok.mp rest
  obtain ⟨rfl, _⟩ := pure_eq_ok.mp last
  have hon := Arguments.lt_of_readOr (by decide) (lift_eq_ok.mp onWord).1
  have hoff := Arguments.lt_of_readOr (by decide) (lift_eq_ok.mp offWord).1
  exact ⟨_, .sparkle color seed inner hon hoff⟩

theorem nav_wraps (made : nav args inner supply = .ok (node, supply'))
    : ∃ stage, Wraps stage inner node := by
  obtain ⟨_, _, _, rest⟩ := bind_eq_ok.mp made
  obtain ⟨margin, _, word, last⟩ := bind_eq_ok.mp rest
  obtain ⟨rfl, _⟩ := pure_eq_ok.mp last
  exact ⟨_, .nav inner (Arguments.lt_of_word (lift_eq_ok.mp word).1)⟩

end Standard

/-- Every entry of the standard catalog is a device or one of ten filters. -/
theorem Catalog.maker_of_mem_standard {entry : Entry} (member : entry ∈ Catalog.standard)
    : entry.maker ∈
        [ .device Standard.null, .device Standard.ck, .filter Standard.flip,
          .filter Standard.random, .filter Standard.skip, .filter Standard.shift,
          .filter Standard.rotate, .filter Standard.bounce, .filter Standard.solid,
          .filter Standard.gradient, .filter Standard.sparkle, .filter Standard.nav ] := by
  simp only [Catalog.standard, Catalog.builtIn, Catalog.supplies, List.cons_append,
    List.nil_append, List.mem_cons, List.not_mem_nil, or_false] at member
  rcases member with rfl | rfl | rfl | rfl | rfl | rfl | rfl | rfl | rfl | rfl | rfl | rfl
    <;> simp

/-- Whatever filter of the standard catalog is applied to a node wraps the node. -/
theorem exists_wraps_of_applyFilter {stage : Stage} {inner node : Node}
    {supply supply' : SeedSupply}
    (applied : Catalog.standard.applyFilter stage inner supply = .ok (node, supply'))
    : ∃ written, Wraps written inner node := by
  obtain ⟨name, args⟩ := stage
  cases found : Catalog.standard.find? name with
  | none =>
      simp only [Catalog.applyFilter, found] at applied
      cases applied
  | some entry =>
      have maker := Catalog.maker_of_mem_standard (List.mem_of_find?_eq_some found)
      cases filter : entry.maker with
      | device make =>
          simp only [Catalog.applyFilter, found, filter] at applied
          cases applied
      | filter wrap =>
          have made := (Catalog.applyFilter_eq_ok (by rw [found, Option.map_some, filter])).mp
            applied
          simp only [filter, List.mem_cons, List.not_mem_nil, or_false, reduceCtorEq, false_or,
            Maker.filter.injEq] at maker
          rcases maker with rfl | rfl | rfl | rfl | rfl | rfl | rfl | rfl | rfl | rfl
          · exact Standard.flip_wraps made
          · exact Standard.random_wraps made
          · exact Standard.skip_wraps made
          · exact Standard.shift_wraps made
          · exact Standard.rotate_wraps made
          · exact Standard.bounce_wraps made
          · exact Standard.solid_wraps made
          · exact Standard.gradient_wraps made
          · exact Standard.sparkle_wraps made
          · exact Standard.nav_wraps made

end PixelTree
