import Mathlib
import PixelTree.Discovery.Scan

/-! Discovery keeps the first reply of each supply. The supplies that are known behind some
arrivals are those that the arrivals told of, so that a reply that is repeated tells nothing new.
-/

namespace PixelTree.Discovery

open Kinet (DiscoverReply)

-----------------------------------------------------------------------------------------
-- Replies among arrivals
-----------------------------------------------------------------------------------------

/-- The reply that an arrival brings. -/
def Arrival.reply? (arrival : Arrival) : Option DiscoverReply :=
  (DiscoverReply.decode arrival.bytes).toOption

/-- Whether an arrival brings a reply of a supply. -/
def Arrival.tellsOf (supply : Identity) (arrival : Arrival) : Bool :=
  arrival.reply?.any (fun reply => identity reply == supply)

theorem Arrival.tellsOf_eq_false {arrival : Arrival} {supply : Identity}
    (others : ∀ reply, arrival.reply? = some reply → identity reply ≠ supply)
    : arrival.tellsOf supply = false := by
  rw [tellsOf]
  cases brought : arrival.reply? with
  | none => rfl
  | some reply => simpa using others reply brought

theorem Arrival.tellsOf_self {arrival : Arrival} {reply : DiscoverReply}
    (brought : arrival.reply? = some reply)
    : arrival.tellsOf (identity reply) = true := by
  simp [tellsOf, brought]

/-- How many datagrams arrive before the first reply of a supply. -/
def place (arrivals : List Arrival) (supply : Identity) : Nat :=
  arrivals.findIdx (Arrival.tellsOf supply)

/-- No reply of the same supply arrives before the arrival that brings this one. -/
def IsFirst (arrivals : List Arrival) (reply : DiscoverReply) : Prop :=
  ∃ front arrival back,
    arrivals = front ++ arrival :: back
    ∧ arrival.reply? = some reply
    ∧ ∀ earlier ∈ front, earlier.tellsOf (identity reply) = false

section Silent

variable {arrival : Arrival} {rest : List Arrival}

theorem place_cons {supply : Identity} (silent : arrival.tellsOf supply = false)
    : place (arrival :: rest) supply = place rest supply + 1 := by
  rw [place, List.findIdx_cons, silent]
  rfl

theorem IsFirst.cons {reply : DiscoverReply} (isFirst : IsFirst rest reply)
    (silent : arrival.tellsOf (identity reply) = false)
    : IsFirst (arrival :: rest) reply := by
  obtain ⟨front, bringer, back, rfl, brought, before⟩ := isFirst
  exact ⟨arrival :: front, bringer, back, rfl, brought, List.forall_mem_cons.mpr ⟨silent, before⟩⟩

end Silent

-----------------------------------------------------------------------------------------
-- The replies that are kept
-----------------------------------------------------------------------------------------

/-- Some replies are those of all supplies that are not known already: the first one of each, in
the order in which these arrive.
-/
structure Firsts (known : List Identity) (arrivals : List Arrival) (kept : List DiscoverReply)
    : Prop where
  unknown : ∀ reply ∈ kept, identity reply ∉ known
  distinct : (kept.map identity).Nodup
  complete
    : ∀ arrival ∈ arrivals, ∀ reply, arrival.reply? = some reply →
        identity reply ∈ known ∨ identity reply ∈ kept.map identity
  first : ∀ reply ∈ kept, IsFirst arrivals reply
  ordered
    : kept.Pairwise (fun earlier later =>
        place arrivals (identity earlier) < place arrivals (identity later))

namespace Firsts

variable {known : List Identity} {arrival : Arrival} {rest : List Arrival}
  {kept : List DiscoverReply}

theorem nil (known : List Identity) : Firsts known [] [] := by
  constructor <;> simp

/-- In front of the first replies, an arrival that tells of none of their supplies only moves them
on by one place.
-/
theorem ordered_cons (firsts : Firsts known rest kept)
    (silent : ∀ reply ∈ kept, arrival.tellsOf (identity reply) = false)
    : kept.Pairwise (fun earlier later =>
        place (arrival :: rest) (identity earlier) < place (arrival :: rest) (identity later)) := by
  refine firsts.ordered.imp_of_mem ?_
  intro earlier later inKept inKept' before
  rw [place_cons (silent earlier inKept), place_cons (silent later inKept')]
  exact Nat.succ_lt_succ before

/-- An arrival that tells of no unknown supply changes nothing. -/
theorem skip (firsts : Firsts known rest kept)
    (old : ∀ reply, arrival.reply? = some reply → identity reply ∈ known)
    : Firsts known (arrival :: rest) kept := by
  have silent : ∀ reply ∈ kept, arrival.tellsOf (identity reply) = false := by
    intro reply inKept
    refine Arrival.tellsOf_eq_false ?_
    intro other brought same
    exact firsts.unknown reply inKept (same ▸ old other brought)
  exact {
    unknown := firsts.unknown
    distinct := firsts.distinct
    complete := List.forall_mem_cons.mpr
      ⟨fun reply brought => Or.inl (old reply brought), firsts.complete⟩
    first := fun reply inKept => (firsts.first reply inKept).cons (silent reply inKept)
    ordered := firsts.ordered_cons silent
  }

/-- The reply of an unknown supply stands in front of the first replies of the others. -/
theorem keep {reply : DiscoverReply} (firsts : Firsts (identity reply :: known) rest kept)
    (brought : arrival.reply? = some reply) (new : identity reply ∉ known)
    : Firsts known (arrival :: rest) (reply :: kept) := by
  have others : ∀ other ∈ kept, identity other ≠ identity reply := by
    intro other inKept same
    exact firsts.unknown other inKept (same ▸ List.mem_cons_self)
  have silent : ∀ other ∈ kept, arrival.tellsOf (identity other) = false := by
    intro other inKept
    refine Arrival.tellsOf_eq_false ?_
    intro found sameReply
    obtain rfl := Option.some.inj (brought.symm.trans sameReply)
    exact (others other inKept).symm
  refine {
    unknown := List.forall_mem_cons.mpr ⟨new, ?_⟩
    distinct := List.nodup_cons.mpr ⟨?_, firsts.distinct⟩
    complete := List.forall_mem_cons.mpr ⟨?_, ?_⟩
    first := List.forall_mem_cons.mpr ⟨⟨[], arrival, rest, rfl, brought, by simp⟩, ?_⟩
    ordered := List.pairwise_cons.mpr ⟨?_, firsts.ordered_cons silent⟩
  }
  · intro other inKept inKnown
    exact firsts.unknown other inKept (List.mem_cons_of_mem _ inKnown)
  · intro member
    obtain ⟨other, inKept, same⟩ := List.mem_map.mp member
    exact others other inKept same
  · intro found sameReply
    obtain rfl := Option.some.inj (brought.symm.trans sameReply)
    exact Or.inr List.mem_cons_self
  · intro later member found sameReply
    rcases firsts.complete later member found sameReply with inKnown | inKept
    · rcases List.mem_cons.mp inKnown with same | inKnown
      · exact Or.inr (same ▸ List.mem_cons_self)
      · exact Or.inl inKnown
    · exact Or.inr (List.mem_cons_of_mem _ inKept)
  · intro other inKept
    exact (firsts.first other inKept).cons (silent other inKept)
  · intro other inKept
    rw [place_cons (silent other inKept), place, List.findIdx_cons, Arrival.tellsOf_self brought]
    exact Nat.succ_pos _

end Firsts

/-- A reply is kept exactly if its supply is unknown, and its supply is known from then on. -/
theorem newReplies_cons (known : List Identity) (arrival : Arrival) (rest : List Arrival)
    : newReplies known (arrival :: rest)
      = match arrival.reply? with
        | none => newReplies known rest
        | some reply =>
          if identity reply ∈ known then newReplies known rest
          else reply :: newReplies (identity reply :: known) rest := by
  rw [newReplies, Arrival.reply?]
  cases DiscoverReply.decode arrival.bytes <;> rfl

/-- The replies that are kept are the first ones, by induction over the arrivals. -/
theorem firsts_newReplies (known : List Identity) (arrivals : List Arrival)
    : Firsts known arrivals (newReplies known arrivals) := by
  induction arrivals generalizing known with
  | nil => exact .nil known
  | cons arrival rest ih =>
      rw [newReplies_cons]
      cases brought : arrival.reply? with
      | none => exact (ih known).skip (by simp [brought])
      | some reply =>
          by_cases old : identity reply ∈ known
          · simp only [if_pos old]
            exact (ih known).skip (by simp [brought, old])
          · simp only [if_neg old]
            exact (ih (identity reply :: known)).keep brought old

-----------------------------------------------------------------------------------------
-- Arrivals that tell nothing new
-----------------------------------------------------------------------------------------

/-- One more datagram arrives that tells nothing new: at any time one that is no reply, or one that
arrived before.
-/
inductive NothingNew : List Arrival → List Arrival → Prop where
  | noise (front : List Arrival) {arrival : Arrival} (back : List Arrival)
    (unread : (DiscoverReply.decode arrival.bytes).isOk = false)
    : NothingNew (front ++ back) (front ++ arrival :: back)
  | again (front : List Arrival) {arrival repeated : Arrival} (between back : List Arrival)
    (same : repeated.datagram = arrival.datagram)
    : NothingNew (front ++ arrival :: (between ++ back))
        (front ++ arrival :: (between ++ repeated :: back))

/-- The supplies that some arrivals tell of. -/
def toldOf (arrivals : List Arrival) : List Identity :=
  (arrivals.filterMap Arrival.reply?).map identity

/-- It only matters which supplies are known, not how often and in which order they came to be
known.
-/
theorem newReplies_congr {known known' : List Identity}
    (same : ∀ supply, supply ∈ known ↔ supply ∈ known') (arrivals : List Arrival)
    : newReplies known arrivals = newReplies known' arrivals := by
  induction arrivals generalizing known known' with
  | nil => rfl
  | cons arrival rest ih =>
      rw [newReplies_cons, newReplies_cons]
      cases arrival.reply? with
      | none => exact ih same
      | some reply =>
          have more : ∀ supply,
              supply ∈ identity reply :: known ↔ supply ∈ identity reply :: known' := by
            intro supply
            rw [List.mem_cons, List.mem_cons, same]
          simp only [same, ih same, ih more]

/-- Behind some arrivals the supplies that they told of are known, by induction over them. -/
theorem newReplies_append (known : List Identity) (front back : List Arrival)
    : newReplies known (front ++ back)
      = newReplies known front ++ newReplies (toldOf front ++ known) back := by
  induction front generalizing known with
  | nil => rfl
  | cons arrival rest ih =>
      rw [List.cons_append, newReplies_cons, newReplies_cons]
      cases brought : arrival.reply? with
      | none => rw [toldOf, List.filterMap_cons_none brought]; exact ih known
      | some reply =>
          rw [toldOf, List.filterMap_cons_some brought, List.map_cons, List.cons_append]
          by_cases old : identity reply ∈ known
          · have same : ∀ supply,
                supply ∈ toldOf rest ++ known
                  ↔ supply ∈ identity reply :: (toldOf rest ++ known) := by
              intro supply
              simp only [List.mem_cons, List.mem_append]
              constructor
              · exact Or.inr
              · rintro (rfl | member)
                · exact Or.inr old
                · exact member
            simp only [if_pos old, ih]
            exact congrArg _ (newReplies_congr same back)
          · have same : ∀ supply,
                supply ∈ toldOf rest ++ identity reply :: known
                  ↔ supply ∈ identity reply :: (toldOf rest ++ known) := by
              intro supply
              simp only [List.mem_cons, List.mem_append]
              exact or_left_comm
            simp only [if_neg old, ih, List.cons_append]
            exact congrArg _ (congrArg _ (newReplies_congr same back))

/-- An arrival that tells of no new supply may as well be missing. -/
theorem replies_insert (front : List Arrival) {arrival : Arrival} (back : List Arrival)
    (old : ∀ reply, arrival.reply? = some reply → identity reply ∈ toldOf front)
    : replies (front ++ arrival :: back) = replies (front ++ back) := by
  rw [replies, newReplies_append, newReplies_cons, replies, newReplies_append]
  cases brought : arrival.reply? with
  | none => rfl
  | some reply =>
      have known := List.mem_append_left [] (old reply brought)
      simp only [if_pos known]

theorem replies_of_nothingNew {heard more : List Arrival} (step : NothingNew heard more)
    : replies more = replies heard := by
  cases step with
  | @noise front arrival back unread =>
      refine replies_insert front back ?_
      intro reply brought
      rw [Arrival.reply?] at brought
      cases decoded : DiscoverReply.decode arrival.bytes with
      | error fault => rw [decoded] at brought; cases brought
      | ok found => rw [decoded] at unread; cases unread
  | @again front arrival repeated between back same =>
      have replySame : repeated.reply? = arrival.reply? := by
        rw [Arrival.reply?, Arrival.reply?, Arrival.bytes, Arrival.bytes, same]
      have old : ∀ reply, repeated.reply? = some reply →
          identity reply ∈ toldOf (front ++ arrival :: between) := by
        intro reply brought
        rw [replySame] at brought
        refine List.mem_map_of_mem (List.mem_filterMap.mpr ⟨arrival, ?_, brought⟩)
        exact List.mem_append_right _ List.mem_cons_self
      have inserted := replies_insert (front ++ arrival :: between) back old
      simpa only [List.append_assoc, List.cons_append] using inserted

/-- Datagrams that tell nothing new change nothing, by induction over them. -/
theorem replies_of_more {heard more : List Arrival}
    (steps : Relation.ReflTransGen NothingNew heard more)
    : replies more = replies heard := by
  induction steps with
  | refl => rfl
  | tail _ step ih => exact (replies_of_nothingNew step).trans ih

-----------------------------------------------------------------------------------------
-- Asking who is there
-----------------------------------------------------------------------------------------

/-- The question that every supply answers. -/
def discovery (settings : Settings) (targets : List Net.Ipv4) : Question where
  datagram := Kinet.request .discover 0
  targets := targets.map (fun ip => ⟨ip, settings.port⟩)
  broadcast := true
  window := settings.timeout
  last := fun _ => false

variable {σ : Type}

/-- The addresses that the question goes to. -/
def targets (air : Airwaves (StateM σ)) (settings : Settings) : StateM σ (List Net.Ipv4) :=
  match settings.broadcast with
  | some ip => return [ip]
  | none => air.interfaces

/-- The question goes out to those targets that can be reached, and some datagrams arrive before
its window closes.
-/
def HearsReplies (air : Airwaves (StateM σ)) (settings : Settings) (s : σ)
    (heard : List Arrival) (s' : σ)
    : Prop :=
  ∃ found between refused,
    (targets air settings).run s = (found, between)
    ∧ (air.ask (discovery settings found)).run between = (.ok ⟨refused, heard⟩, s')

theorem discover_run {air : Airwaves (StateM σ)} {settings : Settings} {s s' : σ}
    {heard : List Arrival} (hears : HearsReplies air settings s heard s')
    : (discover air settings).run s = (.ok (replies heard), s') := by
  obtain ⟨found, between, refused, aimed, asked⟩ := hears
  unfold targets at aimed
  unfold discovery at asked
  rw [discover]
  cases broadcast : settings.broadcast with
  | some ip =>
      rw [broadcast] at aimed
      cases aimed
      dsimp only
      rw [pure_bind, StateT.run_bind, asked]
      rfl
  | none =>
      rw [broadcast] at aimed
      change StateT.run (air.interfaces >>= _) s = _
      rw [StateT.run_bind, aimed]
      change StateT.run (air.ask _ >>= _) between = _
      rw [StateT.run_bind, asked]
      rfl

/-- Discovery keeps exactly one reply of each supply that is heard, the first one, in the order in
which the supplies are first heard. More datagrams that are no replies or that arrived before do
not change this, wherever and however often they arrive.
-/
theorem discover_keeps_first_replies {air : Airwaves (StateM σ)} {settings : Settings} {s s' : σ}
    {heard : List Arrival} (hears : HearsReplies air settings s heard s')
    : ∃ kept,
        (discover air settings).run s = (.ok kept, s')
        ∧ Firsts [] heard kept
        ∧ ∀ more, Relation.ReflTransGen NothingNew heard more →
            ∀ {noisy : Airwaves (StateM σ)} {t t' : σ},
              HearsReplies noisy settings t more t' →
                (discover noisy settings).run t = (.ok kept, t') := by
  refine ⟨replies heard, discover_run hears, firsts_newReplies [] heard, ?_⟩
  intro more steps noisy t t' hearsMore
  rw [discover_run hearsMore, replies_of_more steps]

/-- Two supplies with the same hardware address, the first of which answers again under another
name.
-/
theorem discover_keeps_two_supplies
    : ∃ (heard : List Arrival) (air : Airwaves (StateM Unit)) (kept : List DiscoverReply),
        heard.length = 4
        ∧ HearsReplies air .standard () heard ()
        ∧ (discover air .standard).run () = (.ok kept, ())
        ∧ Firsts [] heard kept
        ∧ kept.map DiscoverReply.name = ["left", "right"] := by
  let reply (last : UInt8) (name : String) : DiscoverReply :=
    ⟨⟨10, 0, 0, last⟩, ⟨#v[0, 10, 197, 1, 2, 3]⟩, 2, 42, 0, "", name⟩
  let arrival (datagram : List UInt8) : Arrival := ⟨⟨10, 0, 0, 9⟩, datagram⟩
  let heard : List Arrival :=
    [(reply 1 "left").encode, [4, 1, 220], (reply 2 "right").encode, (reply 1 "other").encode].map
      arrival
  let air : Airwaves (StateM Unit) :=
    { interfaces := return []
      ask := fun _ => return .ok ⟨[], heard⟩ }
  have hears : HearsReplies air .standard () heard () := ⟨[], (), [], rfl, rfl⟩
  obtain ⟨kept, found, firsts, _⟩ := discover_keeps_first_replies hears
  have names : (replies heard).map DiscoverReply.name = ["left", "right"] := by decide +kernel
  rw [discover_run hears] at found
  cases found
  exact ⟨heard, air, _, rfl, hears, discover_run hears, firsts, names⟩

end PixelTree.Discovery
