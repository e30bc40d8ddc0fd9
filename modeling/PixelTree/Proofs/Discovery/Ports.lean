import Mathlib
import PixelTree.Discovery.Scan

/-! What a supply is taken to have answered when it is asked for its ports. A supply of version 2
is believed from its last start on and up to its first end, one of version 1 as soon as it answers;
other datagrams may arrive at any time and change nothing.
-/

namespace PixelTree.Discovery

open Kinet (Port PortCounts Protocol ScanRecord)

-----------------------------------------------------------------------------------------
-- Answers
-----------------------------------------------------------------------------------------

/-- What is read off an arrival that came from a supply. -/
def Arrival.said? {α : Type} (read : Kinet.Bytes → Except Kinet.PacketError α) (ip : Net.Ipv4)
    (arrival : Arrival)
    : Option α :=
  if arrival.source = ip then (read arrival.bytes).toOption else none

def Arrival.record? (ip : Net.Ipv4) (arrival : Arrival) : Option ScanRecord :=
  arrival.said? ScanRecord.decode ip

def Arrival.counts? (ip : Net.Ipv4) (arrival : Arrival) : Option PortCounts :=
  arrival.said? PortCounts.decode ip

/-- An arrival from elsewhere says nothing, and neither does one that cannot be read. -/
theorem Arrival.said?_eq_none {α : Type} {read : Kinet.Bytes → Except Kinet.PacketError α}
    {ip : Net.Ipv4} {arrival : Arrival}
    (foreign : arrival.source ≠ ip ∨ (read arrival.bytes).isOk = false)
    : arrival.said? read ip = none := by
  rw [said?]
  rcases foreign with elsewhere | unread
  · exact if_neg elsewhere
  · cases decoded : read arrival.bytes with
    | error fault => exact ite_self none
    | ok found => rw [decoded] at unread; cases unread

def portOf? : ScanRecord → Option Port
  | .data port => some port
  | .start | .finish => none

/-- The records in front of the first end, if there is one. -/
def beforeEnd (records : List ScanRecord) : List ScanRecord :=
  records.takeWhile (· != .finish)

/-- The records behind the last start, if there is one. -/
def sinceStart (records : List ScanRecord) : List ScanRecord :=
  records.rtakeWhile (· != .start)

/-- The four ports of some light counts. -/
def numbered (reply : PortCounts) : List Port :=
  [⟨1, 0, reply.counts.get 0⟩, ⟨2, 0, reply.counts.get 1⟩, ⟨3, 0, reply.counts.get 2⟩,
    ⟨4, 0, reply.counts.get 3⟩]

/-- The ports that some arrivals tell of. For version 1 the first light counts of the supply
decide, for version 2 the data records between the last start in front of its first end and that
end.
-/
def told (ip : Net.Ipv4) : Protocol → List Arrival → List Port
  | .v1, arrivals => (arrivals.findSome? (Arrival.counts? ip)).elim [] numbered
  | .v2, arrivals =>
    (sinceStart (beforeEnd (arrivals.filterMap (Arrival.record? ip)))).filterMap portOf?

-----------------------------------------------------------------------------------------
-- What the readers make of the arrivals
-----------------------------------------------------------------------------------------

theorem portsOfCounts_eq (reply : PortCounts) : portsOfCounts reply = numbered reply := by
  obtain ⟨chromasic, ⟨⟨counts⟩, size⟩⟩ := reply
  match counts, size with
  | [a, b, c, d], _ => rfl

/-- Only light counts of the supply are looked at, and the first ones decide. -/
theorem countedPorts_cons (ip : Net.Ipv4) (arrival : Arrival) (rest : List Arrival)
    : countedPorts ip (arrival :: rest)
      = (arrival.counts? ip).elim (countedPorts ip rest) portsOfCounts := by
  rw [countedPorts, Arrival.counts?, Arrival.said?]
  by_cases own : arrival.source = ip
  · cases PortCounts.decode arrival.bytes <;> simp [own, Except.toOption]
  · simp [own]

/-- Only records of the supply are looked at. -/
theorem recordedPorts_cons (ip : Net.Ipv4) (found : List Port) (arrival : Arrival)
    (rest : List Arrival)
    : recordedPorts ip found (arrival :: rest)
      = match arrival.record? ip with
        | none => recordedPorts ip found rest
        | some .start => recordedPorts ip [] rest
        | some (.data port) => recordedPorts ip (found ++ [port]) rest
        | some .finish => found := by
  rw [recordedPorts, Arrival.record?, Arrival.said?]
  by_cases own : arrival.source = ip
  · rw [if_neg (by simpa using own), if_pos own]
    rcases ScanRecord.decode arrival.bytes with fault | record
    · rfl
    · cases record <;> rfl
  · rw [if_pos own, if_neg own]

theorem countedPorts_eq (ip : Net.Ipv4) (arrivals : List Arrival)
    : countedPorts ip arrivals = told ip .v1 arrivals := by
  induction arrivals with
  | nil => rfl
  | cons arrival rest ih =>
      rw [countedPorts_cons, ih, told, told, List.findSome?_cons]
      cases arrival.counts? ip with
      | none => rfl
      | some reply => exact portsOfCounts_eq reply

/-- The ports found so far are those of the records since the last start, by induction over what
arrives after these records.
-/
theorem recordedPorts_eq (ip : Net.Ipv4) (seen : List ScanRecord) (arrivals : List Arrival)
    : recordedPorts ip ((sinceStart seen).filterMap portOf?) arrivals
      = (sinceStart (seen ++ beforeEnd (arrivals.filterMap (Arrival.record? ip)))).filterMap
          portOf? := by
  induction arrivals generalizing seen with
  | nil => rw [recordedPorts, List.filterMap_nil, beforeEnd, List.takeWhile_nil, List.append_nil]
  | cons arrival rest ih =>
      rw [recordedPorts_cons, List.filterMap_cons]
      cases arrival.record? ip with
      | none => exact ih seen
      | some record =>
          cases record with
          | start =>
              have next := ih (seen ++ [.start])
              rw [sinceStart, List.rtakeWhile_concat_neg _ _ _ (by decide), List.filterMap_nil,
                List.append_assoc] at next
              exact next
          | data port =>
              have next := ih (seen ++ [.data port])
              rw [sinceStart, List.rtakeWhile_concat_pos _ _ _ rfl, List.filterMap_append,
                List.append_assoc] at next
              exact next
          | finish => simp [beforeEnd]

/-- What is read off some arrivals is what they tell. -/
theorem ports_eq_told (ip : Net.Ipv4) (protocol : Protocol) (arrivals : List Arrival)
    : ports ip protocol arrivals = told ip protocol arrivals := by
  cases protocol with
  | v1 => exact countedPorts_eq ip arrivals
  | v2 => exact recordedPorts_eq ip [] arrivals

-----------------------------------------------------------------------------------------
-- Arrivals that do not matter
-----------------------------------------------------------------------------------------

/-- Whether a datagram is an answer to the question for ports. -/
def decodes : Protocol → Kinet.Bytes → Bool
  | .v1, bytes => (PortCounts.decode bytes).isOk
  | .v2, bytes => (ScanRecord.decode bytes).isOk

/-- The datagrams that end the answers of a supply. -/
def Ends (ip : Net.Ipv4) : Protocol → Arrival → Prop
  | .v1, arrival => (arrival.counts? ip).isSome
  | .v2, arrival => arrival.record? ip = some .finish

/-- Waiting for others is pointless exactly behind a datagram that ends the answers. -/
theorem closesWindow_iff (ip : Net.Ipv4) (protocol : Protocol) (arrival : Arrival)
    : closesWindow ip (protocol == .v1) arrival = true ↔ Ends ip protocol arrival := by
  rw [closesWindow, Bool.and_eq_true, beq_iff_eq]
  by_cases own : arrival.source = ip
  · cases protocol with
    | v1 =>
        rw [Ends, Arrival.counts?, Arrival.said?, if_pos own]
        cases PortCounts.decode arrival.bytes <;>
          simp [own, Except.isOk, Except.toBool, Except.toOption]
    | v2 =>
        rw [Ends, Arrival.record?, Arrival.said?, if_pos own]
        cases ScanRecord.decode arrival.bytes with
        | error fault => simp [Except.toOption]
        | ok record => cases record <;> simp [own, Except.toOption]
  · cases protocol <;> simp [Ends, Arrival.counts?, Arrival.record?, Arrival.said?, own]

/-- One more datagram arrives that does not matter: at any time one that is no answer or comes from
elsewhere, and behind the end of the answers any datagram at all.
-/
inductive OneMore (ip : Net.Ipv4) (protocol : Protocol) : List Arrival → List Arrival → Prop where
  | noise (front : List Arrival) {arrival : Arrival} (back : List Arrival)
    (foreign : arrival.source ≠ ip ∨ decodes protocol arrival.bytes = false)
    : OneMore ip protocol (front ++ back) (front ++ arrival :: back)
  | late (front : List Arrival) {last : Arrival} (between : List Arrival) (arrival : Arrival)
    (back : List Arrival) (ends : Ends ip protocol last)
    : OneMore ip protocol (front ++ last :: (between ++ back))
        (front ++ last :: (between ++ arrival :: back))

/-- What stands behind the first end is not looked at, by induction over what stands before. -/
theorem beforeEnd_append_finish (front back : List ScanRecord)
    : beforeEnd (front ++ .finish :: back) = beforeEnd front := by
  unfold beforeEnd
  induction front with
  | nil => rfl
  | cons record rest ih => rw [List.cons_append, List.takeWhile_cons, List.takeWhile_cons, ih]

theorem told_of_oneMore {ip : Net.Ipv4} {protocol : Protocol} {heard more : List Arrival}
    (step : OneMore ip protocol heard more)
    : told ip protocol more = told ip protocol heard := by
  cases step with
  | @noise front arrival back foreign =>
      cases protocol with
      | v1 =>
          have silent : arrival.counts? ip = none := Arrival.said?_eq_none foreign
          simp only [told, List.findSome?_append, List.findSome?_cons, silent]
      | v2 =>
          have silent : arrival.record? ip = none := Arrival.said?_eq_none foreign
          simp only [told, List.filterMap_append, List.filterMap_cons, silent]
  | @late front last between arrival back ends =>
      cases protocol with
      | v1 =>
          obtain ⟨reply, found⟩ := Option.isSome_iff_exists.mp ends
          simp only [told, List.findSome?_append, List.findSome?_cons, found]
      | v2 =>
          have finish : last.record? ip = some .finish := ends
          simp only [told, List.filterMap_append, List.filterMap_cons, finish,
            beforeEnd_append_finish]

/-- Datagrams that do not matter change nothing, by induction over them. -/
theorem told_of_more {ip : Net.Ipv4} {protocol : Protocol} {heard more : List Arrival}
    (steps : Relation.ReflTransGen (OneMore ip protocol) heard more)
    : told ip protocol more = told ip protocol heard := by
  induction steps with
  | refl => rfl
  | tail _ step ih => exact (told_of_oneMore step).trans ih

-----------------------------------------------------------------------------------------
-- Asking a supply
-----------------------------------------------------------------------------------------

/-- The question that a supply is asked for its ports. -/
def enumeration (settings : Settings) (ip : Net.Ipv4) (protocol : Protocol) : Question where
  datagram := enumerationRequest protocol
  targets := [⟨ip, settings.port⟩]
  broadcast := false
  window := settings.timeout
  last := closesWindow ip (protocol == .v1)

variable {σ : Type}

/-- The question goes out, and some datagrams arrive before its window closes. -/
def HearsPorts (air : Airwaves (StateM σ)) (settings : Settings) (ip : Net.Ipv4)
    (protocol : Protocol) (s : σ) (heard : List Arrival) (s' : σ)
    : Prop :=
  (air.ask (enumeration settings ip protocol)).run s = (.ok ⟨[], heard⟩, s')

theorem enumerate_run {air : Airwaves (StateM σ)} {settings : Settings} {ip : Net.Ipv4}
    {protocol : Protocol} {s s' : σ} {heard : List Arrival}
    (hears : HearsPorts air settings ip protocol s heard s')
    : (enumerate air settings ip protocol).run s = (.ok (told ip protocol heard), s') := by
  rw [← ports_eq_told, enumerate, StateT.run_bind]
  have asked := hears
  unfold HearsPorts enumeration at asked
  rw [asked]
  rfl

/-- A supply that is asked for its ports has those that the datagrams in the window tell of. More
datagrams that come from elsewhere, that are no answers or that arrive behind the end of the
answers do not change this, wherever and however often they arrive, and only the end of the answers
makes waiting for others pointless.
-/
theorem enumerate_hears_supply {air : Airwaves (StateM σ)} {settings : Settings} {ip : Net.Ipv4}
    {protocol : Protocol} {s s' : σ} {heard : List Arrival}
    (hears : HearsPorts air settings ip protocol s heard s')
    : (enumerate air settings ip protocol).run s = (.ok (told ip protocol heard), s')
      ∧ (∀ more, Relation.ReflTransGen (OneMore ip protocol) heard more →
          ∀ {noisy : Airwaves (StateM σ)} {t t' : σ},
            HearsPorts noisy settings ip protocol t more t' →
              (enumerate noisy settings ip protocol).run t
                = (.ok (told ip protocol heard), t'))
      ∧ ∀ arrival,
          (enumeration settings ip protocol).last arrival = true ↔ Ends ip protocol arrival := by
  refine ⟨enumerate_run hears, ?_, closesWindow_iff ip protocol⟩
  intro more steps noisy t t' hearsMore
  rw [enumerate_run hearsMore, told_of_more steps]

/-- A supply starts again after its first port: only the second one counts. -/
theorem enumerate_hears_restart
    : ∃ air : Airwaves (StateM Unit),
        HearsPorts air .standard ⟨10, 0, 0, 1⟩ .v2 ()
          ([.data ⟨1, 1, 50⟩, .start, .data ⟨2, 1, 25⟩, .finish, .data ⟨3, 1, 10⟩].map
            (fun record => ⟨⟨10, 0, 0, 1⟩, ScanRecord.encode record⟩)) ()
        ∧ (enumerate air .standard ⟨10, 0, 0, 1⟩ .v2).run () = (.ok [⟨2, 1, 25⟩], ()) := by
  let heard : List Arrival :=
    [.data ⟨1, 1, 50⟩, .start, .data ⟨2, 1, 25⟩, .finish, .data ⟨3, 1, 10⟩].map
      (fun record => ⟨⟨10, 0, 0, 1⟩, ScanRecord.encode record⟩)
  let air : Airwaves (StateM Unit) :=
    { interfaces := return []
      ask := fun _ => return .ok ⟨[], heard⟩ }
  have hears : HearsPorts air .standard ⟨10, 0, 0, 1⟩ .v2 () heard () := rfl
  have ports : told ⟨10, 0, 0, 1⟩ .v2 heard = [⟨2, 1, 25⟩] := by decide +kernel
  refine ⟨air, hears, ?_⟩
  rw [(enumerate_hears_supply hears).1, ports]

end PixelTree.Discovery
