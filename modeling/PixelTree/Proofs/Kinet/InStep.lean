import PixelTree.Proofs.Kinet.Layout
import PixelTree.Proofs.Node.Flushing

/-! Links and strings of lights over a run of datagrams and flushes, whatever the network answers. A
link has a socket exactly if its last datagram was sent, a string of lights has no fault exactly if
its link has one, and sockets are opened only where there is none.
-/

namespace PixelTree

variable {σ : Type}

-----------------------------------------------------------------------------------------
-- What the network is asked
-----------------------------------------------------------------------------------------

/-- A request to the network, with its answer. -/
inductive Net.Request where
  | opens (answer : Except SystemFault Socket)
  | sends (socket : Socket) (target : Endpoint) (datagram : List UInt8)
    (answer : Except SystemFault Unit)
deriving DecidableEq

namespace Net.Request

def isGranted : Request → Bool
  | .opens answer => answer.isOk
  | .sends _ _ _ answer => answer.isOk

def isOpening : Request → Bool
  | .opens _ => true
  | .sends _ _ _ _ => false

end Net.Request

/-- A network that also keeps a record of the requests to it. -/
def Net.Outbound.recorded (network : Net.Outbound (StateM σ))
    : Net.Outbound (StateM (σ × List Net.Request)) where
  openSocket := fun (s, requests) =>
    let (answer, s') := network.openSocket.run s
    (answer, s', requests ++ [.opens answer])
  send socket target datagram := fun (s, requests) =>
    let (answer, s') := (network.send socket target datagram).run s
    (answer, s', requests ++ [.sends socket target datagram answer])

namespace Net.Outbound

variable {network : Outbound (StateM σ)} {s s' : σ}

theorem run_openSocket_recorded {answer : Except SystemFault Socket}
    (opening : network.openSocket.run s = (answer, s')) (requests : List Request)
    : network.recorded.openSocket.run (s, requests)
      = (answer, s', requests ++ [.opens answer]) := by
  simp only [StateT.run] at opening ⊢
  simp only [recorded, StateT.run, opening]

theorem run_send_recorded {socket : Socket} {target : Endpoint} {datagram : List UInt8}
    {answer : Except SystemFault Unit}
    (sending : (network.send socket target datagram).run s = (answer, s'))
    (requests : List Request)
    : (network.recorded.send socket target datagram).run (s, requests)
      = (answer, s', requests ++ [.sends socket target datagram answer]) := by
  simp only [StateT.run] at sending ⊢
  simp only [recorded, StateT.run, sending]

end Net.Outbound

theorem isOk_iff {ε : Type} {result : Except ε Unit} : result.isOk = true ↔ result = .ok () := by
  cases result with
  | ok done => exact ⟨fun _ => rfl, fun _ => rfl⟩
  | error fault => exact ⟨nofun, nofun⟩

namespace Kinet

namespace Link

/-- What a link asks of the network for a socket, and what comes of it: nothing if it has one. -/
inductive Readies (link : Link) : List Net.Request → Except SystemFault Net.Socket → Prop where
  | held {socket : Net.Socket} (found : link.socket = some socket)
    : link.Readies [] (.ok socket)
  | opened (closed : link.socket = none) (answer : Except SystemFault Net.Socket)
    : link.Readies [.opens answer] answer

/-- What a link asks of the network for one datagram, what comes of it, and the link that is left.
There may be no socket to send it from, it may be sent, and it may be lost together with the socket.
-/
inductive Asks (link : Link) (datagram : List UInt8)
    : List Net.Request → Except SystemFault Unit → Link → Prop where
  | refused {requests : List Net.Request} {fault : SystemFault}
    (readies : link.Readies requests (.error fault))
    : link.Asks datagram requests (.error fault) { link with socket := none }
  | sent {requests : List Net.Request} {socket : Net.Socket}
    (readies : link.Readies requests (.ok socket))
    : link.Asks datagram (requests ++ [.sends socket link.target datagram (.ok ())]) (.ok ())
        { link with socket := some socket }
  | lost {requests : List Net.Request} {socket : Net.Socket}
    (readies : link.Readies requests (.ok socket)) (fault : SystemFault)
    : link.Asks datagram (requests ++ [.sends socket link.target datagram (.error fault)])
        (.error fault) { link with socket := none }

namespace Readies

variable {link : Link} {requests : List Net.Request} {readied : Except SystemFault Net.Socket}

theorem opens_iff (readies : link.Readies requests readied)
    : (∃ request ∈ requests, request.isOpening = true) ↔ link.isOpen = false := by
  cases readies with
  | held found => simp [isOpen, found]
  | opened closed => simp [isOpen, closed, Net.Request.isOpening]

theorem eq_of_held {socket : Net.Socket} (held : link.socket = some socket)
    (readies : link.Readies requests readied)
    : requests = [] ∧ readied = .ok socket := by
  cases readies with
  | held found =>
      obtain rfl := Option.some.inj (found.symm.trans held)
      exact ⟨rfl, rfl⟩
  | opened closed => exact absurd (held.symm.trans closed) (Option.some_ne_none socket)

theorem isOk_iff (readies : link.Readies requests readied)
    : readied.isOk = true ↔ ∀ request ∈ requests, request.isGranted = true := by
  cases readies with
  | held found => simp [Except.isOk, Except.toBool]
  | opened closed => simp [Net.Request.isGranted]

end Readies

variable {network : Net.Outbound (StateM σ)} {link after : Link} {datagram : List UInt8}
  {requests : List Net.Request} {result : Except SystemFault Unit} {s s' : σ}

/-- A link that is readied has the socket that it was readied with, if there is one. The record of
its requests does not change what happens.
-/
theorem readies_of_ready {readied : Except SystemFault Net.Socket}
    (readying : (link.ready network).run s = ((after, readied), s'))
    : after = { link with socket := readied.toOption }
      ∧ ∃ asked,
          link.Readies asked readied
          ∧ ∀ requests,
              (link.ready network.recorded).run (s, requests)
              = ((after, readied), s', requests ++ asked) := by
  cases found : link.socket with
  | some socket =>
      simp only [ready, found] at readying ⊢
      cases readying
      refine ⟨rfl, [], .held found, ?_⟩
      intro requests
      rw [List.append_nil]
      rfl
  | none =>
      generalize opening : network.openSocket.run s = opened
      obtain ⟨answer, between⟩ := opened
      have opens := Net.Outbound.run_openSocket_recorded opening
      simp only [ready, found, StateT.run_bind, opening, opens] at readying ⊢
      cases answer with
      | ok socket =>
          cases readying
          exact ⟨rfl, _, .opened found _, fun requests => rfl⟩
      | error fault =>
          cases readying
          exact ⟨rfl, _, .opened found _, fun requests => rfl⟩

/-- A link that could not be readied has no socket behind a datagram. -/
theorem run_send_of_refused {fault : SystemFault}
    (readying : (link.ready network).run s = ((after, .error fault), s'))
    : (link.send network datagram).run s
      = (({ after with socket := none }, .error fault), s') := by
  rw [send, StateT.run_bind, readying]
  rfl

/-- A link that was readied keeps its socket behind a datagram exactly if it is sent. -/
theorem run_send_of_readied {socket : Net.Socket} {between : σ}
    (readying : (link.ready network).run s = ((after, .ok socket), between))
    (sending : (network.send socket after.target datagram).run between = (result, s'))
    : (link.send network datagram).run s
      = ((if result.isOk then after else { after with socket := none }, result), s') := by
  rw [send, StateT.run_bind, readying]
  change (network.send socket after.target datagram >>= _).run between = _
  rw [StateT.run_bind, sending]
  cases result with
  | ok done => rfl
  | error fault => rfl

/-- A link asks as the rules tell, by cases on whether it is readied and whether the datagram is
sent then.
-/
theorem asks_of_send (sending : (link.send network datagram).run s = ((after, result), s'))
    : ∃ asked,
        link.Asks datagram asked result after
        ∧ ∀ requests,
            (link.send network.recorded datagram).run (s, requests)
            = ((after, result), s', requests ++ asked) := by
  generalize readying : (link.ready network).run s = first
  obtain ⟨⟨between, readied⟩, halfway⟩ := first
  obtain ⟨rfl, asked, readies, recorded⟩ := readies_of_ready readying
  cases readied with
  | error fault =>
      rw [run_send_of_refused readying] at sending
      cases sending
      exact ⟨asked, .refused readies, fun requests => run_send_of_refused (recorded requests)⟩
  | ok socket =>
      generalize handing : (network.send socket link.target datagram).run halfway = handed
      obtain ⟨answer, last⟩ := handed
      have hands (requests : List Net.Request)
          := run_send_of_readied (recorded requests)
            (Net.Outbound.run_send_recorded handing (requests ++ asked))
      simp only [List.append_assoc] at hands
      rw [run_send_of_readied readying handing] at sending
      cases answer with
      | ok done =>
          cases sending
          exact ⟨_, .sent readies, hands⟩
      | error fault =>
          cases sending
          exact ⟨_, .lost readies fault, hands⟩

namespace Asks

/-- A link is open exactly if its last datagram was sent, by cases on what came of it. -/
theorem isOpen_iff (asks : link.Asks datagram requests result after)
    : after.isOpen = true ↔ result = .ok () := by
  cases asks with
  | refused readies => simp [isOpen]
  | sent readies => simp [isOpen]
  | lost readies fault => simp [isOpen]

theorem target_eq (asks : link.Asks datagram requests result after)
    : after.target = link.target := by
  cases asks <;> rfl

/-- A link opens a socket exactly if it has none. -/
theorem opens_iff (asks : link.Asks datagram requests result after)
    : (∃ request ∈ requests, request.isOpening = true) ↔ link.isOpen = false := by
  cases asks with
  | refused readies => exact readies.opens_iff
  | sent readies =>
      rw [← readies.opens_iff]
      simp [or_and_right, exists_or, Net.Request.isOpening]
  | lost readies fault =>
      rw [← readies.opens_iff]
      simp [or_and_right, exists_or, Net.Request.isOpening]

/-- A link that has a socket asks for nothing but the datagram. -/
theorem eq_of_held {socket : Net.Socket} (held : link.socket = some socket)
    (asks : link.Asks datagram requests result after)
    : requests = [.sends socket link.target datagram result] := by
  cases asks with
  | refused readies => cases (readies.eq_of_held held).2
  | sent readies =>
      obtain ⟨rfl, same⟩ := readies.eq_of_held held
      cases same
      rfl
  | lost readies =>
      obtain ⟨rfl, same⟩ := readies.eq_of_held held
      cases same
      rfl

theorem result_iff (asks : link.Asks datagram requests result after)
    : result = .ok () ↔ ∀ request ∈ requests, request.isGranted = true := by
  rw [← isOk_iff]
  cases asks with
  | refused readies => exact readies.isOk_iff
  | sent readies =>
      rw [List.forall_mem_append, ← readies.isOk_iff]
      simp [Net.Request.isGranted, Except.isOk, Except.toBool]
  | lost readies fault =>
      rw [List.forall_mem_append]
      simp [Net.Request.isGranted, Except.isOk, Except.toBool]

end Asks

end Link

-----------------------------------------------------------------------------------------
-- What a flush asks
-----------------------------------------------------------------------------------------

/-- What a string of lights asks of the network in one flush, what comes of it, and the link that is
left: it sends its frame, and the packet that shows the frame if the frame was sent and the packet
is asked for.
-/
inductive Output.Asks (output : Output)
    : List Net.Request → Except SystemFault Unit → Link → Prop where
  | frame {requests : List Net.Request} {sent : Except SystemFault Unit} {after : Link}
    (first : output.link.Asks output.frame requests sent after)
    (last : sent = .ok () → output.needsSync = false)
    : output.Asks requests sent after
  | shown {requests later : List Net.Request} {shown : Except SystemFault Unit}
    {between after : Link} (first : output.link.Asks output.frame requests (.ok ()) between)
    (needed : output.needsSync = true) (second : between.Asks portOutSync later shown after)
    : output.Asks (requests ++ later) shown after

namespace Output

variable {network : Net.Outbound (StateM σ)} {output after : Output} {s s' : σ}

theorem asks_of_transmit {link : Link} {sent : Except SystemFault Unit}
    (transmitting : (output.transmit network).run s = ((link, sent), s'))
    : ∃ asked,
        output.Asks asked sent link
        ∧ ∀ requests,
            (output.transmit network.recorded).run (s, requests)
            = ((link, sent), s', requests ++ asked) := by
  generalize sending : (output.link.send network output.frame).run s = first
  obtain ⟨⟨between, result⟩, halfway⟩ := first
  obtain ⟨asked, asks, recorded⟩ := Link.asks_of_send sending
  simp only [transmit, StateT.run_bind, sending, recorded] at transmitting ⊢
  cases result with
  | error fault =>
      cases transmitting
      exact ⟨asked, .frame asks nofun, fun requests => rfl⟩
  | ok done =>
      cases needed : output.needsSync with
      | false =>
          simp only [needed, Bool.false_eq_true, if_false] at transmitting ⊢
          cases transmitting
          exact ⟨asked, .frame asks (fun _ => needed), fun requests => rfl⟩
      | true =>
          simp only [needed, if_true] at transmitting ⊢
          obtain ⟨later, showing, shown⟩ := Link.asks_of_send transmitting
          refine ⟨asked ++ later, .shown asks needed showing, ?_⟩
          intro requests
          exact (shown (requests ++ asked)).trans (by rw [List.append_assoc])

theorem asks_of_flush {result : Except DeviceFault Unit}
    (flushing : (output.flush network).run s = ((after, result), s'))
    : ∃ sent link asked,
        output.Asks asked sent link
        ∧ result = sent.mapError (DeviceFault.sending output.address)
        ∧ after = { output with link, lastFault := faultOf? result }
        ∧ ∀ requests,
            (output.flush network.recorded).run (s, requests)
            = ((after, result), s', requests ++ asked) := by
  obtain ⟨link, sent, transmitting, rfl, rfl⟩ := of_flush flushing
  obtain ⟨asked, asks, recorded⟩ := asks_of_transmit transmitting
  refine ⟨sent, link, asked, asks, rfl, rfl, ?_⟩
  intro requests
  rw [flush, StateT.run_bind, recorded]
  cases sent with
  | ok done => rfl
  | error fault => rfl

theorem needsSync_iff {output : Output}
    : output.needsSync = true ↔ output.sync = true ∧ output.address.protocol = .v2 := by
  rw [needsSync, Bool.and_eq_true, beq_iff_eq]

namespace Asks

variable {link : Link} {requests : List Net.Request} {result : Except SystemFault Unit}

theorem isOpen_iff (asks : output.Asks requests result link)
    : link.isOpen = true ↔ result = .ok () := by
  cases asks with
  | frame first last => exact first.isOpen_iff
  | shown first needed second => exact second.isOpen_iff

theorem target_eq (asks : output.Asks requests result link)
    : link.target = output.link.target := by
  cases asks with
  | frame first last => exact first.target_eq
  | shown first needed second => exact second.target_eq.trans first.target_eq

/-- The packet that shows a frame is sent from the socket that the frame was sent from. -/
theorem opens_iff (asks : output.Asks requests result link)
    : (∃ request ∈ requests, request.isOpening = true) ↔ output.link.isOpen = false := by
  cases asks with
  | frame first last => exact first.opens_iff
  | @shown asked later _ between _ first needed second =>
      have kept : between.isOpen = true := first.isOpen_iff.mpr rfl
      have none : ¬ ∃ request ∈ later, request.isOpening = true := by
        rw [second.opens_iff, kept]
        exact Bool.false_ne_true.symm
      rw [← first.opens_iff]
      simp only [List.mem_append, or_and_right, exists_or, none, or_false]

theorem result_iff (asks : output.Asks requests result link)
    : result = .ok () ↔ ∀ request ∈ requests, request.isGranted = true := by
  cases asks with
  | frame first last => exact first.result_iff
  | shown first needed second =>
      have granted := first.result_iff.mp rfl
      rw [List.forall_mem_append, second.result_iff]
      exact (and_iff_right granted).symm

end Asks

end Output

/-- What a flush hands to a socket: the frame, and behind it the packet that shows it if the frame
was sent and the packet is asked for. Only a flush whose link has no socket and is refused one hands
out nothing.
-/
theorem Output.Asks.hands {output : Output} {requests : List Net.Request}
    {result : Except SystemFault Unit} {link : Link} (asks : output.Asks requests result link)
    : (∃ fault, requests = [.opens (.error fault)])
      ∨ ∃ openings socket sent later,
          output.link.Readies openings (.ok socket)
          ∧ requests = openings ++ .sends socket output.link.target output.frame sent :: later
          ∧ if sent = .ok () ∧ output.sync = true ∧ output.address.protocol = .v2
            then
              ∃ shows shown,
                IsSyncPacket shows ∧ later = [.sends socket output.link.target shows shown]
            else later = [] := by
  cases asks with
  | frame first last =>
      have alone : ¬(result = .ok () ∧ output.sync = true ∧ output.address.protocol = .v2) := by
        intro ⟨sent, needed⟩
        exact absurd (needsSync_iff.mpr needed) (Bool.eq_false_iff.mp (last sent))
      cases first with
      | refused readies =>
          cases readies with
          | opened closed => exact .inl ⟨_, rfl⟩
      | sent readies =>
          exact .inr ⟨_, _, .ok (), [], readies, rfl, by rw [if_neg alone]⟩
      | lost readies fault =>
          exact .inr ⟨_, _, .error fault, [], readies, rfl, by rw [if_neg alone]⟩
  | shown first needed second =>
      cases first with
      | sent readies =>
          obtain rfl := second.eq_of_held rfl
          refine .inr ⟨_, _, .ok (), _, readies, List.append_assoc _ _ _, ?_⟩
          rw [if_pos ⟨rfl, needsSync_iff.mp needed⟩]
          exact ⟨_, result, isSyncPacket_portOutSync, rfl⟩

-----------------------------------------------------------------------------------------
-- Runs of datagrams and of flushes
-----------------------------------------------------------------------------------------

/-- A history of events on a link: the first one finds a given link, and each other one the link
that the one before it left.
-/
def Link.History {ε : Type} (found left : ε → Link) (happens : ε → Prop) : Link → List ε → Prop
  | _, [] => True
  | link, event :: rest =>
    found event = link ∧ happens event ∧ History found left happens (left event) rest

/-- What an event of a history finds and what happened before it, by induction over the events in
front of it.
-/
theorem Link.History.of_append {ε : Type} {found left : ε → Link} {happens : ε → Prop}
    {link : Link} {front back : List ε} {event : ε}
    (history : History found left happens link (front ++ event :: back))
    : found event = (front.getLast?.map left).getD link
      ∧ happens event
      ∧ ∀ previous ∈ front, happens previous := by
  induction front generalizing link with
  | nil => exact ⟨history.1, history.2.1, nofun⟩
  | cons first rest ih =>
      obtain ⟨_, happens, later⟩ := history
      obtain ⟨finds, happened, before⟩ := ih later
      rw [List.getLast?_cons, Option.map_some, Option.getD_some]
      rw [Option.getD_map] at finds
      exact ⟨finds, happened, List.forall_mem_cons.mpr ⟨happens, before⟩⟩

/-- One datagram on a link as it was found and as it was left, with what was asked for it. -/
structure LinkSend where
  found : Link
  datagram : List UInt8
  requests : List Net.Request
  result : Except SystemFault Unit
  left : Link

/-- What happens when a link is given one datagram after the other. -/
def Link.sends (network : Net.Outbound (StateM σ)) (link : Link)
    : List (List UInt8) → σ → List LinkSend
  | [], _ => []
  | datagram :: rest, s =>
    let ((left, result), s', requests) := (link.send network.recorded datagram).run (s, [])
    ⟨link, datagram, requests, result, left⟩ :: left.sends network rest s'

def LinkSend.Happens (target : Net.Endpoint) (call : LinkSend) : Prop :=
  call.found.target = target
  ∧ call.found.Asks call.datagram call.requests call.result call.left

theorem Link.history_sends (network : Net.Outbound (StateM σ)) (link : Link)
    (datagrams : List (List UInt8)) (s : σ)
    : Link.History LinkSend.found LinkSend.left (LinkSend.Happens link.target) link
        (link.sends network datagrams s) := by
  induction datagrams generalizing link s with
  | nil => trivial
  | cons datagram rest ih =>
      generalize sending : (link.send network datagram).run s = sent
      obtain ⟨⟨left, result⟩, s'⟩ := sent
      obtain ⟨asked, asks, recorded⟩ := asks_of_send sending
      have later := ih left s'
      rw [asks.target_eq] at later
      rw [sends, recorded]
      exact ⟨rfl, ⟨rfl, asks⟩, later⟩

/-- What can be done with a string of lights. -/
inductive Output.Operation where
  | set (index : Nat) (color : Color)
  | sync (on : Bool)
  | flush

/-- One flush of a string of lights as it was found and as it was left, with what was asked. -/
structure OutputFlush where
  found : Output
  requests : List Net.Request
  result : Except DeviceFault Unit
  left : Output

/-- The flushes among several operations. -/
def Output.flushes (network : Net.Outbound (StateM σ)) (output : Output)
    : List Operation → σ → List OutputFlush
  | [], _ => []
  | .set index color :: rest, s =>
    { output with strip := output.strip.set index color }.flushes network rest s
  | .sync on :: rest, s => { output with sync := on }.flushes network rest s
  | .flush :: rest, s =>
    let ((left, result), s', requests) := (output.flush network.recorded).run (s, [])
    ⟨output, requests, result, left⟩ :: left.flushes network rest s'

def OutputFlush.Happens (target : Net.Endpoint) (flush : OutputFlush) : Prop :=
  flush.found.link.target = target
  ∧ ∃ sent,
      flush.found.Asks flush.requests sent flush.left.link
      ∧ flush.result = sent.mapError (DeviceFault.sending flush.found.address)
      ∧ flush.left
        = { flush.found with link := flush.left.link, lastFault := faultOf? flush.result }

theorem Output.history_flushes (network : Net.Outbound (StateM σ)) (output : Output)
    (operations : List Operation) (s : σ)
    : Link.History (fun flush => flush.found.link) (fun flush => flush.left.link)
        (OutputFlush.Happens output.link.target) output.link
        (output.flushes network operations s) := by
  induction operations generalizing output s with
  | nil => trivial
  | cons operation rest ih =>
      cases operation with
      | set index color => exact ih { output with strip := output.strip.set index color } s
      | sync on => exact ih { output with sync := on } s
      | flush =>
          generalize flushing : (output.flush network).run s = flushed
          obtain ⟨⟨left, result⟩, s'⟩ := flushed
          obtain ⟨sent, link, asked, asks, told, rfl, recorded⟩ := asks_of_flush flushing
          have later := ih { output with link, lastFault := faultOf? result } s'
          rw [asks.target_eq] at later
          rw [flushes, recorded]
          exact ⟨rfl, ⟨rfl, sent, asks, told, rfl⟩, later⟩

-----------------------------------------------------------------------------------------
-- In step
-----------------------------------------------------------------------------------------

/-- A datagram as a link in step is given it. The link has a socket behind it exactly if it was
sent, and asks for one in front of it exactly if it is the first one or the one before it was not
sent.
-/
structure LinkSend.InStep (target : Net.Endpoint) (earlier : Option LinkSend) (call : LinkSend)
    : Prop where
  found_eq : call.found = (earlier.map LinkSend.left).getD (.closed target)
  target_eq : call.found.target = target
  asks : call.found.Asks call.datagram call.requests call.result call.left
  isOpen_iff : call.left.isOpen = true ↔ call.result = .ok ()
  opens_iff :
    (∃ request ∈ call.requests, request.isOpening = true)
      ↔ ∀ previous ∈ earlier, previous.result ≠ .ok ()

/-- A flush of a string of lights that is in step with its link. It asks for a socket exactly if it
is the first one or the one before it failed. If there is a socket then, it is handed the frame and,
if the frame was sent and is to be followed by the packet that shows it, that packet.
-/
structure OutputFlush.InStep (target : Net.Endpoint) (earlier : Option OutputFlush)
    (flush : OutputFlush)
    : Prop where
  found_eq :
    flush.found.link = (earlier.map (fun previous => previous.left.link)).getD (.closed target)
  opens_iff :
    (∃ request ∈ flush.requests, request.isOpening = true)
      ↔ ∀ previous ∈ earlier, previous.result ≠ .ok ()
  hands :
    (∃ fault, flush.requests = [.opens (.error fault)])
    ∨ ∃ openings socket sent later,
        flush.found.link.Readies openings (.ok socket)
        ∧ flush.requests = openings ++ .sends socket target flush.found.frame sent :: later
        ∧ if sent = .ok () ∧ flush.found.sync = true ∧ flush.found.address.protocol = .v2
          then ∃ shows shown, IsSyncPacket shows ∧ later = [.sends socket target shows shown]
          else later = []
  result_iff : flush.result = .ok () ↔ ∀ request ∈ flush.requests, request.isGranted = true
  lastFault_iff : flush.left.lastFault = none ↔ flush.result = .ok ()
  isOpen_iff : flush.left.link.isOpen = true ↔ flush.result = .ok ()
  strip_eq : flush.left.strip = flush.found.strip
  address_eq : flush.left.address = flush.found.address
  sync_eq : flush.left.sync = flush.found.sync

/-- A link that an earlier event left is closed exactly if there was none or it failed. -/
theorem Link.isOpen_getD_eq_false {ε α : Type} {left : ε → Link} {result : ε → Except α Unit}
    {earlier : Option ε} {target : Net.Endpoint}
    (open_iff : ∀ previous ∈ earlier, (left previous).isOpen = true ↔ result previous = .ok ())
    : ((earlier.map left).getD (closed target)).isOpen = false
      ↔ ∀ previous ∈ earlier, result previous ≠ .ok () := by
  cases earlier with
  | none => exact ⟨fun _ => nofun, fun _ => rfl⟩
  | some previous =>
      rw [Option.map_some, Option.getD_some, ← Bool.not_eq_true, open_iff previous rfl]
      simp

theorem faultOf?_eq_none {result : Except DeviceFault Unit}
    : faultOf? result = none ↔ result = .ok () := by
  cases result with
  | ok done => exact ⟨fun _ => rfl, fun _ => rfl⟩
  | error fault => exact ⟨nofun, nofun⟩

theorem mapError_eq_ok {ε ε' : Type} {f : ε → ε'} {result : Except ε Unit}
    : result.mapError f = .ok () ↔ result = .ok () := by
  cases result with
  | ok done => exact ⟨fun _ => rfl, fun _ => rfl⟩
  | error fault => exact ⟨nofun, nofun⟩

theorem OutputFlush.Happens.isOpen_iff {target : Net.Endpoint} {flush : OutputFlush}
    (happens : flush.Happens target)
    : flush.left.link.isOpen = true ↔ flush.result = .ok () := by
  obtain ⟨_, sent, asks, told, _⟩ := happens
  rw [asks.isOpen_iff, told, mapError_eq_ok]

/-- A datagram that finds the link as the one before it left it is in step. -/
theorem LinkSend.Happens.inStep {target : Net.Endpoint} {earlier : Option LinkSend}
    {call : LinkSend} (happens : call.Happens target)
    (found : call.found = (earlier.map left).getD (.closed target))
    (before : ∀ previous ∈ earlier, previous.Happens target)
    : call.InStep target earlier := by
  obtain ⟨there, asks⟩ := happens
  refine ⟨found, there, asks, asks.isOpen_iff, asks.opens_iff.trans ?_⟩
  rw [found]
  exact Link.isOpen_getD_eq_false (fun previous member => (before previous member).2.isOpen_iff)

/-- A flush that finds the link as the one before it left it is in step. -/
theorem OutputFlush.Happens.inStep {target : Net.Endpoint} {earlier : Option OutputFlush}
    {flush : OutputFlush} (happens : flush.Happens target)
    (found
      : flush.found.link = (earlier.map (fun previous => previous.left.link)).getD (.closed target))
    (before : ∀ previous ∈ earlier, previous.Happens target)
    : flush.InStep target earlier := by
  have isOpen := happens.isOpen_iff
  obtain ⟨there, sent, asks, told, left⟩ := happens
  refine
    { found_eq := found, opens_iff := ?_, hands := ?_, result_iff := ?_, lastFault_iff := ?_,
      isOpen_iff := isOpen, strip_eq := ?_, address_eq := ?_, sync_eq := ?_ }
  · rw [asks.opens_iff, found]
    exact Link.isOpen_getD_eq_false (fun previous member => (before previous member).isOpen_iff)
  · have hands := asks.hands
    rwa [there] at hands
  · rw [told, mapError_eq_ok]
    exact asks.result_iff
  · rw [left]
    exact faultOf?_eq_none
  · rw [left]
  · rw [left]
  · rw [left]

/-- Whatever the network answers, a link that was never used stays in step while it is given
datagrams, and so does a dark string of lights in all flushes among operations on it.
-/
theorem stays_in_step (network : Net.Outbound (StateM σ)) (s : σ)
    : (∀ target datagrams front call back,
        (Link.closed target).sends network datagrams s = front ++ call :: back →
        LinkSend.InStep target front.getLast? call)
      ∧ ∀ port address operations front flush back,
          (Output.onPort port address).flushes network operations s = front ++ flush :: back →
          OutputFlush.InStep ⟨address.ip, port⟩ front.getLast? flush := by
  constructor
  · intro target datagrams front call back split
    have history := Link.history_sends network (.closed target) datagrams s
    rw [split] at history
    obtain ⟨found, happens, before⟩ := history.of_append
    exact happens.inStep found
      (fun previous last => before previous (List.mem_of_getLast? last))
  · intro port address operations front flush back split
    have history := Output.history_flushes network (.onPort port address) operations s
    rw [split] at history
    obtain ⟨found, happens, before⟩ := history.of_append
    exact happens.inStep found
      (fun previous last => before previous (List.mem_of_getLast? last))

/-- A network that refuses its third request and grants all others, with as many sockets as it was
asked for.
-/
def thirdRefused : Net.Outbound (StateM Nat) where
  openSocket := fun count => (if count = 2 then .error .unreachable else .ok ⟨count⟩, count + 1)
  send _ _ _ := fun count => (if count = 2 then .error .unreachable else .ok (), count + 1)

/-- The packet that shows the first frame is refused, so the second flush opens another socket, from
which it sends both.
-/
theorem stays_in_step_after_refusal
    : let target : Net.Endpoint := ⟨⟨10, 0, 0, 1⟩, udpPort⟩
      let shows : Bytes := [4, 1, 220, 74, 1, 0, 9, 1, 0, 0, 0, 0, 0, 0, 0, 0]
      ∃ first second,
        (Output.onPort udpPort (Address.output ⟨10, 0, 0, 1⟩ 1 1)).flushes thirdRefused
          [.sync true, .flush, .set 0 Color.white, .flush] 0
          = [first, second]
        ∧ first.result ≠ .ok ()
        ∧ OutputFlush.InStep target (some first) second
        ∧ (∃ request ∈ second.requests, request.isOpening = true)
        ∧ second.requests
          = [ .opens (.ok ⟨3⟩),
              .sends ⟨3⟩ target
                [4, 1, 220, 74, 1, 0, 8, 1, 0, 0, 0, 0, 0, 0, 0, 0,
                  1, 0, 0, 0, 3, 0, 0, 0, 255, 255, 255]
                (.ok ()),
              .sends ⟨3⟩ target shows (.ok ()) ]
        ∧ IsSyncPacket shows
        ∧ second.left.lastFault = none := by
  intro target shows
  let output := Output.onPort udpPort (Address.output ⟨10, 0, 0, 1⟩ 1 1)
  have results : (output.flushes thirdRefused [.sync true, .flush, .set 0 Color.white, .flush] 0
      ).map OutputFlush.result
      = [.error (.sending (Address.output ⟨10, 0, 0, 1⟩ 1 1) .unreachable), .ok ()] := rfl
  have requests : (output.flushes thirdRefused [.sync true, .flush, .set 0 Color.white, .flush] 0
      )[1]?.map OutputFlush.requests
      = some
        [ .opens (.ok ⟨3⟩),
          .sends ⟨3⟩ target
            [4, 1, 220, 74, 1, 0, 8, 1, 0, 0, 0, 0, 0, 0, 0, 0,
              1, 0, 0, 0, 3, 0, 0, 0, 255, 255, 255]
            (.ok ()),
          .sends ⟨3⟩ target shows (.ok ()) ] := by
    decide +kernel
  obtain ⟨first, rest, split, failed, later⟩ := List.map_eq_cons_iff.mp results
  obtain ⟨second, none, rfl, succeeded, nothing⟩ := List.map_eq_cons_iff.mp later
  obtain rfl := List.map_eq_nil_iff.mp nothing
  have refused : first.result ≠ .ok () := by
    rw [failed]
    nofun
  have inStep := (stays_in_step thirdRefused 0).2 udpPort _ _ [first] second [] split
  rw [split] at requests
  refine ⟨first, second, split, refused, inStep, ?_, Option.some.inj requests,
    isSyncPacket_portOutSync, inStep.lastFault_iff.mpr succeeded⟩
  refine inStep.opens_iff.mpr ?_
  intro previous same
  cases same
  exact refused

end Kinet

end PixelTree
