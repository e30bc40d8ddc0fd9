import PixelTree.Proofs.Kinet.Checks

/-! Packets read one field after the other. A field takes its bytes from the front of what is left
and stops the reader if there are too few, so fields stand behind a check that there are enough.
No reader is ever stopped so, and each finds what its decoder finds: in exactly the packets that
pass the checks a value that depends on the fields alone, and in all others the first check that
fails.
-/

namespace PixelTree.Kinet

/-- Why a reader ends without a packet. -/
inductive Halt where
  | refused (error : PacketError)
  /-- A field was taken past the end of the bytes. -/
  | pastEnd
deriving DecidableEq

/-- Reading from the front of the bytes that are left. -/
abbrev Cursor := StateT Bytes (Except Halt)

namespace Cursor

-----------------------------------------------------------------------------------------
-- Fields
-----------------------------------------------------------------------------------------

def byte : Cursor UInt8
  | [] => throw .pastEnd
  | b :: rest => return (b, rest)

def word16 : Cursor UInt16 := do
  return Kinet.word16 (← byte) (← byte)

def word32 : Cursor UInt32 := do
  return Kinet.word32 (← byte) (← byte) (← byte) (← byte)

/-- The same field again and again. -/
def repeated {α : Type} (field : Cursor α) : (count : Nat) → Cursor (Vector α count)
  | 0 => return #v[]
  | count + 1 => do
    let front ← repeated field count
    return front.push (← field)

/-- An answer that takes no bytes. -/
def check {α : Type} (answer : Except PacketError α) : Cursor α :=
  liftM (answer.mapError Halt.refused)

/-- Goes on only if enough bytes are left. -/
def ensure (expected : Nat) : Cursor Unit := do
  check (require expected (← get))

-----------------------------------------------------------------------------------------
-- Packets
-----------------------------------------------------------------------------------------

def header : Cursor Header := do
  ensure Header.size
  let found ← word32
  if found ≠ magic then
    throw (.refused (.badMagic found))
  let version ← word16
  let kind ← check (PacketType.ofCode (← word16))
  let sequence ← word32
  return ⟨version, kind, sequence⟩

/-- Goes on only behind a header of one type. -/
def expect (expected : PacketType) : Cursor Unit := do
  let header ← header
  if header.kind ≠ expected then
    throw (.refused (.unexpectedType expected header.kind))

/-- What follows the header of a reply. -/
def replyFields : Cursor DiscoverReply := do
  ensure DiscoverReply.fixedSize
  let ip := ⟨← byte, ← byte, ← byte, ← byte⟩
  let mac := ⟨← repeated byte 6⟩
  let kinetVersion ← word16
  let serial ← word32
  let dmxUniverse ← word32
  let texts ← get
  return {
    ip, mac, kinetVersion, serial, dmxUniverse
    info := Text.decodeLenient (untilZero texts).1
    name := Text.decodeLenient (untilZero (untilZero texts).2).1
  }

def discoverReply : Cursor DiscoverReply := do
  expect .discoverReply
  replyFields

def countFields (chromasic : Bool) : Cursor PortCounts := do
  ensure PortCounts.bodySize
  return ⟨chromasic, ← repeated word16 4⟩

def portCounts : Cursor PortCounts := do
  let header ← header
  match PortCounts.form? header.kind with
  | some chromasic => countFields chromasic
  | none => throw (.refused (.unexpectedType .blinkScan1Reply header.kind))

def recordFields : Cursor ScanRecord := do
  ensure ScanRecord.bodySize
  let record ← byte
  let port := ⟨← byte, ← word16, ← word16⟩
  check (ScanRecord.ofFields record port)

def scanRecord : Cursor ScanRecord := do
  expect .blinkScan2Reply
  recordFields

-----------------------------------------------------------------------------------------
-- Readers that nothing stops
-----------------------------------------------------------------------------------------

/-- The reader of a packet finds what its decoder finds, and does not go past the end. -/
def Follows {α : Type} (cursor : Cursor α) (decode : Bytes → Except PacketError α) : Prop :=
  ∀ bytes, (cursor.run bytes).map Prod.fst = (decode bytes).mapError .refused

theorem ensure_of_lt {expected : Nat} {bytes : Bytes} (short : bytes.length < expected)
    : (ensure expected).run bytes = .error (.refused (.tooShort expected bytes.length)) := by
  have refused : require expected bytes = .error (.tooShort expected bytes.length) := if_pos short
  change (check (require expected bytes)).run bytes = _
  rw [refused]
  rfl

theorem ensure_of_le {expected : Nat} {bytes : Bytes} (enough : expected ≤ bytes.length)
    : (ensure expected).run bytes = .ok ((), bytes) := by
  have passed : require expected bytes = .ok () := if_neg (Nat.not_lt.mpr enough)
  change (check (require expected bytes)).run bytes = _
  rw [passed]
  rfl

theorem word16_run (low high : UInt8) (rest : Bytes)
    : word16.run (low :: high :: rest) = .ok (Kinet.word16 low high, rest) :=
  rfl

theorem word32_run (a b c d : UInt8) (rest : Bytes)
    : word32.run (a :: b :: c :: d :: rest) = .ok (Kinet.word32 a b c d, rest) :=
  rfl

theorem check_run {α : Type} (answer : Except PacketError α) (bytes : Bytes)
    : (check answer).run bytes
      = (answer.mapError Halt.refused).map (fun value => (value, bytes)) := by
  cases answer <;> rfl

theorem ok_bind {α β : Type} (a : α) (f : α → Except Halt β) : Except.ok a >>= f = f a :=
  rfl

/-- A header is read as it is decoded, and leaves the bytes behind it. -/
theorem header_run (bytes : Bytes)
    : header.run bytes = (Header.decode bytes).mapError .refused := by
  rw [header, StateT.run_bind]
  rcases Nat.lt_or_ge bytes.length Header.size with short | enough
  · rw [ensure_of_lt short, Header.decode_of_lt short]
    rfl
  · rw [ensure_of_le enough, ok_bind]
    obtain ⟨front, rest, rfl, size⟩ := exists_front enough
    match front, size with
    | [m₀, m₁, m₂, m₃, v₀, v₁, k₀, k₁, s₀, s₁, s₂, s₃], _ =>
        simp only [List.cons_append, List.nil_append, StateT.run_bind, word32_run, ok_bind,
          Header.decode]
        by_cases found : Kinet.word32 m₀ m₁ m₂ m₃ = magic
        · simp only [found, ne_eq, not_true_eq_false, if_false, StateT.run_bind, word16_run,
            ok_bind, check_run]
          cases PacketType.ofCode (Kinet.word16 k₀ k₁) <;> rfl
        · rw [if_pos found, if_pos found]
          rfl

/-- Readers one after the other follow what they follow. -/
theorem Follows.bind {α β : Type} {first : Cursor α} {next : α → Cursor β}
    {answer : Bytes → Except PacketError (α × Bytes)}
    {decodeNext : α → Bytes → Except PacketError β}
    (reads : ∀ bytes, first.run bytes = (answer bytes).mapError .refused)
    (follows : ∀ value, Follows (next value) (decodeNext value))
    : Follows (first >>= next)
        (fun bytes => answer bytes >>= fun (value, rest) => decodeNext value rest) := by
  intro bytes
  simp only [StateT.run_bind, reads]
  cases answer bytes with
  | error error => rfl
  | ok found =>
      obtain ⟨value, rest⟩ := found
      exact follows value rest

/-- A header of one type is read as it is decoded. -/
theorem expect_run (expected : PacketType) (bytes : Bytes)
    : (expect expected).run bytes
      = ((decodeHeader expected bytes).map (fun rest => ((), rest))).mapError .refused := by
  rw [expect, StateT.run_bind, header_run, decodeHeader]
  cases Header.decode bytes with
  | error error => rfl
  | ok found =>
      rw [Except.mapError, ok_bind]
      by_cases other : found.1.kind ≠ expected
      · rw [if_pos other]
        simp only [bind, Except.bind, if_pos other]
        rfl
      · rw [if_neg other]
        simp only [bind, Except.bind, if_neg other]
        rfl

/-- A reader behind the header of one type follows the decoder behind it. -/
theorem Follows.expect {α : Type} {body : Cursor α} {decodeBody : Bytes → Except PacketError α}
    (follows : Follows body decodeBody) (expected : PacketType)
    : Follows (do expect expected; body)
        (fun bytes => decodeHeader expected bytes >>= decodeBody) := by
  intro bytes
  rw [Follows.bind (expect_run expected) (fun _ => follows) bytes]
  beta_reduce
  cases decodeHeader expected bytes <;> rfl

/-- A reader that goes on only if there are enough bytes follows a decoder that refuses all shorter
ones, if it follows it on the others; these have so many bytes in front.
-/
theorem Follows.ensure {α : Type} {expected : Nat} {body : Cursor α}
    {decodeBody : Bytes → Except PacketError α}
    (refuses : ∀ bytes, bytes.length < expected →
      decodeBody bytes = .error (.tooShort expected bytes.length))
    (follows : ∀ front rest, front.length = expected →
      (body.run (front ++ rest)).map Prod.fst = (decodeBody (front ++ rest)).mapError .refused)
    : Follows (do ensure expected; body) decodeBody := by
  intro bytes
  rw [StateT.run_bind]
  rcases Nat.lt_or_ge bytes.length expected with short | enough
  · rw [ensure_of_lt short, refuses bytes short]
    rfl
  · rw [ensure_of_le enough, ok_bind]
    obtain ⟨front, rest, rfl, size⟩ := exists_front enough
    exact follows front rest size

theorem follows_replyFields : Follows replyFields DiscoverReply.decodeBody := by
  refine .ensure (fun _ => DiscoverReply.decodeBody_of_lt) (fun front rest size => ?_)
  match front, size with
  | [_, _, _, _, _, _, _, _, _, _, _, _, _, _, _, _, _, _, _, _], _ => rfl

theorem follows_countFields (chromasic : Bool)
    : Follows (countFields chromasic) (PortCounts.decodeBody chromasic) := by
  refine .ensure (fun _ => PortCounts.decodeBody_of_lt) (fun front rest size => ?_)
  match front, size with
  | [_, _, _, _, _, _, _, _], _ => rfl

theorem follows_recordFields : Follows recordFields ScanRecord.decodeBody := by
  refine .ensure (fun _ => ScanRecord.decodeBody_of_lt) (fun front rest size => ?_)
  match front, size with
  | [kind, number, t₀, t₁, l₀, l₁], _ =>
      -- The fields are read, and only their record may still be refused.
      change ((check (ScanRecord.ofFields kind
          ⟨number, Kinet.word16 t₀ t₁, Kinet.word16 l₀ l₁⟩)).run rest).map Prod.fst
        = (ScanRecord.ofFields kind ⟨number, Kinet.word16 t₀ t₁, Kinet.word16 l₀ l₁⟩).mapError
            .refused
      rw [check_run]
      cases ScanRecord.ofFields kind ⟨number, Kinet.word16 t₀ t₁, Kinet.word16 l₀ l₁⟩ <;> rfl

theorem follows_discoverReply : Follows discoverReply DiscoverReply.decode :=
  follows_replyFields.expect .discoverReply

theorem follows_scanRecord : Follows scanRecord ScanRecord.decode :=
  follows_recordFields.expect .blinkScan2Reply

theorem follows_portCounts : Follows portCounts PortCounts.decode := by
  have follows (header : Header) : Follows
      (match PortCounts.form? header.kind with
        | some chromasic => countFields chromasic
        | none => throw (.refused (.unexpectedType .blinkScan1Reply header.kind)))
      (fun rest => match PortCounts.form? header.kind with
        | some chromasic => PortCounts.decodeBody chromasic rest
        | none => throw (.unexpectedType .blinkScan1Reply header.kind)) := by
    cases PortCounts.form? header.kind with
    | none => exact fun _ => rfl
    | some chromasic => exact follows_countFields chromasic
  exact Follows.bind header_run follows

/-- A reader that follows a decoder is not stopped by the end of the bytes. -/
theorem Follows.ne_pastEnd {α : Type} {cursor : Cursor α} {decode : Bytes → Except PacketError α}
    (follows : Follows cursor decode) (bytes : Bytes)
    : cursor.run bytes ≠ .error .pastEnd := by
  intro stopped
  have same := follows bytes
  rw [stopped] at same
  cases found : decode bytes with
  | error error =>
      rw [found] at same
      cases same
  | ok value =>
      rw [found] at same
      cases same

end Cursor

-----------------------------------------------------------------------------------------
-- Decoders
-----------------------------------------------------------------------------------------

/-- What a decoder does with all bytes, and how it reads them. -/
structure Decodes {α : Type} (decode : Bytes → Except PacketError α) (cursor : Cursor α)
    (checks : List Check) (accepted : Bytes → Prop) (same : Bytes → Bytes → Prop) : Prop where
  /-- The packets are exactly those that are accepted. -/
  accepts : ∀ bytes, (∃ value, decode bytes = .ok value) ↔ accepted bytes
  /-- What is found in a packet is found in every other that is the same where it counts. -/
  agrees : ∀ bytes bytes' value,
    decode bytes = .ok value → same bytes bytes' → decode bytes' = .ok value
  /-- All else is refused for the first check that fails. -/
  refuses : ∀ bytes error, decode bytes = .error error ↔ FailsFirst checks bytes error
  /-- Field after field, the same is found. -/
  reads : cursor.Follows decode
  /-- No field is taken past the end. -/
  stays : ∀ bytes, cursor.run bytes ≠ .error .pastEnd

/-- A decoder that finds a value behind its checks does what they say, if bytes that are the same
where it counts pass the checks together and have one value.
-/
theorem Decodes.of_judge {α : Type} {decode : Bytes → Except PacketError α} {cursor : Cursor α}
    {checks : List Check} {accepted : Bytes → Prop} {same : Bytes → Bytes → Prop}
    {value : Bytes → α}
    (judged : ∀ bytes, decode bytes = (judge checks bytes).map (fun _ => value bytes))
    (passes : ∀ bytes, (∀ check ∈ checks, check.passes bytes = true) ↔ accepted bytes)
    (kept : ∀ bytes bytes', same bytes bytes' →
      (∀ check ∈ checks, check.passes bytes = true) →
        (∀ check ∈ checks, check.passes bytes' = true) ∧ value bytes = value bytes')
    (follows : cursor.Follows decode)
    : Decodes decode cursor checks accepted same where
  accepts bytes := by
    rw [← passes, ← judge_eq_ok_iff, judged]
    cases judge checks bytes with
    | error error => simp [Except.map]
    | ok done => simp [Except.map]
  agrees bytes bytes' found decoded alike := by
    rw [judged] at decoded
    cases passed : judge checks bytes with
    | error error =>
        rw [passed] at decoded
        cases decoded
    | ok done =>
        obtain ⟨passed', one⟩ := kept bytes bytes' alike (judge_eq_ok_iff.mp passed)
        rw [passed] at decoded
        rw [judged, judge_eq_ok_iff.mpr passed', ← decoded, one]
  refuses bytes error := by
    rw [← judge_eq_error_iff, judged]
    cases judge checks bytes with
    | error error => simp [Except.map]
    | ok done => simp [Except.map]
  reads := follows
  stays := follows.ne_pastEnd

theorem discoverReply_decodes
    : Decodes DiscoverReply.decode Cursor.discoverReply DiscoverReply.checks
        (fun bytes =>
          32 ≤ bytes.length ∧ word32At bytes 0 = 0x4ADC0104 ∧ word16At bytes 6 = 0x0002)
        (fun bytes bytes' =>
          SameFields 32 bytes bytes'
          ∧ throughZeros 2 (bytes.drop 32) = throughZeros 2 (bytes'.drop 32)) := by
  refine .of_judge DiscoverReply.decode_eq_judge (fun bytes => ?_) ?_ Cursor.follows_discoverReply
  · rw [DiscoverReply.checks, passes_iff]
    simp [Header.size, DiscoverReply.fixedSize, magic, PacketType.code]
  · rintro bytes bytes' ⟨same, texts⟩ passed
    exact ⟨SameFields.passes same (by decide) (fun _ => by simp) passed,
      DiscoverReply.ofPayload_congr same texts⟩

theorem portCounts_decodes
    : Decodes PortCounts.decode Cursor.portCounts PortCounts.checks
        (fun bytes =>
          20 ≤ bytes.length ∧ word32At bytes 0 = 0x4ADC0104
          ∧ (word16At bytes 6 = 0x0202 ∨ word16At bytes 6 = 0x0206))
        (SameFields 20) := by
  refine .of_judge PortCounts.decode_eq_judge (fun bytes => ?_) ?_ Cursor.follows_portCounts
  · rw [PortCounts.checks, passes_iff]
    simp [Header.size, PortCounts.bodySize, magic, PacketType.code]
  · intro bytes bytes' same passed
    refine ⟨SameFields.passes same (by decide) (fun _ => by simp) passed, ?_⟩
    rw [typeAt?, typeAt?, same.typeAt_eq (by decide)]
    exact PortCounts.ofPayload_congr same _

theorem scanRecord_decodes
    : Decodes ScanRecord.decode Cursor.scanRecord ScanRecord.checks
        (fun bytes =>
          18 ≤ bytes.length ∧ word32At bytes 0 = 0x4ADC0104 ∧ word16At bytes 6 = 0x0208
          ∧ byteAt bytes 12 ∈ [(0 : UInt8), 1, 2])
        (SameFields 18) := by
  refine .of_judge ScanRecord.decode_eq_judge (fun bytes => ?_) ?_ Cursor.follows_scanRecord
  · rw [ScanRecord.checks, passes_iff, recordIsKnown_iff]
    simp [Header.size, ScanRecord.bodySize, magic, PacketType.code]
  · intro bytes bytes' same passed
    refine ⟨SameFields.passes same (by decide) ?_ passed, ScanRecord.ofPayload_congr same⟩
    rw [recordIsKnown_iff, recordIsKnown_iff, same.byteAt_eq (by decide) (by decide)]
    exact id

/-- Each decoder accepts exactly its packets, whatever their version, their sequence number and the
bytes behind their last field, and reads no byte that is not there. A refusal is for the first that
applies of a header that is cut off, the first word, a type that is not known, the type, what is
missing behind the header, and the kind of the record.
-/
theorem decoders_exact
    : Decodes DiscoverReply.decode Cursor.discoverReply DiscoverReply.checks
        (fun bytes =>
          32 ≤ bytes.length ∧ word32At bytes 0 = 0x4ADC0104 ∧ word16At bytes 6 = 0x0002)
        (fun bytes bytes' =>
          SameFields 32 bytes bytes'
          ∧ throughZeros 2 (bytes.drop 32) = throughZeros 2 (bytes'.drop 32))
      ∧ Decodes PortCounts.decode Cursor.portCounts PortCounts.checks
          (fun bytes =>
            20 ≤ bytes.length ∧ word32At bytes 0 = 0x4ADC0104
            ∧ (word16At bytes 6 = 0x0202 ∨ word16At bytes 6 = 0x0206))
          (SameFields 20)
      ∧ Decodes ScanRecord.decode Cursor.scanRecord ScanRecord.checks
          (fun bytes =>
            18 ≤ bytes.length ∧ word32At bytes 0 = 0x4ADC0104 ∧ word16At bytes 6 = 0x0208
            ∧ byteAt bytes 12 ∈ [(0 : UInt8), 1, 2])
          (SameFields 18) :=
  ⟨discoverReply_decodes, portCounts_decodes, scanRecord_decodes⟩

/-- A port is found behind any version and sequence number, and before any other bytes. -/
theorem decoders_exact_of_port
    : ScanRecord.decode
          ([4, 1, 220, 74, 9, 9, 8, 2, 7, 7, 7, 7] ++ [1, 3, 2, 0, 50, 0] ++ [5, 6])
        = .ok (.data ⟨3, 2, 50⟩) := by
  refine decoders_exact.2.2.agrees
    ([4, 1, 220, 74, 1, 0, 8, 2, 0, 0, 0, 0] ++ [1, 3, 2, 0, 50, 0]) _ _ rfl ?_
  intro index below counts
  interval_cases index <;> first | rfl | exact absurd (by decide) counts

end PixelTree.Kinet
