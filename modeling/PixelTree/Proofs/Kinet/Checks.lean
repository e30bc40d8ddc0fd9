import PixelTree.Kinet.Reply
import PixelTree.Proofs.Kinet.Header

/-! What a packet is checked for before it is taken apart, in order, and what is found in one that
passes every check. A refusal is that of the first check that fails.
-/

namespace PixelTree.Kinet

-----------------------------------------------------------------------------------------
-- Places
-----------------------------------------------------------------------------------------

/-- The byte at a place, zero past the end. -/
def byteAt (bytes : Bytes) (index : Nat) : UInt8 :=
  bytes.getD index 0

def word16At (bytes : Bytes) (index : Nat) : UInt16 :=
  word16 (byteAt bytes index) (byteAt bytes (index + 1))

def word32At (bytes : Bytes) (index : Nat) : UInt32 :=
  word32 (byteAt bytes index) (byteAt bytes (index + 1)) (byteAt bytes (index + 2))
    (byteAt bytes (index + 3))

/-- The type that the header of some bytes names, if it is a known one. -/
def typeAt? (bytes : Bytes) : Option PacketType :=
  PacketType.ofCode? (word16At bytes 6)

-----------------------------------------------------------------------------------------
-- Checks
-----------------------------------------------------------------------------------------

/-- What has to hold of some bytes, and the error if it does not. -/
structure Check where
  passes : Bytes → Bool
  fault : Bytes → PacketError

/-- The error is that of the first check that fails. -/
def FailsFirst (checks : List Check) (bytes : Bytes) (error : PacketError) : Prop :=
  ∃ before check after,
    checks = before ++ check :: after
    ∧ (∀ earlier ∈ before, earlier.passes bytes = true)
    ∧ check.passes bytes = false
    ∧ error = check.fault bytes

/-- There are enough bytes for a header. -/
def headerFits : Check where
  passes bytes := decide (Header.size ≤ bytes.length)
  fault bytes := .tooShort Header.size bytes.length

def startsWithMagic : Check where
  passes bytes := word32At bytes 0 == magic
  fault bytes := .badMagic (word32At bytes 0)

def typeIsKnown : Check where
  passes bytes := (typeAt? bytes).isSome
  fault bytes := .unknownType (word16At bytes 6)

/-- The type is one of some; the error names one of them, and the type that there is. -/
def typeIsOneOf (kinds : List PacketType) (expected : PacketType) : Check where
  passes bytes := kinds.any (fun kind => typeAt? bytes == some kind)
  fault bytes := .unexpectedType expected ((typeAt? bytes).getD expected)

/-- There are enough bytes behind the header; the error counts only these. -/
def payloadFits (size : Nat) : Check where
  passes bytes := decide (size ≤ (bytes.drop Header.size).length)
  fault bytes := .tooShort size (bytes.drop Header.size).length

/-- The byte behind the header tells a record. -/
def recordIsKnown : Check where
  passes bytes := [0, 1, 2].contains (byteAt bytes 12)
  fault bytes := .badRecord (byteAt bytes 12)

def Header.checks : List Check :=
  [headerFits, startsWithMagic, typeIsKnown]

def DiscoverReply.checks : List Check :=
  Header.checks ++ [typeIsOneOf [.discoverReply] .discoverReply, payloadFits fixedSize]

def PortCounts.checks : List Check :=
  Header.checks
    ++ [typeIsOneOf [.blinkScan1Reply, .blinkScan1ChromasicReply] .blinkScan1Reply,
      payloadFits bodySize]

def ScanRecord.checks : List Check :=
  Header.checks
    ++ [typeIsOneOf [.blinkScan2Reply] .blinkScan2Reply, payloadFits bodySize, recordIsKnown]

/-- Goes through the checks in order. -/
def judge : List Check → Bytes → Except PacketError Unit
  | [], _ => .ok ()
  | check :: more, bytes =>
    if check.passes bytes then judge more bytes else .error (check.fault bytes)

theorem judge_append (checks more : List Check) (bytes : Bytes)
    : judge (checks ++ more) bytes
      = (judge checks bytes).bind (fun _ => judge more bytes) := by
  induction checks with
  | nil => rfl
  | cons check rest ih =>
      rw [List.cons_append, judge, judge, ih]
      split <;> rfl

theorem judge_eq_ok_iff {checks : List Check} {bytes : Bytes}
    : judge checks bytes = .ok () ↔ ∀ check ∈ checks, check.passes bytes = true := by
  induction checks with
  | nil => simp [judge]
  | cons check rest ih =>
      rw [judge, List.forall_mem_cons, ← ih]
      split
      · next passes => simp [passes]
      · next fails => simp [fails]

/-- Going through the checks stops at the first that fails, by induction over them. -/
theorem judge_eq_error_iff {checks : List Check} {bytes : Bytes} {error : PacketError}
    : judge checks bytes = .error error ↔ FailsFirst checks bytes error := by
  induction checks with
  | nil => simp [judge, FailsFirst]
  | cons check rest ih =>
      rw [judge]
      constructor
      · intro stops
        split at stops
        · next passes =>
            obtain ⟨before, first, after, rfl, passed, fails, same⟩ := ih.mp stops
            exact ⟨check :: before, first, after, rfl,
              List.forall_mem_cons.mpr ⟨passes, passed⟩, fails, same⟩
        · next fails =>
            exact ⟨[], check, rest, rfl, by simp, by simpa using fails,
              (Except.error.inj stops).symm⟩
      · rintro ⟨before, first, after, whole, passed, fails, rfl⟩
        cases before with
        | nil =>
            obtain ⟨rfl, rfl⟩ := List.cons.inj whole
            rw [if_neg (by simp [fails])]
        | cons head others =>
            obtain ⟨rfl, rfl⟩ := List.cons.inj whole
            obtain ⟨passes, passed⟩ := List.forall_mem_cons.mp passed
            rw [if_pos passes]
            exact ih.mpr ⟨others, first, after, rfl, passed, fails, rfl⟩

-----------------------------------------------------------------------------------------
-- What is found
-----------------------------------------------------------------------------------------

/-- The header of some bytes of a known type. -/
def headerAt (bytes : Bytes) : Header :=
  ⟨word16At bytes 4, (typeAt? bytes).getD .discover, word32At bytes 8⟩

def DiscoverReply.ofPayload (payload : Bytes) : DiscoverReply where
  ip := ⟨byteAt payload 0, byteAt payload 1, byteAt payload 2, byteAt payload 3⟩
  mac :=
    ⟨#v[byteAt payload 4, byteAt payload 5, byteAt payload 6, byteAt payload 7, byteAt payload 8,
      byteAt payload 9]⟩
  kinetVersion := word16At payload 10
  serial := word32At payload 12
  dmxUniverse := word32At payload 16
  info := Text.decodeLenient (untilZero (payload.drop fixedSize)).1
  name := Text.decodeLenient (untilZero (untilZero (payload.drop fixedSize)).2).1

def PortCounts.ofPayload (chromasic : Bool) (payload : Bytes) : PortCounts :=
  ⟨chromasic,
    #v[word16At payload 0, word16At payload 2, word16At payload 4, word16At payload 6]⟩

/-- The record of a known kind; the port fields of the others do not count. -/
def ScanRecord.ofPayload (payload : Bytes) : ScanRecord :=
  if byteAt payload 0 = 0 then .start
  else if byteAt payload 0 = 1 then
    .data ⟨byteAt payload 1, word16At payload 2, word16At payload 4⟩
  else .finish

/-- Bytes of a number are in front of the others, if there are so many. -/
theorem exists_front {count : Nat} {bytes : Bytes} (enough : count ≤ bytes.length)
    : ∃ front rest, bytes = front ++ rest ∧ front.length = count :=
  ⟨bytes.take count, bytes.drop count, (List.take_append_drop count bytes).symm,
    List.length_take_of_le enough⟩

theorem Header.decode_of_lt {bytes : Bytes} (short : bytes.length < size)
    : decode bytes = .error (.tooShort size bytes.length) := by
  unfold decode
  split
  · simp only [List.length_cons, size] at short
    omega
  · rfl

/-- A header is decoded behind its checks. -/
theorem Header.decode_eq_judge (bytes : Bytes)
    : Header.decode bytes
      = (judge Header.checks bytes).map (fun _ => (headerAt bytes, bytes.drop Header.size)) := by
  rcases Nat.lt_or_ge bytes.length Header.size with short | enough
  · have fails : headerFits.passes bytes = false := decide_eq_false (Nat.not_le.mpr short)
    rw [checks, judge, if_neg (by simp [fails]), decode_of_lt short]
    rfl
  · have fits : headerFits.passes bytes = true := decide_eq_true enough
    rw [checks, judge, if_pos fits]
    obtain ⟨front, rest, rfl, size⟩ := exists_front enough
    match front, size with
    | [m₀, m₁, m₂, m₃, v₀, v₁, k₀, k₁, s₀, s₁, s₂, s₃], _ =>
        rw [judge, judge, judge]
        -- Every place that the checks and the header name is one of the bytes in front.
        change Header.decode (m₀ :: m₁ :: m₂ :: m₃ :: v₀ :: v₁ :: k₀ :: k₁ :: s₀ :: s₁ :: s₂ :: s₃
            :: rest)
          = Except.map
              (fun _ =>
                (⟨word16 v₀ v₁, (PacketType.ofCode? (word16 k₀ k₁)).getD .discover,
                  word32 s₀ s₁ s₂ s₃⟩, rest))
              (if word32 m₀ m₁ m₂ m₃ == magic then
                if (PacketType.ofCode? (word16 k₀ k₁)).isSome then Except.ok ()
                else .error (.unknownType (word16 k₀ k₁))
              else .error (.badMagic (word32 m₀ m₁ m₂ m₃)))
        rw [Header.decode, PacketType.ofCode]
        by_cases found : word32 m₀ m₁ m₂ m₃ = magic
        · rw [if_neg (not_not.mpr found), if_pos (beq_iff_eq.mpr found)]
          cases PacketType.ofCode? (word16 k₀ k₁) <;> rfl
        · rw [if_pos found, if_neg (by simpa using found)]
          rfl

theorem exists_type_of_judge {bytes : Bytes} (passed : judge Header.checks bytes = .ok ())
    : ∃ kind, typeAt? bytes = some kind := by
  have known := judge_eq_ok_iff.mp passed typeIsKnown (by simp [Header.checks])
  exact Option.isSome_iff_exists.mp known

theorem kind_headerAt {bytes : Bytes} {kind : PacketType} (known : typeAt? bytes = some kind)
    : (headerAt bytes).kind = kind := by
  rw [headerAt, known]
  rfl

theorem judge_singleton (check : Check) (bytes : Bytes)
    : judge [check] bytes
      = if check.passes bytes then .ok () else .error (check.fault bytes) :=
  rfl

/-- What stands behind a header of one type is decoded behind the checks of the header, that of the
type, and its own.
-/
theorem decodeHeader_bind_eq_judge {α : Type} (expected : PacketType) {bytes : Bytes} {value : α}
    {body : Bytes → Except PacketError α} {more : List Check}
    (read : body (bytes.drop Header.size) = (judge more bytes).map (fun _ => value))
    : decodeHeader expected bytes >>= body
      = (judge (Header.checks ++ typeIsOneOf [expected] expected :: more) bytes).map
          (fun _ => value) := by
  rw [decodeHeader, Header.decode_eq_judge, judge_append]
  cases passed : judge Header.checks bytes with
  | error error => rfl
  | ok done =>
      obtain ⟨kind, known⟩ := exists_type_of_judge passed
      have named := kind_headerAt known
      by_cases same : kind = expected
      · have passes : (typeIsOneOf [expected] expected).passes bytes = true := by
          simp [typeIsOneOf, known, same]
        simp only [Except.map, Except.bind, bind, named, same, ne_eq, not_true_eq_false, if_false,
          pure, Except.pure, judge, if_pos passes]
        exact read
      · have fails : ¬(typeIsOneOf [expected] expected).passes bytes = true := by
          simp [typeIsOneOf, known, same]
        simp only [Except.map, Except.bind, bind, named, ne_eq, same, not_false_eq_true, if_true,
          throw, throwThe, MonadExceptOf.throw, judge, if_neg fails]
        simp [typeIsOneOf, known]

/-- What refuses all payloads that are too short is behind the check of the size. -/
theorem body_eq_judge {α : Type} {size : Nat} {body : Bytes → Except PacketError α}
    {bytes : Bytes} {value : α} {more : List Check}
    (refuses : ∀ payload, payload.length < size →
      body payload = .error (.tooShort size payload.length))
    (read : size ≤ (bytes.drop Header.size).length →
      body (bytes.drop Header.size) = (judge more bytes).map (fun _ => value))
    : body (bytes.drop Header.size)
      = (judge (payloadFits size :: more) bytes).map (fun _ => value) := by
  rcases Nat.lt_or_ge (bytes.drop Header.size).length size with short | enough
  · have fails : (payloadFits size).passes bytes = false := decide_eq_false (Nat.not_le.mpr short)
    rw [refuses _ short, judge, if_neg (by simp [fails])]
    rfl
  · have fits : (payloadFits size).passes bytes = true := decide_eq_true enough
    rw [read enough, judge, if_pos fits]

theorem DiscoverReply.decodeBody_of_lt {payload : Bytes} (short : payload.length < fixedSize)
    : decodeBody payload = .error (.tooShort fixedSize payload.length) := by
  unfold decodeBody
  split
  · simp only [List.length_cons, fixedSize] at short
    omega
  · rfl

/-- What is behind the header of a reply is decoded if there is enough of it. -/
theorem DiscoverReply.decodeBody_eq_judge (bytes : Bytes)
    : decodeBody (bytes.drop Header.size)
      = (judge [payloadFits fixedSize] bytes).map
          (fun _ => ofPayload (bytes.drop Header.size)) := by
  refine body_eq_judge (fun _ => decodeBody_of_lt) (fun enough => ?_)
  obtain ⟨front, rest, payload, size⟩ := exists_front enough
  rw [payload]
  match front, size with
  | [_, _, _, _, _, _, _, _, _, _, _, _, _, _, _, _, _, _, _, _], _ => rfl

theorem DiscoverReply.decode_eq_judge (bytes : Bytes)
    : decode bytes
      = (judge checks bytes).map (fun _ => ofPayload (bytes.drop Header.size)) :=
  decodeHeader_bind_eq_judge .discoverReply (decodeBody_eq_judge bytes)

theorem PortCounts.decodeBody_of_lt {chromasic : Bool} {payload : Bytes}
    (short : payload.length < bodySize)
    : decodeBody chromasic payload = .error (.tooShort bodySize payload.length) := by
  unfold decodeBody
  split
  · simp only [List.length_cons, bodySize] at short
    omega
  · rfl

theorem PortCounts.decodeBody_eq_judge (chromasic : Bool) (bytes : Bytes)
    : decodeBody chromasic (bytes.drop Header.size)
      = (judge [payloadFits bodySize] bytes).map
          (fun _ => ofPayload chromasic (bytes.drop Header.size)) := by
  refine body_eq_judge (fun _ => decodeBody_of_lt) (fun enough => ?_)
  obtain ⟨front, rest, payload, size⟩ := exists_front enough
  rw [payload]
  match front, size with
  | [_, _, _, _, _, _, _, _], _ => rfl

theorem PortCounts.form?_eq_none_iff {kind : PacketType}
    : form? kind = none ↔ kind ≠ .blinkScan1Reply ∧ kind ≠ .blinkScan1ChromasicReply := by
  cases kind <;> simp [form?]

theorem PortCounts.form?_eq_some_iff {kind : PacketType} {chromasic : Bool}
    : form? kind = some chromasic
      ↔ (kind = .blinkScan1Reply ∧ chromasic = false)
        ∨ (kind = .blinkScan1ChromasicReply ∧ chromasic = true) := by
  cases kind <;> simp [form?, eq_comm]

theorem PortCounts.decode_eq_judge (bytes : Bytes)
    : decode bytes
      = (judge checks bytes).map
          (fun _ =>
            ofPayload (typeAt? bytes == some .blinkScan1ChromasicReply)
              (bytes.drop Header.size)) := by
  rw [decode, Header.decode_eq_judge, checks, judge_append]
  cases passed : judge Header.checks bytes with
  | error error => rfl
  | ok done =>
      obtain ⟨kind, known⟩ := exists_type_of_judge passed
      have named := kind_headerAt known
      simp only [Except.map, Except.bind, bind, named, judge]
      cases form : form? kind with
      | none =>
          obtain ⟨plain, other⟩ := form?_eq_none_iff.mp form
          rw [if_neg (by simp [typeIsOneOf, known, plain, other])]
          simp [typeIsOneOf, known, throw, throwThe, MonadExceptOf.throw]
      | some chromasic =>
          have passes : (typeIsOneOf [.blinkScan1Reply, .blinkScan1ChromasicReply]
              .blinkScan1Reply).passes bytes = true := by
            rcases form?_eq_some_iff.mp form with ⟨rfl, _⟩ | ⟨rfl, _⟩ <;> simp [typeIsOneOf, known]
          have same : (typeAt? bytes == some .blinkScan1ChromasicReply) = chromasic := by
            rcases form?_eq_some_iff.mp form with ⟨rfl, rfl⟩ | ⟨rfl, rfl⟩ <;> simp [known]
          rw [if_pos passes, same]
          exact decodeBody_eq_judge chromasic bytes

theorem ScanRecord.decodeBody_of_lt {payload : Bytes} (short : payload.length < bodySize)
    : decodeBody payload = .error (.tooShort bodySize payload.length) := by
  unfold decodeBody
  split
  · simp only [List.length_cons, bodySize] at short
    omega
  · rfl

/-- The fields of a record are taken if there are enough bytes for them, whatever its kind. -/
theorem ScanRecord.decodeBody_of_le {payload : Bytes} (enough : bodySize ≤ payload.length)
    : decodeBody payload
      = ofFields (byteAt payload 0)
          ⟨byteAt payload 1, word16At payload 2, word16At payload 4⟩ := by
  obtain ⟨front, rest, rfl, size⟩ := exists_front enough
  match front, size with
  | [_, _, _, _, _, _], _ => rfl

theorem ScanRecord.ofFields_eq_judge (bytes : Bytes)
    : ofFields (byteAt (bytes.drop Header.size) 0)
          ⟨byteAt (bytes.drop Header.size) 1, word16At (bytes.drop Header.size) 2,
            word16At (bytes.drop Header.size) 4⟩
      = (judge [recordIsKnown] bytes).map (fun _ => ofPayload (bytes.drop Header.size)) := by
  have record : byteAt bytes 12 = byteAt (bytes.drop Header.size) 0 := by
    simp [byteAt, Header.size, List.getD_eq_getElem?_getD]
  rw [judge_singleton, ofFields, ofPayload]
  simp only [recordIsKnown, record, List.contains_eq_mem, List.mem_cons, List.not_mem_nil,
    or_false, decide_eq_true_eq]
  generalize byteAt (bytes.drop Header.size) 0 = kind
  by_cases start : kind = 0
  · simp [start, Except.map, pure, Except.pure]
  · by_cases data : kind = 1
    · simp [data, Except.map, pure, Except.pure]
    · by_cases finish : kind = 2
      · simp [finish, Except.map, pure, Except.pure]
      · simp [start, data, finish, Except.map, throw, throwThe, MonadExceptOf.throw]

theorem ScanRecord.decodeBody_eq_judge (bytes : Bytes)
    : decodeBody (bytes.drop Header.size)
      = (judge [payloadFits bodySize, recordIsKnown] bytes).map
          (fun _ => ofPayload (bytes.drop Header.size)) := by
  refine body_eq_judge (fun _ => decodeBody_of_lt) (fun enough => ?_)
  rw [decodeBody_of_le enough]
  exact ofFields_eq_judge bytes

theorem ScanRecord.decode_eq_judge (bytes : Bytes)
    : decode bytes
      = (judge checks bytes).map (fun _ => ofPayload (bytes.drop Header.size)) :=
  decodeHeader_bind_eq_judge .blinkScan2Reply (decodeBody_eq_judge bytes)

-----------------------------------------------------------------------------------------
-- Packets that pass
-----------------------------------------------------------------------------------------

theorem typeAt?_eq_some_iff {bytes : Bytes} {kind : PacketType}
    : typeAt? bytes = some kind ↔ word16At bytes 6 = kind.code := by
  rw [← PacketType.ofCode_eq_ok, PacketType.ofCode, typeAt?]
  cases PacketType.ofCode? (word16At bytes 6) with
  | none => simp [throw, throwThe, MonadExceptOf.throw]
  | some found => simp [pure, Except.pure]

/-- A packet passes if it is long enough, starts with the first word, and is of one of the types; a
type that is one of some is known.
-/
theorem passes_iff {kinds : List PacketType} {expected : PacketType} {size : Nat}
    {more : List Check} {bytes : Bytes}
    : (∀ check ∈ Header.checks ++ typeIsOneOf kinds expected :: payloadFits size :: more,
        check.passes bytes = true)
      ↔ Header.size + size ≤ bytes.length
        ∧ word32At bytes 0 = magic
        ∧ (∃ kind ∈ kinds, word16At bytes 6 = kind.code)
        ∧ ∀ check ∈ more, check.passes bytes = true := by
  simp only [Header.checks, headerFits, startsWithMagic, typeIsKnown, typeIsOneOf, payloadFits,
    List.cons_append, List.nil_append, List.forall_mem_cons, decide_eq_true_eq, beq_iff_eq,
    List.any_eq_true, typeAt?_eq_some_iff, List.length_drop, Option.isSome_iff_exists]
  constructor
  · rintro ⟨header, first, _, one, enough, others⟩
    exact ⟨by omega, first, one, others⟩
  · rintro ⟨enough, first, ⟨kind, member, code⟩, others⟩
    exact ⟨by omega, first, ⟨kind, code⟩, ⟨kind, member, code⟩, by omega, others⟩

theorem recordIsKnown_iff {bytes : Bytes}
    : (∀ check ∈ [recordIsKnown], check.passes bytes = true)
      ↔ byteAt bytes 12 ∈ [(0 : UInt8), 1, 2] := by
  simp [recordIsKnown]

-----------------------------------------------------------------------------------------
-- What does not count
-----------------------------------------------------------------------------------------

/-- The places of the version and of the sequence number in a header. -/
def unreadPlaces : List Nat := [4, 5, 8, 9, 10, 11]

/-- The same bytes up to a place, but for the version and the sequence number. -/
def SameFields (size : Nat) (bytes bytes' : Bytes) : Prop :=
  ∀ index < size, index ∉ unreadPlaces → bytes[index]? = bytes'[index]?

/-- The bytes up to a number of zeros, the last of these included. -/
def throughZeros : Nat → Bytes → Bytes
  | 0, _ => []
  | _ + 1, [] => []
  | count + 1, b :: rest => b :: throughZeros (if b = 0 then count else count + 1) rest

theorem untilZero_cons_of_ne {b : UInt8} (other : b ≠ 0) (rest : Bytes)
    : untilZero (b :: rest) = (b :: (untilZero rest).1, (untilZero rest).2) := by
  simp [untilZero, other]

/-- Up to the first zero of some bytes nothing counts behind it, and behind it nothing counts past
the zeros that are left, by induction over the bytes.
-/
theorem untilZero_throughZeros (count : Nat) (bytes : Bytes)
    : untilZero (throughZeros (count + 1) bytes)
      = ((untilZero bytes).1, throughZeros count (untilZero bytes).2) := by
  induction bytes with
  | nil => cases count <;> rfl
  | cons b rest ih =>
      rw [throughZeros]
      by_cases zero : b = 0
      · rw [if_pos zero, zero]
        rfl
      · rw [if_neg zero, untilZero_cons_of_ne zero, ih, untilZero_cons_of_ne zero]

theorem texts_congr {texts texts' : Bytes} (same : throughZeros 2 texts = throughZeros 2 texts')
    : (untilZero texts).1 = (untilZero texts').1
      ∧ (untilZero (untilZero texts).2).1 = (untilZero (untilZero texts').2).1 := by
  have first := congrArg untilZero same
  rw [untilZero_throughZeros, untilZero_throughZeros, Prod.mk.injEq] at first
  have second := congrArg untilZero first.2
  rw [untilZero_throughZeros, untilZero_throughZeros, Prod.mk.injEq] at second
  exact ⟨first.1, second.1⟩

theorem byteAt_drop (count : Nat) (bytes : Bytes) (index : Nat)
    : byteAt (bytes.drop count) index = byteAt bytes (count + index) := by
  simp [byteAt, List.getD_eq_getElem?_getD]

namespace SameFields

variable {size : Nat} {bytes bytes' : Bytes}

theorem byteAt_eq (same : SameFields size bytes bytes') {index : Nat} (below : index < size)
    (counts : index ∉ unreadPlaces)
    : byteAt bytes index = byteAt bytes' index := by
  rw [byteAt, byteAt, List.getD_eq_getElem?_getD, List.getD_eq_getElem?_getD,
    same index below counts]

/-- What passes is as long as it has to be, for its last place counts. -/
theorem length_le (same : SameFields size bytes bytes') (counts : size - 1 ∉ unreadPlaces)
    (positive : 0 < size) (enough : size ≤ bytes.length)
    : size ≤ bytes'.length := by
  have there : bytes[size - 1]? = bytes'[size - 1]? := same (size - 1) (by omega) counts
  rw [List.getElem?_eq_getElem (by omega)] at there
  obtain ⟨inside, _⟩ := List.getElem?_eq_some_iff.mp there.symm
  omega

theorem header_eq (same : SameFields size bytes bytes') (header : Header.size ≤ size) (index : Nat)
    (below : index < Header.size) (counts : index ∉ unreadPlaces)
    : byteAt bytes index = byteAt bytes' index :=
  same.byteAt_eq (by omega) counts

theorem word32At_eq (same : SameFields size bytes bytes') (header : Header.size ≤ size)
    : word32At bytes 0 = word32At bytes' 0 := by
  have fields := same.header_eq header
  simp (disch := decide) only [word32At, fields]

theorem typeAt_eq (same : SameFields size bytes bytes') (header : Header.size ≤ size)
    : word16At bytes 6 = word16At bytes' 6 := by
  have fields := same.header_eq header
  simp (disch := decide) only [word16At, fields]

/-- Behind the header every byte counts. -/
theorem payload_eq {count : Nat} (same : SameFields (Header.size + count) bytes bytes')
    (index : Nat) (below : index < count)
    : byteAt (bytes.drop Header.size) index = byteAt (bytes'.drop Header.size) index := by
  rw [byteAt_drop, byteAt_drop]
  refine same.byteAt_eq (by omega) ?_
  simp only [unreadPlaces, Header.size, List.mem_cons, List.not_mem_nil, or_false]
  omega

/-- What does not count does not decide whether a packet passes. -/
theorem passes {kinds : List PacketType} {expected : PacketType} {count : Nat} {more : List Check}
    (same : SameFields (Header.size + count) bytes bytes') (positive : 0 < count)
    (others : (∀ check ∈ more, check.passes bytes = true) →
      ∀ check ∈ more, check.passes bytes' = true)
    (passed : ∀ check ∈ Header.checks ++ typeIsOneOf kinds expected :: payloadFits count :: more,
      check.passes bytes = true)
    : ∀ check ∈ Header.checks ++ typeIsOneOf kinds expected :: payloadFits count :: more,
        check.passes bytes' = true := by
  obtain ⟨enough, first, one, rest⟩ := passes_iff.mp passed
  have counts : Header.size + count - 1 ∉ unreadPlaces := by
    simp only [unreadPlaces, Header.size, List.mem_cons, List.not_mem_nil, or_false]
    omega
  refine passes_iff.mpr ⟨same.length_le counts (by omega) enough, ?_, ?_, others rest⟩
  · rw [← same.word32At_eq (Nat.le_add_right ..), first]
  · rwa [← same.typeAt_eq (Nat.le_add_right ..)]

end SameFields

/-- The fields of a reply are the same if they are in the same bytes. -/
theorem DiscoverReply.ofPayload_congr {bytes bytes' : Bytes}
    (same : SameFields (Header.size + fixedSize) bytes bytes')
    (texts : throughZeros 2 (bytes.drop (Header.size + fixedSize))
      = throughZeros 2 (bytes'.drop (Header.size + fixedSize)))
    : ofPayload (bytes.drop Header.size) = ofPayload (bytes'.drop Header.size) := by
  have fields := same.payload_eq
  obtain ⟨info, name⟩ := texts_congr texts
  simp (disch := decide) only [ofPayload, word16At, word32At, fields, List.drop_drop, info, name]

theorem PortCounts.ofPayload_congr {bytes bytes' : Bytes}
    (same : SameFields (Header.size + bodySize) bytes bytes') (chromasic : Bool)
    : ofPayload chromasic (bytes.drop Header.size)
      = ofPayload chromasic (bytes'.drop Header.size) := by
  have fields := same.payload_eq
  simp (disch := decide) only [ofPayload, word16At, fields]

theorem ScanRecord.ofPayload_congr {bytes bytes' : Bytes}
    (same : SameFields (Header.size + bodySize) bytes bytes')
    : ofPayload (bytes.drop Header.size) = ofPayload (bytes'.drop Header.size) := by
  have fields := same.payload_eq
  simp (disch := decide) only [ofPayload, word16At, fields]

end PixelTree.Kinet
