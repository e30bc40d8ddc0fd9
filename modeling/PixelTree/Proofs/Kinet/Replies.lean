import PixelTree.Kinet.Reply
import PixelTree.Proofs.Kinet.Header
import PixelTree.Proofs.Text.Utf8

/-! What supplies answer is read back from its bytes, whatever follows these. The texts of a reply
end at zeros, so a text with a zero in it is not read back as it was.
-/

namespace PixelTree.Kinet

open Text (utf8 decodeLenient)

/-- The pieces of a text between its zeros; there is one more of them than there are zeros. -/
def zeroPieces (s : String) : List String :=
  (s.toList.splitOn '\x00').map String.ofList

theorem decodeHeader_packet (kind : PacketType) (payload rest : Bytes)
    : decodeHeader kind (packet kind payload ++ rest) = .ok (payload ++ rest) := by
  rw [decodeHeader, packet, List.append_assoc, Header.decode_encode]
  simp [Header.outgoing, bind, Except.bind, pure, Except.pure]

/-- A packet that is whole is its header and its payload. -/
theorem decodeHeader_packet_self (kind : PacketType) (payload : Bytes)
    : decodeHeader kind (packet kind payload) = .ok payload := by
  simpa only [List.append_nil] using decodeHeader_packet kind payload []

-----------------------------------------------------------------------------------------
-- Replies of fixed length
-----------------------------------------------------------------------------------------

/-- Light counts are read back in the form that they came in. -/
theorem PortCounts.decode_encode (reply : PortCounts) (rest : Bytes)
    : decode (reply.encode ++ rest) = .ok reply := by
  have form : form? reply.kind = some reply.chromasic := by
    rw [kind]
    cases reply.chromasic <;> rfl
  have body : decodeBody reply.chromasic (reply.counts.toList.flatMap bytes16 ++ rest)
      = .ok reply := by
    obtain ⟨chromasic, ⟨⟨counts⟩, size⟩⟩ := reply
    match counts, size with
    | [a, b, c, d], _ =>
        change decodeBody chromasic ([a, b, c, d].flatMap bytes16 ++ rest) = _
        simp only [List.flatMap_cons, List.flatMap_nil, bytes16, List.cons_append,
          List.nil_append, decodeBody, word16_bytes]
        rfl
  rw [decode, encode, packet, List.append_assoc, Header.decode_encode]
  simp only [bind, Except.bind, Header.outgoing, form, body]

theorem ScanRecord.ofFields_fields (record : ScanRecord)
    : ofFields record.kindByte record.fields = .ok record := by
  cases record <;> rfl

/-- A record of an enumeration is read back, the fields that it does not have left out. -/
theorem ScanRecord.decode_encode (record : ScanRecord) (rest : Bytes)
    : decode (record.encode ++ rest) = .ok record := by
  rw [decode, encode, decodeHeader_packet]
  simp only [bind, Except.bind, bytes16, List.cons_append, List.nil_append, decodeBody,
    word16_bytes]
  exact record.ofFields_fields

-----------------------------------------------------------------------------------------
-- Replies with texts
-----------------------------------------------------------------------------------------

/-- What is in front of the first zero is taken, and the zero is left out. -/
theorem untilZero_append {front : Bytes} (clean : ∀ b ∈ front, b ≠ 0) (rest : Bytes)
    : untilZero (front ++ 0 :: rest) = (front, rest) := by
  have stops : ∀ b ∈ front, (b != 0) = true := by simpa using clean
  rw [untilZero, List.takeWhile_append_of_pos stops, List.dropWhile_append_of_pos stops]
  simp

theorem ne_zero_of_mem_encoded {cs : List Char} (clean : '\x00' ∉ cs)
    : ∀ b ∈ cs.flatMap String.utf8EncodeChar, b ≠ 0 := by
  intro b member
  obtain ⟨c, inText, inChar⟩ := List.mem_flatMap.mp member
  have other : c ≠ '\x00' := by
    rintro rfl
    exact clean inText
  exact Text.ne_zero_of_mem_utf8EncodeChar other inChar

/-- Text without zeros is taken up to the zero that ends it. -/
theorem untilZero_utf8 {cs : List Char} (clean : '\x00' ∉ cs) (rest : Bytes)
    : untilZero (cs.flatMap String.utf8EncodeChar ++ 0 :: rest)
      = (cs.flatMap String.utf8EncodeChar, rest) :=
  untilZero_append (ne_zero_of_mem_encoded clean) rest

theorem flatMap_utf8_zero (front back : List Char)
    : (front ++ '\x00' :: back).flatMap String.utf8EncodeChar
      = front.flatMap String.utf8EncodeChar ++ 0 :: back.flatMap String.utf8EncodeChar := by
  rw [List.flatMap_append, List.flatMap_cons]
  rfl

/-- A text with a zero in it has a first piece, which has none. -/
theorem exists_first_piece {cs : List Char} (ended : '\x00' ∈ cs)
    : ∃ first others,
        cs = first ++ '\x00' :: others
        ∧ '\x00' ∉ first
        ∧ cs.splitOn '\x00' = first :: others.splitOn '\x00' := by
  obtain ⟨first, others, rfl, clean⟩ := List.eq_append_cons_of_mem ended
  refine ⟨first, others, rfl, clean, ?_⟩
  rw [List.splitOn_eq_splitOnP, List.splitOn_eq_splitOnP]
  refine List.splitOnP_append_cons_of_forall_mem (p := (· == '\x00')) ?_ '\x00' rfl others
  intro c member
  exact beq_eq_false_iff_ne.mpr (fun zero => clean (zero ▸ member))

namespace DiscoverReply

/-- The two texts of a reply as one, each ended by a zero. -/
def texts (reply : DiscoverReply) : String :=
  reply.info ++ "\x00" ++ reply.name ++ "\x00"

theorem toList_texts (reply : DiscoverReply)
    : reply.texts.toList = reply.info.toList ++ '\x00' :: (reply.name.toList ++ ['\x00']) := by
  simp [texts, String.toList_append]

/-- The first two pieces of the texts of a reply, which end in front of its last zero. -/
theorem exists_two_pieces (reply : DiscoverReply)
    : ∃ first second others,
        reply.texts.toList = first ++ '\x00' :: (second ++ '\x00' :: others)
        ∧ '\x00' ∉ first
        ∧ '\x00' ∉ second
        ∧ reply.texts.toList.splitOn '\x00' = first :: second :: others.splitOn '\x00' := by
  have ended : '\x00' ∈ reply.texts.toList := by simp [toList_texts]
  obtain ⟨first, behind, whole, firstClean, firstSplit⟩ := exists_first_piece ended
  have endedAgain : '\x00' ∈ behind := by
    have zeros := congrArg (List.count '\x00') whole
    rw [toList_texts] at zeros
    simp only [List.count_append, List.count_cons_self, List.count_nil,
      List.count_eq_zero.mpr firstClean] at zeros
    exact List.count_pos_iff.mp (by omega)
  obtain ⟨second, others, rfl, secondClean, secondSplit⟩ := exists_first_piece endedAgain
  exact ⟨first, second, others, whole, firstClean, secondClean, by rw [firstSplit, secondSplit]⟩

/-- What follows the header is read field by field, and the texts are cut at their zeros. -/
theorem decodeBody_eq (reply : DiscoverReply) (texts : Bytes)
    : decodeBody
        (reply.ip.octets ++ reply.mac.bytes.toList ++ bytes16 reply.kinetVersion
          ++ bytes32 reply.serial ++ bytes32 reply.dmxUniverse ++ texts)
      = .ok
        { reply with
          info := decodeLenient (untilZero texts).1
          name := decodeLenient (untilZero (untilZero texts).2).1 } := by
  obtain ⟨⟨a, b, c, d⟩, ⟨⟨⟨mac⟩, size⟩⟩, version, serial, dmxUniverse, info, name⟩ := reply
  match mac, size with
  | [m₀, m₁, m₂, m₃, m₄, m₅], _ =>
      change decodeBody ([a, b, c, d] ++ [m₀, m₁, m₂, m₃, m₄, m₅] ++ bytes16 version
        ++ bytes32 serial ++ bytes32 dmxUniverse ++ texts) = _
      simp only [bytes16, bytes32, List.cons_append, List.nil_append, decodeBody, word16_bytes,
        word32_bytes]
      rfl

theorem encode_eq (reply : DiscoverReply)
    : reply.encode
      = packet .discoverReply
        (reply.ip.octets ++ reply.mac.bytes.toList ++ bytes16 reply.kinetVersion
          ++ bytes32 reply.serial ++ bytes32 reply.dmxUniverse ++ utf8 reply.texts) := by
  have texts : utf8 reply.texts = utf8 reply.info ++ [0] ++ utf8 reply.name ++ [0] := by
    simp only [utf8, toList_texts, flatMap_utf8_zero, List.flatMap_nil, List.append_assoc,
      List.cons_append, List.nil_append]
  rw [encode, texts]
  simp only [List.append_assoc]

/-- A reply is read back with the first two pieces of its texts as its texts. -/
theorem decode_encode (reply : DiscoverReply) (rest : Bytes)
    : ∃ info name others,
        zeroPieces reply.texts = info :: name :: others
        ∧ '\x00' ∉ info.toList
        ∧ '\x00' ∉ name.toList
        ∧ decode (reply.encode ++ rest) = .ok { reply with info, name } := by
  obtain ⟨first, second, others, whole, firstClean, secondClean, split⟩ :=
    reply.exists_two_pieces
  refine ⟨String.ofList first, String.ofList second, _, by rw [zeroPieces, split]; rfl, ?_, ?_, ?_⟩
  · rwa [String.toList_ofList]
  · rwa [String.toList_ofList]
  have bytes : utf8 reply.texts ++ rest
      = utf8 (String.ofList first)
        ++ 0 :: (utf8 (String.ofList second)
          ++ 0 :: (others.flatMap String.utf8EncodeChar ++ rest)) := by
    simp only [utf8, whole, flatMap_utf8_zero, String.toList_ofList, List.append_assoc,
      List.cons_append]
  have info : untilZero (utf8 reply.texts ++ rest)
      = (utf8 (String.ofList first), utf8 (String.ofList second)
          ++ 0 :: (others.flatMap String.utf8EncodeChar ++ rest)) := by
    rw [bytes, utf8, String.toList_ofList]
    exact untilZero_utf8 firstClean _
  have name : untilZero (utf8 (String.ofList second)
        ++ 0 :: (others.flatMap String.utf8EncodeChar ++ rest))
      = (utf8 (String.ofList second), others.flatMap String.utf8EncodeChar ++ rest) := by
    rw [utf8, String.toList_ofList]
    exact untilZero_utf8 secondClean _
  rw [decode, encode_eq, decodeHeader_packet, List.append_assoc]
  refine (decodeBody_eq reply _).trans ?_
  rw [info, name, Text.decodeLenient_utf8, Text.decodeLenient_utf8]

/-- Without a zero in them, the texts of a reply are its info, its name, and nothing more. -/
theorem zeroPieces_texts (reply : DiscoverReply) (infoFree : '\x00' ∉ reply.info.toList)
    (nameFree : '\x00' ∉ reply.name.toList)
    : zeroPieces reply.texts = [reply.info, reply.name, ""] := by
  have joined : reply.texts.toList
      = ['\x00'].intercalate [reply.info.toList, reply.name.toList, []] := by
    simp [toList_texts]
  have clean : ∀ piece ∈ [reply.info.toList, reply.name.toList, []], '\x00' ∉ piece := by
    simp [infoFree, nameFree]
  rw [zeroPieces, joined, List.splitOn_intercalate '\x00' clean (by simp)]
  simp

/-- A reply is read back as it was exactly if there is no zero in its texts. -/
theorem decode_encode_eq_self_iff (reply : DiscoverReply) (rest : Bytes)
    : decode (reply.encode ++ rest) = .ok reply
      ↔ '\x00' ∉ reply.info.toList ∧ '\x00' ∉ reply.name.toList := by
  obtain ⟨info, name, others, pieces, infoClean, nameClean, read⟩ := reply.decode_encode rest
  rw [read]
  constructor
  · intro same
    have fields := Except.ok.inj same
    rw [← congrArg DiscoverReply.info fields, ← congrArg DiscoverReply.name fields]
    exact ⟨infoClean, nameClean⟩
  · rintro ⟨infoFree, nameFree⟩
    rw [reply.zeroPieces_texts infoFree nameFree] at pieces
    obtain ⟨rfl, behind⟩ := List.cons.inj pieces
    obtain ⟨rfl, _⟩ := List.cons.inj behind
    rfl

end DiscoverReply

-----------------------------------------------------------------------------------------
-- All formats
-----------------------------------------------------------------------------------------

/-- Every packet that can be read is read back from its bytes, whatever follows them. A header is
exactly the first twelve bytes that it is read from, and leaves all others. A reply keeps
everything but its texts, which are the first two pieces between zeros, and so all of it exactly
if there is no zero in its texts.
-/
theorem codecs_round_trip
    : (∀ (header : Header) (rest : Bytes),
        Header.decode (header.encode ++ rest) = .ok (header, rest))
      ∧ (∀ (bytes rest : Bytes) (header : Header),
        Header.decode bytes = .ok (header, rest)
        ↔ header.encode = bytes.take Header.size ∧ rest = bytes.drop Header.size)
      ∧ (∀ (reply : PortCounts) (rest : Bytes),
        PortCounts.decode (reply.encode ++ rest) = .ok reply)
      ∧ (∀ (record : ScanRecord) (rest : Bytes),
        ScanRecord.decode (record.encode ++ rest) = .ok record)
      ∧ ∀ (reply : DiscoverReply) (rest : Bytes),
        (∃ info name others,
          zeroPieces (reply.info ++ "\x00" ++ reply.name ++ "\x00") = info :: name :: others
          ∧ DiscoverReply.decode (reply.encode ++ rest) = .ok { reply with info, name })
        ∧ (DiscoverReply.decode (reply.encode ++ rest) = .ok reply
          ↔ '\x00' ∉ reply.info.toList ∧ '\x00' ∉ reply.name.toList) := by
  refine ⟨Header.decode_encode, fun bytes rest header => Header.decode_eq_ok_iff_take,
    PortCounts.decode_encode, ScanRecord.decode_encode, fun reply rest => ⟨?_, ?_⟩⟩
  · obtain ⟨info, name, others, pieces, _, _, read⟩ := reply.decode_encode rest
    exact ⟨info, name, others, pieces, read⟩
  · exact reply.decode_encode_eq_self_iff rest

end PixelTree.Kinet
