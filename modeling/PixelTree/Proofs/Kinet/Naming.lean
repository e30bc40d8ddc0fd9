import PixelTree.Proofs.Kinet.Replies
import PixelTree.Proofs.Text.Fitting

/-! The name that a supply is given, as it is read from the answers of the supply later. A name is
cut after 31 bytes, and these need not end with a character of it.
-/

namespace PixelTree.Kinet

open Text (utf8 decodeLenient fittingText LongestFit)

/-- The field of a packet that gives a name, which is all behind the header. -/
def nameField (packet : Bytes) : Bytes :=
  packet.drop Header.size

/-- The text in a field that is filled up with zeros. -/
def textIn (field : Bytes) : String :=
  decodeLenient (untilZero field).1

/-- The bytes of a reply whose name is in a field as it is. -/
def DiscoverReply.encodeWithField (reply : DiscoverReply) (field : Bytes) : Bytes :=
  packet .discoverReply
    (reply.ip.octets ++ reply.mac.bytes.toList ++ bytes16 reply.kinetVersion
      ++ bytes32 reply.serial ++ bytes32 reply.dmxUniverse ++ (utf8 reply.info ++ 0 :: field))

/-- A reply is read with the text in its field as its name. -/
theorem DiscoverReply.decode_encodeWithField {reply : DiscoverReply}
    (clean : '\x00' ∉ reply.info.toList) (field : Bytes)
    : decode (reply.encodeWithField field) = .ok { reply with name := textIn field } := by
  have info : untilZero (utf8 reply.info ++ 0 :: field) = (utf8 reply.info, field) :=
    untilZero_utf8 clean field
  rw [decode, encodeWithField, decodeHeader_packet_self]
  refine (decodeBody_eq reply _).trans ?_
  rw [info, Text.decodeLenient_utf8]
  rfl

/-- The field of a name holds its first 31 bytes, and at least one zero behind them. -/
theorem exists_zeros_field_setName (name : String)
    : ∃ zeros,
        nameField (setName name)
        = (utf8 name).take 31 ++ 0 :: List.replicate zeros 0
        ∧ ((utf8 name).take 31).length + zeros = 31 := by
  have most : ((utf8 name).take 31).length ≤ 31 := List.length_take_le 31 (utf8 name)
  have filled : nameField (setName name)
      = (utf8 name).take 31 ++ List.replicate (32 - ((utf8 name).take 31).length) 0 := rfl
  obtain ⟨zeros, rest⟩ := Nat.exists_eq_add_of_le most
  have last : 32 - ((utf8 name).take 31).length = zeros + 1 := by omega
  rw [last, List.replicate_succ] at filled
  exact ⟨zeros, filled, rest.symm⟩

theorem length_field_setName (name : String) : (nameField (setName name)).length = 32 := by
  obtain ⟨zeros, filled, length⟩ := exists_zeros_field_setName name
  rw [filled, List.length_append, List.length_cons, List.length_replicate]
  omega

/-- The packet of a name ends with a zero. -/
theorem getLast?_setName (name : String) : (setName name).getLast? = some 0 := by
  obtain ⟨zeros, filled, _⟩ := exists_zeros_field_setName name
  have whole : setName name = (setName name).take 12 ++ nameField (setName name) :=
    (List.take_append_drop 12 (setName name)).symm
  have ended : (0 : UInt8) :: List.replicate zeros 0 = List.replicate zeros 0 ++ [0] := by
    rw [← List.replicate_succ, List.replicate_succ']
  rw [whole, filled, ended, ← List.append_assoc, ← List.append_assoc, List.getLast?_concat]

/-- The text in the field of a name is its longest start that fits, and a replacement if the field
ends inside a character.
-/
theorem textIn_field_setName {name : String} (clean : '\x00' ∉ name.toList)
    : textIn (nameField (setName name))
      = if (utf8 (fittingText 31 name)).length < min 31 (utf8 name).length
        then fittingText 31 name ++ "\ufffd"
        else fittingText 31 name := by
  obtain ⟨zeros, filled, _⟩ := exists_zeros_field_setName name
  have nonzero : ∀ b ∈ (utf8 name).take 31, b ≠ 0 := by
    intro b member
    exact ne_zero_of_mem_encoded clean b (List.mem_of_mem_take member)
  rw [textIn, filled, untilZero_append nonzero]
  exact Text.decodeLenient_take_utf8 31 name

/-- A name without zeros fills a packet of 44 bytes with a zero at the end. The name that is read
from its field, by itself or in a reply, is the longest start of the name that fits into 31 bytes,
with a replacement behind it if the 31 bytes end inside a character. So it is a start of the name
unless they do, or if the character that they end in is a replacement itself, and it is the name if
that has at most 31 bytes.
-/
theorem setName_carries_start {name : String} (clean : '\x00' ∉ name.toList)
    : (setName name).length = 44
      ∧ (setName name).getLast? = some 0
      ∧ (∃ kept : String,
          LongestFit 31 name kept
          ∧ textIn (nameField (setName name))
            = (if (utf8 kept).length < min 31 (utf8 name).length then kept ++ "\ufffd" else kept)
          ∧ ((textIn (nameField (setName name))).toList <+: name.toList
            ↔ (utf8 kept).length = min 31 (utf8 name).length
              ∨ (kept ++ "\ufffd").toList <+: name.toList))
      ∧ ((utf8 name).length ≤ 31 → textIn (nameField (setName name)) = name)
      ∧ ∀ reply : DiscoverReply, '\x00' ∉ reply.info.toList →
          DiscoverReply.decode (reply.encodeWithField (nameField (setName name)))
          = .ok { reply with name := textIn (nameField (setName name)) } := by
  have longest := Text.longestFit_fittingText 31 name
  have read := textIn_field_setName clean
  have length : (setName name).length = 44 := by
    have behind := length_field_setName name
    rw [nameField, List.length_drop, Header.size] at behind
    omega
  refine ⟨length, getLast?_setName name, ⟨_, longest, read, ?_⟩, ?_, ?_⟩
  · rw [read]
    exact longest.prefix_iff
  · intro short
    have most : ¬(utf8 name).length < min 31 (utf8 name).length := by omega
    rw [read, longest.eq_self short, if_neg most]
  · intro reply infoClean
    exact DiscoverReply.decode_encodeWithField infoClean _

/-- A name of six bytes is read as it was. -/
theorem setName_carries_short
    : '\x00' ∉ "Bühne".toList
      ∧ (utf8 "Bühne").length ≤ 31
      ∧ textIn (nameField (setName "Bühne")) = "Bühne" := by
  have clean : '\x00' ∉ "Bühne".toList := by decide
  have short : (utf8 "Bühne").length ≤ 31 := by decide +kernel
  exact ⟨clean, short, (setName_carries_start clean).2.2.2.1 short⟩

/-- Of thirty letters of one byte and one of two, the first byte of the last letter is left. -/
theorem setName_cuts_letter
    : '\x00' ∉ "aaaaaaaaaaaaaaaaaaaaaaaaaaaaaaé".toList
      ∧ textIn (nameField (setName "aaaaaaaaaaaaaaaaaaaaaaaaaaaaaaé"))
        = "aaaaaaaaaaaaaaaaaaaaaaaaaaaaaa\ufffd"
      ∧ ¬(textIn (nameField (setName "aaaaaaaaaaaaaaaaaaaaaaaaaaaaaaé"))).toList
        <+: "aaaaaaaaaaaaaaaaaaaaaaaaaaaaaaé".toList := by
  have clean : '\x00' ∉ "aaaaaaaaaaaaaaaaaaaaaaaaaaaaaaé".toList := by decide
  have read : textIn (nameField (setName "aaaaaaaaaaaaaaaaaaaaaaaaaaaaaaé"))
      = "aaaaaaaaaaaaaaaaaaaaaaaaaaaaaa\ufffd" := by
    rw [textIn_field_setName clean]
    decide +kernel
  refine ⟨clean, read, ?_⟩
  rw [read]
  decide +kernel

end PixelTree.Kinet
