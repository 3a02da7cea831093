import Firestr.Messages.Message
import Firestr.Util.MencodeInput

/-! Reading a message back. Each part is read to its end and no further, so
that the next one starts where it was written. -/

set_option autoImplicit false

namespace Firestr.Messages

open Firestr.Library.Outcomes Firestr.Util

variable {Double : Type} {doubles : Doubles Double} {m : Message Double}

/-- A message as the types of its fields have it. What it is written as is a
string too, with a `size_t` length. -/
structure Message.Formed (doubles : Doubles Double) (m : Message Double) : Prop where
  type : m.metadata.type.length < 2 ^ 64
  toAddress : ∀ s ∈ m.metadata.toAddress, s.length < 2 ^ 64
  fromAddress : ∀ s ∈ m.metadata.fromAddress, s.length < 2 ^ 64
  extra : (Value.dict m.metadata.extra).Formed
  header : (m.metadata.header doubles).length < 2 ^ 64
  data : m.data.length < 2 ^ 64

/-- Messages that are equal when dictionaries are compared as maps. -/
structure Message.Same (r m : Message Double) : Prop where
  type : r.metadata.type = m.metadata.type
  toAddress : r.metadata.toAddress = m.metadata.toAddress
  fromAddress : r.metadata.fromAddress = m.metadata.fromAddress
  extra : (Value.dict r.metadata.extra).Same (.dict m.metadata.extra)
  data : r.data = m.data

theorem addressArray_formed {address : Address} (small : ∀ s ∈ address, s.length < 2 ^ 64) :
    (addressArray address : Value Double).Formed := by
  refine .array fun e member => ?_
  obtain ⟨s, inside, rfl⟩ := List.mem_map.mp member
  exact .bytes (small s inside)

theorem readAddress_eq (old address : Address) :
    readAddress old (decodedElements (address.map (Value.bytes : Bytes → Value Double))) =
      .ok (old ++ address) := by
  induction address generalizing old with
  | nil => rw [List.append_nil]; rfl
  | cons s address ih =>
      have rest := ih (old ++ [s])
      rw [List.append_assoc, List.singleton_append] at rest
      exact rest

theorem Message.read_encode (formed : m.Formed doubles) (old : Message Double) (more : Bytes)
    (position : Nat) :
    ∃ after, old.read doubles { rest := m.encode doubles ++ more, position := position } =
      .ok ({
        metadata := {
          type := m.metadata.type
          toAddress := old.metadata.toAddress ++ m.metadata.toAddress
          fromAddress := old.metadata.fromAddress ++ m.metadata.fromAddress
          extra := decodedEntries [] m.metadata.extra }
        data := m.data },
        { rest := more, position := after }) := by
  obtain ⟨p, type⟩ := readBytes_eq doubles
    (encodeB (m.metadata.header doubles) ++ (encodeB m.data ++ more)) position formed.type
  obtain ⟨q, header⟩ := readBytes_eq doubles (encodeB m.data ++ more) p formed.header
  obtain ⟨r, data⟩ := readBytes_eq doubles more q formed.data
  obtain ⟨s, receivers⟩ := readArray_eq doubles
    ((addressArray m.metadata.fromAddress : Value Double).encode doubles ++
      ((Value.dict m.metadata.extra).encode doubles ++ [])) 0
    (addressArray_formed formed.toAddress)
  obtain ⟨t, senders⟩ := readArray_eq doubles
    ((Value.dict m.metadata.extra).encode doubles ++ []) s
    (addressArray_formed formed.fromAddress)
  obtain ⟨u, extra⟩ := readDict_eq doubles [] t formed.extra
  have parts : m.metadata.header doubles =
      (addressArray m.metadata.toAddress : Value Double).encode doubles ++
        ((addressArray m.metadata.fromAddress : Value Double).encode doubles ++
          ((Value.dict m.metadata.extra).encode doubles ++ [])) := by
    rw [Metadata.header, List.append_nil, List.append_assoc]
  have whole : m.encode doubles ++ more = encodeB m.metadata.type ++
      (encodeB (m.metadata.header doubles) ++ (encodeB m.data ++ more)) := by
    rw [Message.encode, List.append_assoc, List.append_assoc]
  refine ⟨r, ?_⟩
  rw [whole, Message.read, type, ok_bind]
  simp only [header, ok_bind]
  rw [parts]
  simp only [addressArray] at receivers senders ⊢
  simp only [receivers, senders, extra, readAddress_eq, data, ok_bind, pure_ok]

/-- Decoding what a message is encoded as gives the message again. -/
theorem decode_encode_message (formed : m.Formed doubles)
    (nonempty : (Value.dict m.metadata.extra).KeysNonempty) :
    ∃ r, Message.decode doubles (m.encode doubles) = .ok r ∧ r.Same m := by
  obtain ⟨after, read⟩ := Message.read_encode formed {} [] 0
  have extra := (same_decoded_iff formed.extra).mpr nonempty
  rw [Value.decoded] at extra
  rw [List.append_nil] at read
  rw [Message.decode, read]
  exact ⟨_, rfl, rfl, rfl, rfl, extra, rfl⟩

/-- A message to one address, with one empty value and no data. -/
def greeting : Message Unit where
  metadata := {
    type := ascii "greeting"
    toAddress := [ascii "a"]
    extra := [(ascii "name", .empty)] }

theorem decode_encode_message_greeting :
    ∃ r, Message.decode loneDouble (greeting.encode loneDouble) = .ok r ∧ r.Same greeting := by
  have formed : greeting.Formed loneDouble :=
    ⟨by decide, by decide, by decide, oneKey_formed (by decide), by decide, by decide⟩
  refine decode_encode_message formed (.dict (by decide) fun e member => ?_)
  cases List.mem_singleton.mp member
  exact .empty

end Firestr.Messages
