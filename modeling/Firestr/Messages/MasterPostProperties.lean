import Firestr.Messages.MasterPost
import Firestr.Messages.MessageProperties

/-! What leaves one master post office and what comes in at another. A message
arrives as it was sent, and whatever else arrives is skipped, ends in an
exception, or is marked with where it came from. -/

set_option autoImplicit false

namespace Firestr.Messages

open Firestr.Library.Assoc Firestr.Library.Outcomes Firestr.Network Firestr.Security Firestr.Util

variable {Random Public Key Double : Type} {ciphers theirs : Ciphers Random Public Key}
  {snappy : Snappy} {doubles : Doubles Double}

/-- What is compressed is not empty, and is uncompressed to what it was. -/
structure Snappy.Inverts (snappy : Snappy) : Prop where
  nonempty : ∀ i, snappy.compress i ≠ []
  inverts : ∀ i, snappy.uncompress (snappy.compress i) = some i

/-- How a mail goes out to the id `i`. -/
def Mail.chosen (m : Mail Double) (sl : EncryptedChannels Public) (i : String) : EncryptionType :=
  match m.encryption with
  | .conversation => sl.chosen i
  | .asymmetric => .asymmetric
  | .symmetric => .symmetric
  | .plaintext => .plaintext

/-- The mark of a message that is encrypted so. -/
def arrivedAs : EncryptionType → MessageEncryption
  | .symmetric => .symmetric
  | .asymmetric => .asymmetric
  | .plaintext | .unknown => .plaintext

/-- A mail as it comes in from an endpoint, without the address of the post office. -/
def Mail.arrived (m : Mail Double) (ep : Endpoint) (rest : Address) (type : EncryptionType) :
    Mail Double where
  message := { m.message with metadata := { m.message.metadata with
    toAddress := rest
    extra := stamped ep m.message.metadata.extra } }
  source := .remote
  encryption := arrivedAs type

section Delivery

open EncryptedChannels

variable {s r : EncryptedChannels Public} {own i j : String} {m : Mail Double} {ep : Endpoint}

theorem encryptMessage_decrypts {data : Bytes} (invertible : Invertible ciphers theirs own)
    (opens : Opens ciphers theirs own s r i j (m.chosen s i)) (some? : data ≠ [])
    (random : Random) : ∃ out next, encryptMessage ciphers data m i s random = .ok (out, next) ∧
      r.decrypt theirs doubles own j out = .ok (data, some (m.chosen s i)) := by
  rw [encryptMessage]
  rw [Mail.chosen] at opens ⊢
  cases encryption : m.encryption with
  | plaintext => exact ⟨_, random, rfl, decrypt_encryptPlaintext some?⟩
  | symmetric =>
      rw [encryption] at opens
      obtain ⟨out, encrypted, decrypted⟩ :=
        @decrypt_encryptSymmetric _ _ _ _ _ _ doubles _ _ _ _ _ data invertible opens
      simp only [encrypted, ok_bind, pure_ok]
      exact ⟨out, random, rfl, decrypted⟩
  | asymmetric =>
      rw [encryption] at opens
      exact decrypt_encryptAsymmetric invertible opens some? random
  | conversation =>
      rw [encryption] at opens
      exact decrypt_encrypt_chosen invertible opens some? random

theorem Mail.chosen_known : m.chosen s i ≠ .unknown := by
  rw [Mail.chosen]
  cases m.encryption with
  | conversation =>
      rw [EncryptedChannels.chosen]
      cases s.channels i with
      | none =>
          intro same
          cases same
      | some c => cases ready : c.sharedSecret.ready <;> simp [ready]
  | _ =>
      intro same
      cases same

theorem toMessageEncryptionType_eq {type : EncryptionType} (known : type ≠ .unknown) :
    toMessageEncryptionType type = .ok (arrivedAs type) := by
  cases type with
  | unknown => exact absurd rfl known
  | _ => rfl

/-- Without empty keys a message is decoded to just what it was. -/
theorem decode_encode_eq {m : Message Double} (formed : m.Formed doubles)
    (nonempty : (Value.dict m.metadata.extra).KeysNonempty) :
    Message.decode doubles (m.encode doubles) = .ok m := by
  obtain ⟨after, read⟩ := Message.read_encode formed {} [] 0
  have extra := decoded_eq_self formed.extra nonempty
  rw [Value.decoded, Value.dict.injEq] at extra
  rw [List.append_nil] at read
  rw [Message.decode, read, ok_bind, extra]
  rfl

private theorem encode_ne_nil (m : Message Double) : m.encode doubles ≠ [] := by
  intro none?
  have first := List.append_eq_nil_iff.mp (List.append_eq_nil_iff.mp none?).1
  simp [encodeB] at first

theorem inPass_of_decrypt {outside data : Bytes} {rest : Address} {type : EncryptionType}
    (snaps : snappy.Inverts) (formed : m.message.Formed doubles)
    (nonempty : (Value.dict m.message.metadata.extra).KeysNonempty)
    (receiver : m.message.metadata.toAddress = outside :: rest)
    (decrypted : r.decrypt theirs doubles own (makeAddressStr ep) data =
      .ok (snappy.compress (m.message.encode doubles), some type)) (known : type ≠ .unknown) :
    inPass theirs snappy doubles own r ep data = .ok (some (m.arrived ep rest type)) := by
  have whole : uncompress snappy (snappy.compress (m.message.encode doubles)) =
      m.message.encode doubles := by rw [uncompress, snaps.inverts, Option.getD_some]
  simp only [inPass, decrypted, ok_bind, List.isEmpty_eq_false_iff.mpr (snaps.nonempty _), whole,
    List.isEmpty_eq_false_iff.mpr (encode_ne_nil _), Bool.false_eq_true, if_false,
    decode_encode_eq formed nonempty, receiver, toMessageEncryptionType_eq known, pure_ok]
  rfl

/-- A mail that goes out comes in as it was, from where the other node takes it to come. -/
theorem inPass_outPass {outside : Bytes} {rest : Address}
    (invertible : Invertible ciphers theirs own) (snaps : snappy.Inverts)
    (formed : m.message.Formed doubles)
    (nonempty : (Value.dict m.message.metadata.extra).KeysNonempty)
    (receiver : m.message.metadata.toAddress = outside :: rest)
    (sender : m.message.metadata.fromAddress ≠ [])
    (opens : Opens ciphers theirs own s r (idOf outside) (makeAddressStr ep)
      (m.chosen s (idOf outside))) (random : Random) :
    ∃ data next, outPass ciphers snappy doubles s random m = .ok
        ({ outsideQueueAddress := outside, data := data, robust := m.robust }, next) ∧
      inPass theirs snappy doubles own r ep data =
        .ok (some (m.arrived ep rest (m.chosen s (idOf outside)))) := by
  obtain ⟨data, next, encrypted, decrypted⟩ := @encryptMessage_decrypts _ _ _ _ _ _ doubles _ _ _
    _ _ m (snappy.compress (m.message.encode doubles)) invertible opens (snaps.nonempty _) random
  have some? : m.message.metadata.fromAddress.length ≥ 1 := List.length_pos_iff.mpr sender
  have more : (outside :: rest).length ≥ 1 := Nat.succ_le_succ (Nat.zero_le _)
  refine ⟨data, next, ?_, inPass_of_decrypt snaps formed nonempty receiver decrypted
    Mail.chosen_known⟩
  simp only [outPass, receiver, decide_eq_true some?, decide_eq_true more, require_true, ok_bind,
    encrypted, pure_ok]

end Delivery

section Marks

/-- The letter of a key in front of what is encrypted with it. -/
def markCiphers (deriveKey : Nat → Public → Key) (mark : Key → UInt8) :
    Ciphers UInt8 Public Key where
  blocks _ := BlockCipher.paddedBlocks
  deriveKey := deriveKey
  encrypt key bs := .ok (mark key :: bs)
  decrypt key es :=
    match es with
    | [] => .error (.thrown "no mark")
    | e :: bs => if e = mark key then .ok bs else .error (.thrown "another mark")

theorem markCiphers_invertible (deriveKey others : Nat → Public → Key) (mark : Key → UInt8)
    (own : String) : EncryptedChannels.Invertible (markCiphers deriveKey mark)
      (markCiphers others mark) own where
  blocks := BlockCipher.paddedBlocks_inverts
  own := rfl
  keys key bs := ⟨mark key :: bs, rfl, List.cons_ne_nil _ _, if_pos rfl⟩

/-- A byte in front of everything. -/
def framed : Snappy where
  compress i := 0 :: i
  uncompress i := i.tail?

theorem framed_inverts : framed.Inverts := ⟨fun _ => List.cons_ne_nil _ _, fun _ => rfl⟩

end Marks

end Firestr.Messages
