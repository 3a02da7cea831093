import Firestr.Security.EncryptedChannels
import Firestr.Security.KeyBlocks

/-! What goes over the wire is encrypted, with the channel to the peer or without one,
and its first byte says how. -/

set_option autoImplicit false

namespace Firestr.Security

open Firestr.Library.Outcomes Firestr.Util

/-- `encryption_type`, the first byte of what is encrypted. -/
inductive EncryptionType where
  | plaintext
  | symmetric
  | asymmetric
  | unknown
  deriving DecidableEq, Repr

def EncryptionType.mark : EncryptionType → UInt8
  | plaintext => 80
  | symmetric => 83
  | asymmetric => 65
  | unknown => 85

/-- What the channels use of Botan: the blocks of a key pair, by its public key, the key that
two secrets agree on, and the cipher with such a key. -/
structure Ciphers (Random Public Key : Type) where
  blocks : String → BlockCipher Random
  deriveKey : Nat → Public → Key
  encrypt : Key → Bytes → Outcome Bytes
  decrypt : Key → Bytes → Outcome Bytes

variable {Random Public Key Double : Type} (ciphers : Ciphers Random Public Key)

/-- The symmetric key, once there is one. -/
def DhSecret.key (s : DhSecret Public) : Option Key :=
  s.otherPubValue.map (ciphers.deriveKey s.secret)

def DhSecret.encrypt (s : DhSecret Public) (bs : Bytes) : Outcome Bytes :=
  match s.key ciphers with
  | none => .error (.raised .require "ready()")
  | some key => ciphers.encrypt key bs

def DhSecret.decrypt (s : DhSecret Public) (bs : Bytes) : Outcome Bytes :=
  match s.key ciphers with
  | none => .error (.raised .require "ready()")
  | some key => ciphers.decrypt key bs

def appendPrefix (p : EncryptionType) (bs : Bytes) : Bytes := p.mark :: bs

namespace EncryptedChannels

section Encrypt

variable (s : EncryptedChannels Public) (i : String) (bs : Bytes) (random : Random)

def encryptPlaintext (bs : Bytes) : Bytes := appendPrefix .plaintext bs

def encryptAsymmetric : Outcome (Bytes × Random) :=
  if bs.isEmpty then pure ([], random)
  else match s.channels i with
    | none => pure ([], random)
    | some c =>
      match c.key with
      | none => .error (.raised .invariant "_k")
      | some key => do
        let (es, random) ← (ciphers.blocks key).publicEncrypt bs random
        pure (appendPrefix .asymmetric es, random)

def encryptSymmetric : Outcome Bytes :=
  match s.channels i with
  | none => pure []
  | some c => do
    require c.sharedSecret.ready "s->second.shared_secret.ready()"
    let es ← c.sharedSecret.encrypt ciphers bs
    pure (appendPrefix .symmetric es)

def encrypt : Outcome (Bytes × Random) :=
  match s.channels i with
  | none => pure (encryptPlaintext bs, random)
  | some c =>
    if !c.sharedSecret.ready then s.encryptAsymmetric ciphers i bs random
    else do
      let es ← s.encryptSymmetric ciphers i bs
      pure (es, random)

end Encrypt

/-- `decrypt` of who has the private key to the key `own`. The type is not there where it is not
assigned. -/
def decrypt (doubles : Doubles Double) (own : String) (s : EncryptedChannels Public)
    (i : String) (bs : Bytes) : Outcome (Bytes × Option EncryptionType) :=
  match bs with
  | [] | [_] => pure ([], none)
  | mark :: cb =>
    if mark = EncryptionType.plaintext.mark then pure (cb, some .plaintext)
    else if mark = EncryptionType.symmetric.mark then
      match s.channels i with
      | none => pure ([], some .symmetric)
      | some c =>
        if !c.sharedSecret.ready then pure ([], some .symmetric)
        else do
          let ds ← c.sharedSecret.decrypt ciphers cb
          pure (ds, some .symmetric)
    else if mark = EncryptionType.asymmetric.mark then do
      let ds ← (ciphers.blocks own).privateDecrypt doubles cb
      pure (ds, some .asymmetric)
    else pure ([], some .unknown)

section Decrypt

variable {ciphers} {theirs : Ciphers Random Public Key} {doubles : Doubles Double}
  {s r : EncryptedChannels Public} {own i j : String} {bs : Bytes} {type : EncryptionType}
  {encryption : Option EncryptionType}

/-- What two nodes rely on: the keys of `own` and each symmetric key undo what they encrypt, and
leave nothing empty. -/
structure Invertible (ciphers theirs : Ciphers Random Public Key) (own : String) : Prop where
  blocks : (ciphers.blocks own).Inverts
  own : theirs.blocks own = ciphers.blocks own
  keys : ∀ key bs, ∃ es, ciphers.encrypt key bs = .ok es ∧ es ≠ [] ∧
    theirs.decrypt key es = .ok bs

/-- What a node encrypts so for the id `i` can be decrypted by the node with the keys of `own`,
which takes it to come from the id `j`. -/
inductive Opens (ciphers theirs : Ciphers Random Public Key) (own : String)
    (s r : EncryptedChannels Public) (i j : String) : EncryptionType → Prop where
  | plaintext : Opens ciphers theirs own s r i j .plaintext
  | asymmetric {c : Channel Public} : s.channels i = some c → c.key = some own →
      Opens ciphers theirs own s r i j .asymmetric
  | symmetric {c d : Channel Public} {key : Key} : s.channels i = some c →
      r.channels j = some d → c.sharedSecret.key ciphers = some key →
      d.sharedSecret.key theirs = some key → Opens ciphers theirs own s r i j .symmetric

/-- What `encrypt` chooses. -/
def chosen (s : EncryptedChannels Public) (i : String) : EncryptionType :=
  match s.channels i with
  | none => .plaintext
  | some c => if c.sharedSecret.ready then .symmetric else .asymmetric

private theorem ready_of_key {c : DhSecret Public} {key : Key} (drawn : c.key ciphers = some key) :
    c.ready = true := by
  obtain ⟨pub, other, -⟩ := Option.map_eq_some_iff.mp drawn
  rw [DhSecret.ready, other, Option.isSome_some]

theorem decrypt_encryptPlaintext (some? : bs ≠ []) :
    r.decrypt theirs doubles own j (encryptPlaintext bs) = .ok (bs, some .plaintext) := by
  obtain ⟨b, more, rfl⟩ := List.exists_cons_of_ne_nil some?
  rfl

theorem decrypt_encryptAsymmetric (invertible : Invertible ciphers theirs own)
    (opens : Opens ciphers theirs own s r i j .asymmetric) (some? : bs ≠ []) (random : Random) :
    ∃ out next, s.encryptAsymmetric ciphers i bs random = .ok (out, next) ∧
      r.decrypt theirs doubles own j out = .ok (bs, some .asymmetric) := by
  cases opens with
  | @asymmetric c found keyed =>
  obtain ⟨blocks, next, encrypted, decrypts⟩ :=
    BlockCipher.publicEncrypt_eq invertible.blocks bs random
  have opened := BlockCipher.privateDecrypt_eq decrypts doubles
  rw [← invertible.own] at opened
  have nonempty : blocks.flatMap encodeB ≠ [] := by
    rintro none?
    cases decrypts with
    | nil => exact some? rfl
    | cons => simp [encodeB] at none?
  obtain ⟨e, more, same⟩ := List.exists_cons_of_ne_nil nonempty
  rw [same] at encrypted opened
  refine ⟨appendPrefix .asymmetric (e :: more), next, ?_, ?_⟩
  · simp only [EncryptedChannels.encryptAsymmetric, List.isEmpty_eq_false_iff.mpr some?, found,
      keyed, encrypted, ok_bind, pure_ok, Bool.false_eq_true, if_false]
  · simp only [EncryptedChannels.decrypt, appendPrefix, opened, ok_bind, pure_ok]
    rfl

theorem decrypt_encryptSymmetric (invertible : Invertible ciphers theirs own)
    (opens : Opens ciphers theirs own s r i j .symmetric) :
    ∃ out, s.encryptSymmetric ciphers i bs = .ok out ∧
      r.decrypt theirs doubles own j out = .ok (bs, some .symmetric) := by
  cases opens with
  | @symmetric c d key found found' mine theirs =>
  obtain ⟨es, encrypted, nonempty, opened⟩ := invertible.keys key bs
  obtain ⟨e, more, rfl⟩ := List.exists_cons_of_ne_nil nonempty
  refine ⟨appendPrefix .symmetric (e :: more), ?_, ?_⟩
  · simp only [EncryptedChannels.encryptSymmetric, found, ready_of_key mine, require_true, ok_bind,
      DhSecret.encrypt, mine, encrypted, pure_ok]
  · simp only [EncryptedChannels.decrypt, appendPrefix, found', ready_of_key theirs,
      DhSecret.decrypt, theirs, opened, ok_bind, pure_ok]
    rfl

/-- What `encrypt` encrypts the other node decrypts, if it can decrypt what is chosen. -/
theorem decrypt_encrypt_chosen (invertible : Invertible ciphers theirs own)
    (opens : Opens ciphers theirs own s r i j (s.chosen i)) (some? : bs ≠ []) (random : Random) :
    ∃ out next, s.encrypt ciphers i bs random = .ok (out, next) ∧
      r.decrypt theirs doubles own j out = .ok (bs, some (s.chosen i)) := by
  rw [EncryptedChannels.encrypt]
  cases found : s.channels i with
  | none =>
      have plain : s.chosen i = .plaintext := by rw [chosen, found]
      rw [plain]
      exact ⟨_, random, rfl, decrypt_encryptPlaintext some?⟩
  | some c =>
      cases ready : c.sharedSecret.ready with
      | false =>
          have asymmetric : s.chosen i = .asymmetric := by
            rw [chosen, found]
            simp only [ready, Bool.false_eq_true, if_false]
          rw [asymmetric] at opens ⊢
          simp only [ready, Bool.not_false, if_true]
          exact decrypt_encryptAsymmetric invertible opens some? random
      | true =>
          have symmetric : s.chosen i = .symmetric := by
            rw [chosen, found]
            simp only [ready, if_true]
          rw [symmetric] at opens ⊢
          obtain ⟨out, encrypted, decrypted⟩ :=
            @decrypt_encryptSymmetric _ _ _ _ _ _ doubles _ _ _ _ _ bs invertible opens
          simp only [ready, Bool.not_true, Bool.false_eq_true, if_false, encrypted, ok_bind, pure_ok]
          exact ⟨out, random, rfl, decrypted⟩

/-- How the bytes from `i` that a node has decrypted were encrypted, if there are any: a
symmetric key is that of a ready channel. -/
def Known (s : EncryptedChannels Public) (i : String) (r : Bytes × Option EncryptionType) : Prop :=
  r.1 ≠ [] → ∃ type, r.2 = some type ∧ type ≠ .unknown ∧
    (type = .symmetric → ∃ c, s.channels i = some c ∧ c.sharedSecret.ready = true)

end Decrypt

end EncryptedChannels

end Firestr.Security
