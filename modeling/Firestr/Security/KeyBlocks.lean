import Firestr.Util.MencodeInput
import Firestr.Util.MencodeProperties

/-! Encryption with a public key, block by block. The encrypted blocks follow each other as
byte strings without a count, and are decrypted until nothing can be read. -/

set_option autoImplicit false

namespace Firestr.Security

open Firestr.Library.Outcomes Firestr.Util

/-- What the keys use of Botan: `PK_Encryptor_EME`, which draws from the random numbers, and
`PK_Decryptor_EME`. -/
structure BlockCipher (Random : Type) where
  maximumInputSize : Nat
  encrypt : Random → Bytes → Outcome (Bytes × Random)
  decrypt : Bytes → Outcome Bytes

namespace BlockCipher

variable {Random Double : Type}

section Keys

variable (cipher : BlockCipher Random) (doubles : Doubles Double)

/-- The loop of `public_key::encrypt`. -/
def encryptLoop (b : Bytes) : Nat → Nat → Random → Bytes → Outcome (Bytes × Random)
  | 0, _, _, _ => .error .diverged
  | fuel + 1, advance, random, rs =>
    if advance < b.length then do
      let size := min cipher.maximumInputSize (b.length - advance)
      let (bs, random) ← cipher.encrypt random ((b.drop advance).take size)
      encryptLoop b fuel (advance + size) random (rs ++ encodeB bs)
    else pure (rs, random)

/-- `public_key::encrypt` of a key that is there, with fuel for a pass for each byte. -/
def publicEncrypt (b : Bytes) (random : Random) : Outcome (Bytes × Random) :=
  cipher.encryptLoop b (b.length + 1) 0 random []

/-- The loop of `private_key::decrypt`. -/
def decryptLoop : Nat → Stream → Bytes → Bytes → Outcome Bytes
  | 0, _, _, _ => .error .diverged
  | fuel + 1, s, bs, rs =>
    if !bs.isEmpty then do
      let r ← cipher.decrypt bs
      let (bs, s) ← readBytes doubles s
      decryptLoop fuel s bs (rs ++ r)
    else pure rs

/-- `private_key::decrypt` of a key that is there, with fuel for a pass for each byte and for
those at the end of the stream. -/
def privateDecrypt (b : Bytes) : Outcome Bytes := do
  let (bs, s) ← readBytes doubles { rest := b }
  cipher.decryptLoop doubles (b.length + 3) s bs []

end Keys

/-- A block is decrypted to what it was, and no encrypted block is empty. -/
structure Inverts (cipher : BlockCipher Random) : Prop where
  positive : 1 ≤ cipher.maximumInputSize
  inverts : ∀ random block, 1 ≤ block.length → block.length ≤ cipher.maximumInputSize →
    ∃ bs next, cipher.encrypt random block = .ok (bs, next) ∧ cipher.decrypt bs = .ok block ∧
      bs ≠ [] ∧ bs.length < 2 ^ 64

/-- Encrypted blocks, and what they are decrypted to. -/
inductive Blocks (cipher : BlockCipher Random) : List Bytes → Bytes → Prop where
  | nil : Blocks cipher [] []
  | cons {bs block b : Bytes} {rest : List Bytes} : bs ≠ [] → bs.length < 2 ^ 64 →
      cipher.decrypt bs = .ok block → Blocks cipher rest b →
      Blocks cipher (bs :: rest) (block ++ b)

variable {cipher : BlockCipher Random} {doubles : Doubles Double} {b : Bytes}

/-- The loop writes the blocks of what is left of `b`. -/
theorem encryptLoop_eq (inverts : cipher.Inverts) (fuel advance : Nat) (random : Random)
    (rs : Bytes) (enough : b.length - advance < fuel) :
    ∃ blocks next, cipher.encryptLoop b fuel advance random rs =
      .ok (rs ++ blocks.flatMap encodeB, next) ∧ Blocks cipher blocks (b.drop advance) := by
  induction fuel generalizing advance random rs with
  | zero => omega
  | succ fuel ih =>
      unfold encryptLoop
      by_cases more : advance < b.length
      · have positive := inverts.positive
        have size : ((b.drop advance).take
            (min cipher.maximumInputSize (b.length - advance))).length =
              min cipher.maximumInputSize (b.length - advance) := by
          rw [List.length_take, List.length_drop]
          omega
        obtain ⟨bs, drawn, encrypted, decrypted, nonempty, small⟩ :=
          inverts.inverts random ((b.drop advance).take
            (min cipher.maximumInputSize (b.length - advance))) (by omega) (by omega)
        obtain ⟨blocks, next, rest, decrypts⟩ := ih
          (advance + min cipher.maximumInputSize (b.length - advance)) drawn (rs ++ encodeB bs)
          (by omega)
        refine ⟨bs :: blocks, next, ?_, ?_⟩
        · simp only [if_pos more, encrypted, ok_bind, rest, List.flatMap_cons, List.append_assoc]
        · rw [← List.take_append_drop (min cipher.maximumInputSize (b.length - advance))
            (b.drop advance), List.drop_drop]
          exact .cons nonempty small decrypted decrypts
      · rw [if_neg more, List.drop_eq_nil_of_le (by omega)]
        exact ⟨[], random, by rw [List.flatMap_nil, List.append_nil, pure_ok], .nil⟩

/-- At the end of the stream the bytes that are read are empty. -/
theorem readBytes_end (position : Nat) :
    ∃ s, readBytes doubles { rest := [], position := position } = .ok ([], s) :=
  ⟨_, rfl⟩

/-- The loop decrypts block after block, and stops behind the last one. -/
theorem decryptLoop_eq {blocks : List Bytes} (decrypts : Blocks cipher blocks b) (fuel : Nat)
    (enough : blocks.length < fuel) (position : Nat) (rs : Bytes) :
    (do
      let (bs, s) ← readBytes doubles { rest := blocks.flatMap encodeB, position := position }
      cipher.decryptLoop doubles fuel s bs rs) = .ok (rs ++ b) := by
  induction decrypts generalizing fuel position rs with
  | nil =>
      obtain ⟨s, read⟩ := @readBytes_end _ doubles position
      cases fuel with
      | zero => cases enough
      | succ fuel =>
          rw [List.flatMap_nil, read, ok_bind, List.append_nil]
          rfl
  | @cons bs block b rest nonempty small decrypted _ ih =>
      obtain ⟨after, read⟩ := readBytes_eq doubles (rest.flatMap encodeB) position small
      cases fuel with
      | zero => cases enough
      | succ fuel =>
          have more : (!bs.isEmpty) = true := not_isEmpty_of_ne_nil nonempty
          have later := ih fuel (Nat.lt_of_succ_lt_succ enough) after (rs ++ block)
          rw [List.append_assoc] at later
          simp only [List.flatMap_cons, read, ok_bind, decryptLoop, if_pos more, decrypted]
          exact later

theorem length_le_flatMap (blocks : List Bytes) : blocks.length ≤ (blocks.flatMap encodeB).length := by
  induction blocks with
  | nil => exact Nat.le_refl 0
  | cons bs blocks ih =>
      rw [List.flatMap_cons, List.length_append, List.length_cons, encodeB, List.length_append,
        List.length_append, List.length_singleton]
      omega

theorem publicEncrypt_eq (inverts : cipher.Inverts) (b : Bytes) (random : Random) :
    ∃ blocks next, cipher.publicEncrypt b random = .ok (blocks.flatMap encodeB, next) ∧
      Blocks cipher blocks b :=
  encryptLoop_eq inverts (b.length + 1) 0 random [] (by omega)

theorem privateDecrypt_eq {blocks : List Bytes} (decrypts : Blocks cipher blocks b)
    (doubles : Doubles Double) :
    cipher.privateDecrypt doubles (blocks.flatMap encodeB) = .ok b := by
  have fuel := length_le_flatMap blocks
  exact decryptLoop_eq decrypts _ (by omega) 0 []

/-- Every byte string is decrypted to what it was before it was encrypted. -/
theorem decrypt_encrypt (inverts : cipher.Inverts) (doubles : Doubles Double) (b : Bytes)
    (random : Random) : ∃ encrypted next, cipher.publicEncrypt b random = .ok (encrypted, next) ∧
      cipher.privateDecrypt doubles encrypted = .ok b := by
  obtain ⟨blocks, next, encrypted, decrypts⟩ := publicEncrypt_eq inverts b random
  exact ⟨_, next, encrypted, privateDecrypt_eq decrypts doubles⟩

/-- Blocks of up to two bytes behind a random byte. -/
def paddedBlocks : BlockCipher UInt8 where
  maximumInputSize := 2
  encrypt := fun random block => .ok (random :: block, random + 1)
  decrypt := fun bs => .ok bs.tail

theorem paddedBlocks_inverts : paddedBlocks.Inverts where
  positive := by decide
  inverts random block _ short := by
    refine ⟨random :: block, random + 1, rfl, rfl, List.cons_ne_nil _ _, ?_⟩
    have short : block.length ≤ 2 := short
    rw [List.length_cons]
    omega

theorem decrypt_encrypt_padded : ∃ encrypted next,
    paddedBlocks.publicEncrypt [1, 2, 3] 7 = .ok (encrypted, next) ∧
      paddedBlocks.privateDecrypt loneDouble encrypted = .ok [1, 2, 3] :=
  decrypt_encrypt paddedBlocks_inverts loneDouble [1, 2, 3] 7

end BlockCipher

end Firestr.Security
