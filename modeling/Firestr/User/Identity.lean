import Firestr.Library.Base64
import Firestr.Library.Blocks
import Firestr.User.UserDataTrip
import Firestr.Util.FileSystemProperties

/-! Identities as users give them to each other: the info and its greeter in base 64 text,
in lines that may be spaced in any way before they are read. -/

set_option autoImplicit false

namespace Firestr.User.Saved

open Firestr.Library Firestr.Library.Blocks Firestr.Util

/-- What is used of `QByteArray`. -/
structure Base64Coder where
  toBase64 : Bytes → Bytes
  fromBase64 : Bytes → Bytes

section Text

variable (coder : Base64Coder)

/-- The lines of `to_base_64`, with `st` at each multiple of the stride. -/
def base64Lines (bs : Bytes) : Bytes :=
  (List.range (blockCount 64 bs.length)).flatMap fun line => block 64 bs line ++ [10]

def toBase64 (s : Bytes) : Bytes := base64Lines (cString (coder.toBase64 (cString s)))

def goodChar (c : UInt8) : Bool := c ≠ 10 && c ≠ 13 && c ≠ 32 && c ≠ 9

def fromBase64 (s : Bytes) : Bytes := cString (coder.fromBase64 (cString (s.filter goodChar)))

end Text

structure Identity where
  contact : UserInfo := {}
  greeter : Bytes := []
  deriving DecidableEq, Repr

section Streams

variable {Double : Type} (c : UserContext Double) (coder : Base64Coder)

/-- `operator >>` of a `value`. -/
def readValue (i : Stream) : Outcome (Value Double × Stream) := do
  let (v, i, _) ← decodeValue c.doubles (i.rest.length + 1) i {}
  pure (v, i)

def createIdentity (cf : Identity) : Outcome Bytes := do
  let contact ← writeUserInfo c cf.contact
  pure (toBase64 coder (contact ++ (Value.bytes cf.greeter).encode c.doubles))

/-- The values of `parse_identity`, before any is assigned. -/
def readIdentity (iden : Bytes) : Outcome (UserInfo × Value Double) := do
  let (u, i) ← readUserInfo c { rest := iden }
  let (gv, _) ← readValue c i
  pure (u, gv)

/-- `parse_identity`, which catches the exceptions. The contact is assigned before the
greeter is known to be a string. -/
def parseIdentity (iden64 : Bytes) (cf : Identity) : Outcome (Bool × Identity) :=
  match readIdentity c (fromBase64 coder iden64) with
  | .ok (u, gv) =>
    match gv.asString with
    | .ok greeter => .ok (true, { contact := u, greeter := greeter })
    | .error (.thrown _) => .ok (false, { cf with contact := u })
    | .error fault => .error fault
  | .error (.thrown _) => .ok (false, cf)
  | .error fault => .error fault

end Streams

/-- Decoding gives the bytes back, and the text is made of base 64 digits and padding. -/
structure Base64Coder.Correct (coder : Base64Coder) : Prop where
  decode_encode : ∀ bytes, coder.fromBase64 (coder.toBase64 bytes) = bytes
  alphabet : ∀ bytes, ∀ char ∈ coder.toBase64 bytes, Base64.InAlphabet char

/-- A text with blanks, tabs, carriage returns or newlines put in anywhere. -/
inductive Spaced : Bytes → Bytes → Prop where
  | nil : Spaced [] []
  | keep (char : UInt8) {text spaced : Bytes} : Spaced text spaced →
      Spaced (char :: text) (char :: spaced)
  | blank {char : UInt8} {text spaced : Bytes} : char = 32 ∨ char = 9 ∨ char = 13 ∨ char = 10 →
      Spaced text spaced → Spaced text (char :: spaced)

theorem Spaced.refl (text : Bytes) : Spaced text text := by
  induction text with
  | nil => exact .nil
  | cons char text ih => exact .keep char ih

section Lines

variable {coder : Base64Coder} {text spaced : Bytes} {char : UInt8}

theorem Spaced.filter_eq (inserted : Spaced text spaced) :
    spaced.filter goodChar = text.filter goodChar := by
  induction inserted with
  | nil => rfl
  | keep char _ ih => rw [List.filter_cons, List.filter_cons, ih]
  | blank space _ ih =>
      rw [List.filter_cons_of_neg (by rcases space with rfl | rfl | rfl | rfl <;> decide), ih]

theorem goodChar_of_inAlphabet (digit? : Base64.InAlphabet char) : goodChar char = true := by
  by_contra bad
  have blank : char = 10 ∨ char = 13 ∨ char = 32 ∨ char = 9 := by
    unfold goodChar at bad
    simp only [Bool.and_eq_true, decide_eq_true_eq] at bad
    tauto
  unfold Base64.InAlphabet at digit?
  revert digit?
  rcases blank with rfl | rfl | rfl | rfl
  · decide
  · decide
  · decide
  · decide

theorem ne_zero_of_inAlphabet (digit? : Base64.InAlphabet char) : char ≠ 0 := by
  rintro rfl
  unfold Base64.InAlphabet at digit?
  revert digit?
  decide

/-- The newlines are dropped again. -/
theorem filter_base64Lines (good : ∀ char ∈ text, goodChar char = true) :
    (base64Lines text).filter goodChar = text := by
  have lines : ∀ line, (block 64 text line ++ [10]).filter goodChar = block 64 text line := by
    intro line
    have inside : ∀ char ∈ block 64 text line, goodChar char = true := fun char member =>
      good char (List.mem_of_mem_drop (List.mem_of_mem_take member))
    rw [List.filter_append, List.filter_eq_self.mpr inside]
    exact List.append_nil _
  unfold base64Lines
  rw [List.filter_flatMap]
  simp only [lines]
  exact flatMap_block (by decide)

/-- A text without NUL is read back however its lines are spaced. -/
theorem fromBase64_toBase64 (correct : coder.Correct) (whole : 0 ∉ text)
    (inserted : Spaced (toBase64 coder text) spaced) : fromBase64 coder spaced = text := by
  have alphabet := correct.alphabet text
  have plain : 0 ∉ coder.toBase64 text := fun member =>
    ne_zero_of_inAlphabet (alphabet 0 member) rfl
  have good : ∀ char ∈ coder.toBase64 text, goodChar char = true := fun char member =>
    goodChar_of_inAlphabet (alphabet char member)
  unfold fromBase64
  rw [inserted.filter_eq, toBase64, cString_of_not_mem whole, cString_of_not_mem plain,
    filter_base64Lines good, cString_of_not_mem plain, correct.decode_encode,
    cString_of_not_mem whole]

end Lines

section Whole

variable {Double : Type} {c : UserContext Double}

theorem zero_not_mem_encodeB {text : Bytes} (whole : 0 ∉ text) : 0 ∉ encodeB text := by
  unfold encodeB
  simp only [List.mem_append, List.mem_singleton, not_or]
  refine ⟨⟨fun member => ?_, by decide⟩, whole⟩
  have digit := (Decimal.mem_numeral member).1
  rw [UInt8.toNat_zero] at digit
  omega

theorem zero_not_mem_encodeEntries {doubles : Doubles Double} {d : Dict Double}
    (whole : ∀ e ∈ d, 0 ∉ e.1 ∧ 0 ∉ e.2.encode doubles) : 0 ∉ encodeEntries doubles d := by
  induction d with
  | nil => exact List.not_mem_nil
  | cons e d ih =>
      obtain ⟨key, value⟩ := whole e List.mem_cons_self
      rw [encodeEntries]
      simp only [List.mem_append, not_or]
      exact ⟨⟨zero_not_mem_encodeB key, value⟩, ih fun other member => whole other (.tail _ member)⟩

theorem zero_not_mem_encodeElements {doubles : Doubles Double} {texts : List Bytes}
    (whole : ∀ text ∈ texts, 0 ∉ text) :
    0 ∉ encodeElements doubles (texts.map Value.bytes) := by
  induction texts with
  | nil => exact List.not_mem_nil
  | cons text texts ih =>
      rw [List.map_cons, encodeElements, Value.encode]
      simp only [List.mem_append, not_or]
      exact ⟨zero_not_mem_encodeB (whole text List.mem_cons_self),
        ih fun other member => whole other (.tail _ member)⟩

/-- None of the strings of an identity contains a NUL. -/
structure Identity.Whole (i : Identity) : Prop where
  contact : ∀ text ∈ i.contact.name :: i.contact.id :: i.contact.pkey.ks :: i.contact.addresses,
    0 ∉ text
  greeter : 0 ∉ i.greeter

theorem Identity.Whole.encode {i : Identity} (whole : i.Whole) (addressed : i.contact.addresses ≠ []) :
    0 ∉ (c.value (infoEntries i.contact)).encode c.doubles := by
  have texts := whole.contact
  have keys : ∀ key ∈ [ascii "address", ascii "name", ascii "id", ascii "pkey"], 0 ∉ key := by
    decide
  have address : 0 ∉ (addressEntry i.contact : Bytes × Value Double).1 ∧
      0 ∉ (addressEntry i.contact).2.encode c.doubles := by
    unfold addressEntry
    split
    · have elements := @zero_not_mem_encodeElements _ c.doubles i.contact.addresses
        fun text member => texts text (by simp [member])
      rw [Value.encode]
      simp only [List.mem_append, not_or]
      exact ⟨by decide, ⟨by decide, elements⟩, by decide⟩
    · have first := texts i.contact.address (by simp [address_mem addressed])
      exact ⟨keys _ (by simp), zero_not_mem_encodeB first⟩
  unfold UserContext.value
  rw [Value.encode]
  simp only [List.mem_append, not_or]
  refine ⟨⟨by decide, zero_not_mem_encodeEntries fun e member => ?_⟩, by decide⟩
  have inside := (c.walk.perm _).mem_iff.mp member
  simp only [infoEntries, List.mem_cons, List.not_mem_nil, or_false] at inside
  rcases inside with rfl | rfl | rfl | rfl
  · exact address
  · exact ⟨keys _ (by simp), zero_not_mem_encodeB (texts _ (by simp))⟩
  · exact ⟨keys _ (by simp), zero_not_mem_encodeB (texts _ (by simp))⟩
  · exact ⟨keys _ (by simp), zero_not_mem_encodeB (texts _ (by simp))⟩

end Whole

section RoundTrip

variable {Double : Type} {c : UserContext Double} {coder : Base64Coder} {i : Identity}

def identityText (c : UserContext Double) (i : Identity) : Bytes :=
  (c.value (infoEntries i.contact)).encode c.doubles ++ (Value.bytes i.greeter).encode c.doubles

theorem identityText_whole (whole : i.Whole) (addressed : i.contact.addresses ≠ []) :
    0 ∉ identityText c i := by
  unfold identityText
  rw [List.mem_append, not_or]
  exact ⟨whole.encode addressed, zero_not_mem_encodeB whole.greeter⟩

theorem createIdentity_eq (savable : i.contact.Savable c.keys) :
    createIdentity c coder i = .ok (toBase64 coder (identityText c i)) := by
  unfold createIdentity identityText
  rw [writeUserInfo_eq savable, ok_bind, pure_ok]

/-- The greeter follows the contact, and is read as the string it was. -/
theorem readIdentity_eq (savable : i.contact.Savable c.keys) (named : i.contact.Named)
    (small : i.greeter.length < 2 ^ 64) :
    readIdentity c (identityText c i) = .ok (i.contact, .bytes i.greeter) := by
  obtain ⟨after, contact⟩ := readUserInfo_eq savable named ((Value.bytes i.greeter).encode c.doubles) 0
  obtain ⟨last, left, greeter⟩ := decodeValue_reads c.doubles (Value.Formed.bytes small)
    (Nat.le_succ ((Value.bytes i.greeter).encode c.doubles).length) [] after {}
  rw [List.append_nil] at greeter
  unfold readIdentity identityText readValue
  simp only [contact, ok_bind, greeter, pure_ok, Value.decoded]

/-- An identity is read from its text, however its lines are spaced, if the name and the id
are not empty. -/
theorem identity_comes_back (correct : coder.Correct) (savable : i.contact.Savable c.keys)
    (named : i.contact.Named) (small : i.greeter.length < 2 ^ 64) (whole : i.Whole)
    (cf : Identity) : ∃ iden64, createIdentity c coder i = .ok iden64 ∧
      ∀ spaced, Spaced iden64 spaced → parseIdentity c coder spaced cf = .ok (true, i) := by
  refine ⟨_, createIdentity_eq savable, fun spaced inserted => ?_⟩
  have text := identityText_whole (c := c) whole savable.addressed
  unfold parseIdentity
  rw [fromBase64_toBase64 correct text inserted, readIdentity_eq savable named small]
  rfl

end RoundTrip

section Witness

/-- `QByteArray` as it is documented. -/
def qtCoder : Base64Coder where
  toBase64 := Base64.encode
  fromBase64 := Base64.decode

theorem qtCoder_correct : qtCoder.Correct where
  decode_encode := Base64.decode_encode
  alphabet := Base64.inAlphabet_of_mem_encode

def givenIdentity (name id : Bytes) : Identity where
  contact := namedInfo name id
  greeter := ascii "localhost:7070"

private theorem givenIdentity_whole {name id : Bytes} (name_whole : 0 ∉ name)
    (id_whole : 0 ∉ id) : (givenIdentity name id).Whole := by
  have addresses : ∀ text ∈ [ascii "udp://localhost:10", ascii "local"], 0 ∉ text := by decide
  have greeter : 0 ∉ ascii "localhost:7070" := by decide
  refine ⟨?_, greeter⟩
  rw [List.forall_mem_cons, List.forall_mem_cons, List.forall_mem_cons]
  exact ⟨name_whole, id_whole, rsaText_plain.2.2, addresses⟩

theorem identity_comes_back_named : ∃ iden64,
    createIdentity oneKeyContext qtCoder (givenIdentity (ascii "friend") (ascii "1")) =
        .ok iden64 ∧
      ∀ spaced, Spaced iden64 spaced → parseIdentity oneKeyContext qtCoder spaced {} =
        .ok (true, givenIdentity (ascii "friend") (ascii "1")) :=
  identity_comes_back qtCoder_correct (namedInfo_savable (by decide) (by decide))
    ⟨by decide, by decide⟩ (by decide) (givenIdentity_whole (by decide) (by decide)) {}

private theorem refused_identity_fails {i : Identity} {text : String}
    (savable : i.contact.Savable oneKeyContext.keys) (whole : i.Whole)
    (refused : UserInfo.new i.contact.addresses i.contact.name i.contact.id i.contact.pkey =
      .error (.raised .require text)) :
    ∃ iden64, createIdentity oneKeyContext qtCoder i = .ok iden64 ∧
      parseIdentity oneKeyContext qtCoder iden64 {} = .error (.raised .require text) := by
  have plain := identityText_whole (c := oneKeyContext) whole savable.addressed
  obtain ⟨after, contact⟩ := readUserInfo_new savable
    ((Value.bytes i.greeter).encode oneKeyContext.doubles) 0
  have read : readIdentity oneKeyContext (identityText oneKeyContext i) =
      .error (.raised .require text) := by
    rw [readIdentity, identityText, contact, refused]
    rfl
  refine ⟨_, createIdentity_eq savable, ?_⟩
  rw [parseIdentity, fromBase64_toBase64 qtCoder_correct plain (.refl _), read]

/-- The identity of a contact without a name or without an id stops the process that reads
it. -/
theorem nameless_identity_fails :
    ((givenIdentity [] (ascii "1")).Whole ∧ ∃ iden64,
      createIdentity oneKeyContext qtCoder (givenIdentity [] (ascii "1")) = .ok iden64 ∧
        parseIdentity oneKeyContext qtCoder iden64 {} =
          .error (.raised .require "!(name.empty())")) ∧
    (givenIdentity (ascii "friend") []).Whole ∧ ∃ iden64,
      createIdentity oneKeyContext qtCoder (givenIdentity (ascii "friend") []) = .ok iden64 ∧
        parseIdentity oneKeyContext qtCoder iden64 {} =
          .error (.raised .require "!(id.empty())") := by
  have nameless := @givenIdentity_whole [] (ascii "1") (by decide) (by decide)
  have idless := @givenIdentity_whole (ascii "friend") [] (by decide) (by decide)
  exact ⟨⟨nameless, refused_identity_fails (namedInfo_savable (by decide) (by decide)) nameless
    rfl⟩, idless, refused_identity_fails (namedInfo_savable (by decide) (by decide)) idless rfl⟩

end Witness

end Firestr.User.Saved
