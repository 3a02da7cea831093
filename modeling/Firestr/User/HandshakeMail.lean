import Firestr.Messages.MasterPostProperties
import Firestr.User.HandshakeRuns

/-! After the handshake: what one of the two sends to the other is read there,
encrypted with the key that both have made. -/

set_option autoImplicit false

namespace Firestr.User

open Firestr.Library.Runs Firestr.Messages Firestr.Network Firestr.Security Firestr.Util

namespace Exchange

variable {Random Secret Public Key Double : Type}

/-- The ciphers of a side, which makes its keys from its own secrets. -/
def ciphers (e : Exchange Secret Public Key) (base : Ciphers Random Public Key) (side : Side) :
    Ciphers Random Public Key :=
  { base with deriveKey := fun n => e.symmetricKey (e.draw side n) }

section Mail

variable {e : Exchange Secret Public Key} {base : Ciphers Random Public Key} {p : Pair Public}
  {side : Side} {own : String}

/-- Two sides that agree and are both ready can read each other. -/
theorem opens_of_agrees (sound : e.Sound p) (agrees : e.Agrees p)
    (took : ∀ which, (p.taken which).isSome = true) :
    EncryptedChannels.Opens (e.ciphers base side) (e.ciphers base side.other) own
      (p.user side).encryptedChannels (p.user side.other).encryptedChannels
      (p.info side).address (p.info side.other).address .symmetric := by
  obtain ⟨c, key, mine, drawn⟩ := sound.ready (took side)
  obtain ⟨d, other, theirs, drawn'⟩ := sound.ready (took side.other)
  cases agrees side c d key other mine theirs drawn drawn'
  exact .symmetric mine theirs drawn drawn'

theorem chosen_of_ready {m : Mail Double} (sound : e.Sound p)
    (took : (p.taken side).isSome = true)
    (secret : m.encryption = .conversation ∨ m.encryption = .symmetric) :
    m.chosen (p.user side).encryptedChannels (p.info side).address = .symmetric := by
  obtain ⟨c, key, mine, drawn⟩ := sound.ready took
  obtain ⟨pub, ready, -⟩ := Option.map_eq_some_iff.mp drawn
  have isReady : c.sharedSecret.ready = true := by rw [DhSecret.ready, ready, Option.isSome_some]
  have found : (p.user side).encryptedChannels.channels (p.info side).address = some c := mine
  rw [Mail.chosen]
  rcases secret with conversation | symmetric
  · simp only [conversation, EncryptedChannels.chosen, found, isReady, if_true]
  · simp only [symmetric]

/-- After a handshake in which both have taken a request, and the second one went
back the way of the first, each mail that one sends to the other is read there as
it was sent. -/
theorem mail_arrives {moves : List (Move Public)} {snappy : Snappy} {doubles : Doubles Double}
    {m : Mail Double} {ep : Endpoint} {outside : Bytes} {rest : Address}
    (run : Run Pair.Starts (fun p move q => e.Step p move q ∧ p.Mirrors move) moves p)
    (took : ∀ which, (p.taken which).isSome = true)
    (invertible : EncryptedChannels.Invertible base base own)
    (snaps : snappy.Inverts) (formed : m.message.Formed doubles)
    (nonempty : (Value.dict m.message.metadata.extra).KeysNonempty)
    (receiver : m.message.metadata.toAddress = outside :: rest)
    (sender : m.message.metadata.fromAddress ≠ [])
    (secret : m.encryption = .conversation ∨ m.encryption = .symmetric)
    (forth : idOf outside = (p.info side).address)
    (back : makeAddressStr ep = (p.info side.other).address) (random : Random) :
    ∃ data next, outPass (e.ciphers base side) snappy doubles (p.user side).encryptedChannels random
        m = .ok ({ outsideQueueAddress := outside, data := data, robust := m.robust }, next) ∧
      inPass (e.ciphers base side.other) snappy doubles own (p.user side.other).encryptedChannels ep
        data = .ok (some (m.arrived ep rest .symmetric)) := by
  obtain ⟨sound, mirrored⟩ := mirrored_of_run run
  have chosen : m.chosen (p.user side).encryptedChannels (idOf outside) = .symmetric := by
    rw [forth]
    exact chosen_of_ready sound (took side) secret
  have opens : EncryptedChannels.Opens (e.ciphers base side) (e.ciphers base side.other) own
      (p.user side).encryptedChannels (p.user side.other).encryptedChannels (idOf outside)
      (makeAddressStr ep) (m.chosen (p.user side).encryptedChannels (idOf outside)) := by
    rw [chosen, forth, back]
    exact opens_of_agrees sound (sound.agrees mirrored) took
  have invertible : EncryptedChannels.Invertible (e.ciphers base side)
      (e.ciphers base side.other) own := ⟨invertible.blocks, invertible.own, invertible.keys⟩
  have arrives := inPass_outPass invertible snaps formed nonempty receiver sender opens random
  rwa [chosen] at arrives

/-- What `ann` sends to a service of `bob`. -/
def annLetter : Mail Unit where
  message :=
    { metadata :=
        { type := ascii "!"
          toAddress := [ascii "udp://10.0.0.2:6060", ascii "user_service"]
          fromAddress := [ascii "udp://10.0.0.1:6060", ascii "user_service"]
          extra := [(ascii "from_id", .bytes (ascii "ann"))] }
      data := ascii "c" }

def annEndpoint : Endpoint where
  protocol := "udp"
  address := "10.0.0.1"
  port := 6060

/-- Ciphers with one mark for all keys. -/
def oneMark : Ciphers UInt8 (Side × Nat) (Sym2 (Side × Nat)) :=
  markCiphers (fun secret pub => s((.left, secret), pub)) fun _ => 7

theorem mail_arrives_met : ∃ data next,
    outPass (freeExchange.ciphers oneMark .left) framed loneDouble
        ((met 3).user .left).encryptedChannels 0 annLetter =
      .ok ({ outsideQueueAddress := ascii "udp://10.0.0.2:6060", data := data, robust := true },
        next) ∧
    inPass (freeExchange.ciphers oneMark .right) framed loneDouble "bob"
        ((met 3).user .right).encryptedChannels annEndpoint data =
      .ok (some (annLetter.arrived annEndpoint [ascii "user_service"] .symmetric)) := by
  have took : ∀ which, ((met 3).taken which).isSome = true := by
    intro which
    cases which with
    | left => decide +kernel
    | right => decide +kernel
  have formed : annLetter.message.Formed loneDouble := by
    refine ⟨by decide, by decide, by decide, ?_, by decide, by decide⟩
    refine .dict (by decide) (by decide) fun e member => ?_
    cases List.mem_singleton.mp member
    exact .bytes (by decide)
  have nonempty : (Value.dict annLetter.message.metadata.extra).KeysNonempty := by
    refine .dict (by decide) fun e member => ?_
    cases List.mem_singleton.mp member
    exact .bytes
  exact mail_arrives met_run took (markCiphers_invertible _ _ _ "bob") framed_inverts formed nonempty
    rfl (List.cons_ne_nil _ _) (.inl rfl) (by decide +kernel) (by decide +kernel) 0

end Mail

end Exchange

end Firestr.User
