import Firestr.Messages.Message

/-! Post offices in a tree, and how one routes a message: to a mailbox, to a
child, or to the parent and from the root outside. While a child has the
message, the office holds the lock of its list of offices. -/

set_option autoImplicit false

namespace Firestr.Messages

open Firestr.Util

/-- `post_office`: its address, the addresses of its mailboxes, and the offices
that were added to it. All of them are live. -/
inductive Office where
  | mk (address : Bytes) (boxes : List Bytes) (offices : List Office)

namespace Office

def address : Office → Bytes
  | mk address _ _ => address

def boxes : Office → List Bytes
  | mk _ boxes _ => boxes

def offices : Office → List Office
  | mk _ _ offices => offices

/-- `_offices.find`. -/
def child (o : Office) (key : Bytes) : Option Office := o.offices.find? (·.address == key)

end Office

variable {Double : Type}

/-- The message with other addresses in its metadata. -/
def Message.addressed (m : Message Double) (toAddress fromAddress : Address) : Message Double :=
  { m with metadata := { m.metadata with
    toAddress := toAddress
    fromAddress := fromAddress } }

/-- Where a message ends: in the inbox of a mailbox of an office, which is under
the offices `above`, or outside. -/
inductive Delivery (Double : Type) where
  | inbox (office : Office) (above : List Office) (box : Bytes) (m : Message Double)
  | outside (m : Message Double)

/-- What `send` returns, and what it has delivered. -/
structure Sent (Double : Type) where
  returned : Bool
  deliveries : List (Delivery Double) := []

/-- A thread locks a `_post_m` that it holds already, and waits for ever. -/
inductive Relock where
  | postM (address : Bytes)
  deriving DecidableEq, Repr

/-- `pop_front` of an office's own address, when more follows. -/
def stripped (address : Bytes) (toAddress : Address) : Address :=
  if 1 < toAddress.length ∧ toAddress.head? = some address then toAddress.tail else toAddress

theorem length_stripped_le (address : Bytes) (toAddress : Address) :
    (stripped address toAddress).length ≤ toAddress.length := by
  rw [stripped]
  split
  · rw [List.length_tail]
    exact Nat.sub_le ..
  · exact le_rfl

/-- `post_office::send` of an office under the offices `above`, each with
whether the calling thread holds its `_post_m`. -/
def send (sendOutside : Message Double → Bool) (o : Office) (locked : Bool)
    (above : List (Office × Bool)) (m : Message Double) : Except Relock (Sent Double) :=
  match _strips : stripped o.address m.metadata.toAddress with
  | [] => .ok { returned := false }
  | [x] =>
    if x ∈ o.boxes then
      .ok {
        returned := true
        deliveries := [.inbox o (above.map (·.1)) x (m.addressed [x] m.metadata.fromAddress)] }
    else .ok { returned := false }
  | head :: next :: rest =>
    if locked then .error (.postM o.address)
    else do
      let tried ← (match o.child head with
        | none => .ok { returned := false }
        | some sp =>
          send sendOutside sp false ((o, true) :: above)
            (m.addressed (next :: rest) (o.address :: m.metadata.fromAddress)))
      if tried.returned then .ok tried
      else
        -- The office adds its own address so that the receiver can answer.
        let signed := m.addressed (head :: next :: rest) (o.address :: m.metadata.fromAddress)
        let further ← (match above with
          | [] => .ok {
              returned := sendOutside signed
              deliveries := [.outside signed] }
          | (parent, held) :: higher => send sendOutside parent held higher signed)
        .ok { further with deliveries := tried.deliveries ++ further.deliveries }
  termination_by (m.metadata.toAddress.length, above.length)
  decreasing_by
    · have shorter := length_stripped_le o.address m.metadata.toAddress
      rw [_strips] at shorter
      exact Prod.Lex.left _ _ (by simpa [Message.addressed] using shorter)
    · have shorter := length_stripped_le o.address m.metadata.toAddress
      rw [_strips] at shorter
      rcases shorter.lt_or_eq with less | same
      · exact Prod.Lex.left _ _ less
      · have equal : (m.addressed (head :: next :: rest)
            (o.address :: m.metadata.fromAddress)).metadata.toAddress.length =
            m.metadata.toAddress.length := same
        rw [equal]
        exact Prod.Lex.right _ (Nat.lt_succ_self _)

end Firestr.Messages
