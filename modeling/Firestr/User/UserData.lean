import Firestr.Util.StoreFiles

/-! The files of a user: the info, the contacts, the greeters and the introductions, each
in the mencode format. -/

set_option autoImplicit false

namespace Firestr.User.Saved

open Firestr.Library.Assoc Firestr.Util

/-- What `public_key` uses of Botan: `X509::load_key` takes the text of a key, or throws. -/
structure KeyLoader where
  loadKey : Bytes → Except String Unit

/-- `public_key`: the text `_ks`, and whether there is a key `_k`. -/
structure PublicKey where
  ks : Bytes := []
  loaded : Bool := false
  deriving DecidableEq, Repr

def PublicKey.ofText (keys : KeyLoader) (key : Bytes) : Outcome PublicKey := do
  require (!key.isEmpty) "!(key.empty())"
  match keys.loadKey key with
  | .ok _ => pure { ks := key, loaded := true }
  | .error what => .error (.thrown what)

def PublicKey.key (k : PublicKey) : Outcome Bytes := do
  contract .invariant k.loaded "_k"
  ensure (!k.ks.isEmpty) "!(_ks.empty())"
  pure k.ks

structure UserInfo where
  addresses : List Bytes := []
  name : Bytes := []
  id : Bytes := []
  pkey : PublicKey := {}
  deriving DecidableEq, Repr

def UserInfo.new (addresses : List Bytes) (name id : Bytes) (pubKey : PublicKey) :
    Outcome UserInfo := do
  require (!addresses.isEmpty) "!(addresses.empty())"
  require (!name.isEmpty) "!(name.empty())"
  require (!id.isEmpty) "!(id.empty())"
  let key ← pubKey.key
  require (!key.isEmpty) "!(pub_key.key().empty())"
  pure {
    addresses := addresses
    name := name
    id := id
    pkey := pubKey }

def UserInfo.address (u : UserInfo) : Bytes := u.addresses.headD []

structure GreetServer where
  host : Bytes
  port : UInt16
  key : Bytes
  deriving DecidableEq, Repr

structure ContactIntroduction where
  fromId : Bytes
  greeter : Bytes
  message : Bytes
  contact : UserInfo
  deriving DecidableEq, Repr

/-- `local_user` without its private key. -/
structure LocalUser where
  info : UserInfo
  contacts : List UserInfo
  greeters : List GreetServer
  introductions : List ContactIntroduction
  deriving DecidableEq, Repr

variable {Double : Type}

abbrev Dict (Double : Type) : Type := List (Bytes × Value Double)

/-- `d[k]` of a dictionary that is not changed. -/
def dictItem (d : Dict Double) (k : String) : Outcome (Value Double) :=
  match d.lookup (ascii k) with
  | some v => .ok v
  | none => .error (.thrown ("unable to find key `" ++ k ++ "' in dictionary\n"))

def dictString (d : Dict Double) (k : String) : Outcome Bytes := do
  let v ← dictItem d k
  v.asString

def toArray {Item : Type} (cs : List Item) (conv : Item → Outcome (Value Double)) :
    Outcome (List (Value Double)) := do
  let a ← cs.mapM conv
  ensure (a.length == cs.length) "a.size() == cs.size()"
  pure a

def fromArray {Item : Type} (a : List (Value Double)) (conv : Value Double → Outcome Item) :
    Outcome (List Item) := do
  let cs ← a.mapM conv
  ensure (cs.length == a.length) "cs.size() == a.size()"
  pure cs

/-- What the files are written and read with: the format of the reals, the order in which
dictionaries are walked, and the keys. -/
structure UserContext (Double : Type) where
  doubles : Doubles Double
  walk : Walk Double
  keys : KeyLoader

section Convert

variable (c : UserContext Double)

/-- A dictionary as a value. -/
def UserContext.value (d : Dict Double) : Value Double := .dict (c.walk.order d)

/-- `convert` of a `user_info`, with one address alone as old files have it. -/
def convert (u : UserInfo) : Outcome (Dict Double) := do
  let d ← (if 1 < u.addresses.length then do
      let a ← toArray u.addresses fun address => pure (.bytes address)
      pure (assign [] (ascii "addrs") (.array a))
    else pure (assign [] (ascii "address") (.bytes u.address)) : Outcome (Dict Double))
  let d := assign d (ascii "name") (.bytes u.name)
  let d := assign d (ascii "id") (.bytes u.id)
  let key ← u.pkey.key
  pure (assign d (ascii "pkey") (.bytes key))

/-- `convert` to a `user_info`. -/
def toUserInfo (d : Dict Double) : Outcome UserInfo := do
  let addrs ← (if ascii "addrs" ∈ d.map (·.1) then do
      let v ← dictItem d "addrs"
      let a ← v.asArray
      fromArray a Value.asString
    else do
      let address ← dictString d "address"
      pure [address] : Outcome (List Bytes))
  if addrs.isEmpty then .error (.thrown "user info is missing addresses")
  else do
    let name ← dictString d "name"
    let id ← dictString d "id"
    let text ← dictString d "pkey"
    let key ← PublicKey.ofText c.keys text
    UserInfo.new addrs name id key

/-- `convert` of `users`. -/
def convertUsers (us : List UserInfo) : Outcome (List (Value Double)) := do
  let a ← us.mapM fun u => do
    let d ← convert u
    pure (c.value d)
  ensure (a.length == us.length) "a.size() == us.size()"
  pure a

/-- `convert` to `users`. -/
def toUsers (a : List (Value Double)) : Outcome (List UserInfo) := do
  let us ← a.mapM fun v => do
    let d ← v.asDict
    toUserInfo c d
  ensure (us.length == a.length) "us.size() == a.size()"
  pure us

def fromGreetServer (g : GreetServer) : Outcome (Value Double) :=
  pure (c.value [(ascii "host", .bytes g.host), (ascii "port", .int (Int64.ofNat g.port.toNat)),
    (ascii "pub_key", .bytes g.key)])

def toGreetServer (v : Value Double) : Outcome GreetServer := do
  let d ← v.asDict
  let host ← dictString d "host"
  let portItem ← dictItem d "port"
  let port ← portItem.asInt
  let key ← dictString d "pub_key"
  pure {
    host := host
    port := port.toUInt64.toUInt16
    key := key }

def fromIntroduction (i : ContactIntroduction) : Outcome (Value Double) := do
  let contact ← convert i.contact
  pure (c.value [(ascii "from_id", .bytes i.fromId), (ascii "greeter", .bytes i.greeter),
    (ascii "message", .bytes i.message), (ascii "contact", c.value contact)])

def toIntroduction (v : Value Double) : Outcome ContactIntroduction := do
  let d ← v.asDict
  let fromId ← dictString d "from_id"
  let greeter ← dictString d "greeter"
  let message ← dictString d "message"
  let contactItem ← dictItem d "contact"
  let contactDict ← contactItem.asDict
  let contact ← toUserInfo c contactDict
  pure {
    fromId := fromId
    greeter := greeter
    message := message
    contact := contact }

end Convert

section Streams

variable (c : UserContext Double)

/-- `operator <<` of a `user_info`. -/
def writeUserInfo (u : UserInfo) : Outcome Bytes := do
  let d ← convert u
  pure ((c.value d).encode c.doubles)

/-- `operator >>` of a `user_info`. -/
def readUserInfo (i : Stream) : Outcome (UserInfo × Stream) := do
  let (d, i) ← readDict c.doubles i
  let u ← toUserInfo c d
  pure (u, i)

/-- `operator <<` of an array that is converted. -/
def writeArray (a : Outcome (List (Value Double))) : Outcome Bytes := do
  let a ← a
  pure ((Value.array a).encode c.doubles)

/-- `operator >>` of an array that is converted. -/
def readItems {Item : Type} (convert : List (Value Double) → Outcome (List Item)) (i : Stream) :
    Outcome (List Item) := do
  let (a, _) ← readArray c.doubles i
  convert a

end Streams

/-- The files `local`, `contacts`, `greeters` and `introductions` of a home. -/
structure UserFiles where
  localUser : Bytes
  contacts : Bytes
  greeters : Bytes
  introductions : Bytes
  deriving DecidableEq, Repr

/-- The list of `contact_list{us}`, which takes the first contact with each id. -/
def contactList (us : List UserInfo) : List UserInfo :=
  us.foldl (fun list u => if u.id ∈ list.map (·.id) then list else list ++ [u]) []

/-- `save_user`, of which the private key is left out. -/
def saveUser (c : UserContext Double) (lu : LocalUser) : Outcome UserFiles := do
  let info ← writeUserInfo c lu.info
  let contacts ← writeArray c (convertUsers c lu.contacts)
  let greeters ← writeArray c (toArray lu.greeters (fromGreetServer c))
  let introductions ← writeArray c (toArray lu.introductions (fromIntroduction c))
  pure {
    localUser := info
    contacts := contacts
    greeters := greeters
    introductions := introductions }

/-- `load_user`, of which the private key is left out. -/
def loadUser (c : UserContext Double) (files : UserFiles) : Outcome LocalUser := do
  let (info, _) ← readUserInfo c { rest := files.localUser }
  let us ← readItems c (toUsers c) { rest := files.contacts }
  let greeters ← readItems c (fun a => fromArray a toGreetServer) { rest := files.greeters }
  let introductions ← readItems c (fun a => fromArray a (toIntroduction c))
    { rest := files.introductions }
  pure {
    info := info
    contacts := contactList us
    greeters := greeters
    introductions := introductions }

end Firestr.User.Saved
