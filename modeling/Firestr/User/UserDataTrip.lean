import Firestr.User.UserData
import Firestr.Util.SerializeProperties

/-! The files of a user as they are read back. Each record is a dictionary whose items do
not depend on the order in which it was walked. -/

set_option autoImplicit false

namespace Firestr.User.Saved

open Firestr.Library.Assoc Firestr.Library.Outcomes Firestr.Util

variable {Double : Type} {c : UserContext Double}

/-- A key that `public_key` accepts. -/
structure PublicKey.Accepted (keys : KeyLoader) (k : PublicKey) : Prop where
  loaded : k.loaded = true
  nonempty : k.ks ≠ []
  accepted : keys.loadKey k.ks = .ok ()

/-- An info with at least one address and an accepted key. Its strings have a `size_t`
length. -/
structure UserInfo.Savable (keys : KeyLoader) (u : UserInfo) : Prop where
  addressed : u.addresses ≠ []
  keyed : u.pkey.Accepted keys
  small : ∀ text ∈ u.name :: u.id :: u.pkey.ks :: u.addresses, text.length < 2 ^ 64

/-- The name and the id are not empty. -/
structure UserInfo.Named (u : UserInfo) : Prop where
  name : u.name ≠ []
  id : u.id ≠ []

section Dictionaries

variable {d walked : Dict Double}

theorem dictItem_perm (perm : walked.Perm d) (distinct : (d.map (·.1)).Nodup) (k : String) :
    dictItem walked k = dictItem d k := by
  rw [dictItem, dictItem, lookup_perm perm distinct]

theorem dictString_perm (perm : walked.Perm d) (distinct : (d.map (·.1)).Nodup) (k : String) :
    dictString walked k = dictString d k := by
  rw [dictString, dictString, dictItem_perm perm distinct]

theorem UserContext.value_good (good : GoodKeys (d.map (·.1))) (items : EveryItem Value.Good d) :
    (c.value d).Good :=
  .dict_of_perm (c.walk.perm d) good items

theorem good_bytes {text : Bytes} (small : text.length < 2 ^ 64) :
    (Value.bytes text : Value Double).Good :=
  ⟨.bytes small, .bytes⟩

end Dictionaries

section Info

variable {u : UserInfo}

def addressEntry (u : UserInfo) : Bytes × Value Double :=
  if 1 < u.addresses.length then (ascii "addrs", .array (u.addresses.map .bytes))
  else (ascii "address", .bytes u.address)

def infoEntries (u : UserInfo) : Dict Double :=
  [addressEntry u, (ascii "name", .bytes u.name), (ascii "id", .bytes u.id),
    (ascii "pkey", .bytes u.pkey.ks)]

theorem address_mem (addressed : u.addresses ≠ []) : u.address ∈ u.addresses := by
  unfold UserInfo.address
  cases shape : u.addresses with
  | nil => exact absurd shape addressed
  | cons address rest => exact List.mem_cons_self

theorem toArray_ok {Item : Type} {cs : List Item} {conv : Item → Outcome (Value Double)}
    {value : Item → Value Double} (success : ∀ item ∈ cs, conv item = .ok (value item)) :
    toArray cs conv = .ok (cs.map value) := by
  unfold toArray
  rw [mapM_ok success, ok_bind, List.length_map, BEq.rfl, ensure_true, ok_bind, pure_ok]

theorem fromArray_ok {Item : Type} {cs : List Item} {conv : Value Double → Outcome Item}
    {value : Item → Value Double} (undoes : ∀ item ∈ cs, conv (value item) = .ok item) :
    fromArray (cs.map value) conv = .ok cs := by
  unfold fromArray
  rw [mapM_map_ok undoes, ok_bind, List.length_map, BEq.rfl, ensure_true, ok_bind, pure_ok]

theorem PublicKey.Accepted.key_eq {k : PublicKey} (accepted : k.Accepted c.keys) :
    k.key = .ok k.ks := by
  have some? : (!k.ks.isEmpty) = true := not_isEmpty_of_ne_nil accepted.nonempty
  simp only [PublicKey.key, accepted.loaded, contract_true, ok_bind, some?, ensure_true, pure_ok]

theorem convert_eq (savable : u.Savable c.keys) : convert u = .ok (infoEntries u : Dict Double) := by
  have addresses := @toArray_ok Double Bytes u.addresses (fun address => pure (.bytes address))
    Value.bytes fun address _ => rfl
  unfold convert infoEntries addressEntry
  rw [savable.keyed.key_eq]
  split
  · rw [addresses]
    rfl
  · rfl

theorem infoEntries_good (savable : u.Savable c.keys) :
    GoodKeys ((infoEntries u : Dict Double).map (·.1)) ∧
      EveryItem Value.Good (infoEntries u : Dict Double) := by
  have small := savable.small
  have many : GoodKeys [ascii "addrs", ascii "name", ascii "id", ascii "pkey"] :=
    ⟨by decide, by decide, by decide⟩
  have single : GoodKeys [ascii "address", ascii "name", ascii "id", ascii "pkey"] :=
    ⟨by decide, by decide, by decide⟩
  constructor
  · unfold infoEntries addressEntry
    split
    · exact many
    · exact single
  · have address : (addressEntry u : Bytes × Value Double).2.Good := by
      unfold addressEntry
      split
      · refine .array fun v member => ?_
        obtain ⟨text, inside, rfl⟩ := List.mem_map.mp member
        exact good_bytes (small text (by simp [inside]))
      · exact good_bytes (small u.address (by simp [address_mem savable.addressed]))
    intro e member
    rcases List.mem_cons.mp member with rfl | member
    · exact address
    · simp only [List.mem_cons, List.not_mem_nil, or_false] at member
      rcases member with rfl | rfl | rfl
      · exact good_bytes (small u.name (by simp))
      · exact good_bytes (small u.id (by simp))
      · exact good_bytes (small u.pkey.ks (by simp))

theorem new_eq (savable : u.Savable c.keys) (named : u.Named) :
    UserInfo.new u.addresses u.name u.id u.pkey = .ok u := by
  simp only [UserInfo.new, not_isEmpty_of_ne_nil savable.addressed, not_isEmpty_of_ne_nil named.name,
    not_isEmpty_of_ne_nil named.id, require_true, ok_bind, savable.keyed.key_eq,
    not_isEmpty_of_ne_nil savable.keyed.nonempty, pure_ok]

theorem PublicKey.Accepted.ofText_eq {k : PublicKey} (accepted : k.Accepted c.keys) :
    PublicKey.ofText c.keys k.ks = .ok k := by
  have some? : (!k.ks.isEmpty) = true := not_isEmpty_of_ne_nil accepted.nonempty
  have same : k = { ks := k.ks, loaded := true } := by rw [← accepted.loaded]
  simp only [PublicKey.ofText, some?, require_true, ok_bind, accepted.accepted]
  rw [same]
  rfl

/-- The addresses come back from the one entry or from the many. -/
theorem toUserInfo_eq (savable : u.Savable c.keys) {walked : Dict Double}
    (perm : walked.Perm (infoEntries u)) :
    toUserInfo c walked = UserInfo.new u.addresses u.name u.id u.pkey := by
  have distinct := (infoEntries_good savable).1.distinct
  have name : dictString (infoEntries u : Dict Double) "name" = .ok u.name := by
    unfold infoEntries addressEntry
    split <;> rfl
  have id : dictString (infoEntries u : Dict Double) "id" = .ok u.id := by
    unfold infoEntries addressEntry
    split <;> rfl
  have key : dictString (infoEntries u : Dict Double) "pkey" = .ok u.pkey.ks := by
    unfold infoEntries addressEntry
    split <;> rfl
  have keys : ascii "addrs" ∈ walked.map (·.1) ↔
      ascii "addrs" ∈ (infoEntries u : Dict Double).map (·.1) :=
    (perm.map (·.1)).mem_iff
  have addresses : (if ascii "addrs" ∈ walked.map (·.1) then do
      let v ← dictItem walked "addrs"
      let a ← v.asArray
      fromArray a Value.asString
    else do
      let address ← dictString walked "address"
      pure [address] : Outcome (List Bytes)) = .ok u.addresses := by
    rw [dictItem_perm perm distinct, dictString_perm perm distinct]
    by_cases many : 1 < u.addresses.length
    · have entries : (infoEntries u : Dict Double) = (ascii "addrs", .array (u.addresses.map .bytes)) ::
          [(ascii "name", .bytes u.name), (ascii "id", .bytes u.id),
            (ascii "pkey", .bytes u.pkey.ks)] := by
        rw [infoEntries, addressEntry, if_pos many]
      rw [if_pos (by rw [keys, entries]; exact List.mem_cons_self), entries]
      exact fromArray_ok fun text _ => rfl
    · have entries : (infoEntries u : Dict Double) = (ascii "address", .bytes u.address) ::
          [(ascii "name", .bytes u.name), (ascii "id", .bytes u.id),
            (ascii "pkey", .bytes u.pkey.ks)] := by
        rw [infoEntries, addressEntry, if_neg many]
      have single : u.addresses = [u.address] := by
        unfold UserInfo.address
        cases shape : u.addresses with
        | nil => exact absurd shape savable.addressed
        | cons address rest =>
            rw [shape, List.length_cons] at many
            rw [List.length_eq_zero_iff.mp (show rest.length = 0 by omega)]
            rfl
      rw [if_neg (by rw [keys, entries]; simp; decide), entries, single]
      rfl
  have some? : u.addresses.isEmpty = false := by
    rw [List.isEmpty_eq_false_iff]
    exact savable.addressed
  unfold toUserInfo
  rw [addresses, ok_bind, some?]
  simp only [Bool.false_eq_true, if_false]
  rw [dictString_perm perm distinct, name, ok_bind, dictString_perm perm distinct, id, ok_bind,
    dictString_perm perm distinct, key, ok_bind, savable.keyed.ofText_eq, ok_bind]

end Info

section Streams

variable {u : UserInfo}

theorem writeUserInfo_eq (savable : u.Savable c.keys) :
    writeUserInfo c u = .ok ((c.value (infoEntries u)).encode c.doubles) := by
  unfold writeUserInfo
  rw [convert_eq savable, ok_bind, pure_ok]

/-- An info is made again of what was written, and nothing is read of what follows it. -/
theorem readUserInfo_new (savable : u.Savable c.keys) (more : Bytes) (position : Nat) :
    ∃ after, readUserInfo c
        { rest := (c.value (infoEntries u)).encode c.doubles ++ more, position := position } =
      (do
        let u ← UserInfo.new u.addresses u.name u.id u.pkey
        pure (u, { rest := more, position := after })) := by
  obtain ⟨keys, items⟩ := infoEntries_good savable
  obtain ⟨after, read⟩ := @readDict_good _ c.doubles _ (@UserContext.value_good _ c _ keys items)
    more position
  refine ⟨after, ?_⟩
  unfold readUserInfo UserContext.value
  simp only [read, ok_bind, toUserInfo_eq savable (c.walk.perm _)]

theorem readUserInfo_eq (savable : u.Savable c.keys) (named : u.Named) (more : Bytes)
    (position : Nat) : ∃ after, readUserInfo c
        { rest := (c.value (infoEntries u)).encode c.doubles ++ more, position := position } =
      .ok (u, { rest := more, position := after }) := by
  obtain ⟨after, read⟩ := readUserInfo_new savable more position
  rw [new_eq savable named, ok_bind, pure_ok] at read
  exact ⟨after, read⟩

/-- What is written as an array of values is converted back. -/
theorem readItems_eq {Item : Type} {items : List Item} {value : Item → Value Double}
    {convert : List (Value Double) → Outcome (List Item)} {result : Outcome (List Item)}
    (good : ∀ item ∈ items, (value item).Good) (undoes : convert (items.map value) = result) :
    readItems c convert { rest := (Value.array (items.map value)).encode c.doubles } = result := by
  have elements : (Value.array (items.map value)).Good := by
    refine .array fun v member => ?_
    obtain ⟨item, inside, rfl⟩ := List.mem_map.mp member
    exact good item inside
  obtain ⟨after, read⟩ := @readArray_good _ c.doubles _ elements [] 0
  rw [List.append_nil] at read
  unfold readItems
  simp only [read, ok_bind, undoes]

end Streams

section Lists

variable {us : List UserInfo} {gs : List GreetServer} {is : List ContactIntroduction}

def infoValue (c : UserContext Double) (u : UserInfo) : Value Double := c.value (infoEntries u)

theorem infoValue_good {u : UserInfo} (savable : u.Savable c.keys) : (infoValue c u).Good :=
  UserContext.value_good (infoEntries_good savable).1 (infoEntries_good savable).2

theorem toUserInfo_infoValue {u : UserInfo} (savable : u.Savable c.keys) (named : u.Named) :
    (do
      let d ← (infoValue c u).asDict
      toUserInfo c d) = .ok u := by
  unfold infoValue UserContext.value
  rw [Value.asDict, ok_bind, toUserInfo_eq savable (c.walk.perm _), new_eq savable named]

theorem convertUsers_eq (savable : ∀ u ∈ us, u.Savable c.keys) :
    convertUsers c us = .ok (us.map (infoValue c)) := by
  have converted : ∀ u ∈ us, (do
      let d ← convert u
      pure (c.value d) : Outcome (Value Double)) = .ok (infoValue c u) := by
    intro u member
    rw [convert_eq (savable u member)]
    rfl
  unfold convertUsers
  rw [mapM_ok converted, ok_bind, List.length_map, BEq.rfl, ensure_true, ok_bind, pure_ok]

theorem toUsers_eq (savable : ∀ u ∈ us, u.Savable c.keys) (named : ∀ u ∈ us, u.Named) :
    toUsers c (us.map (infoValue c)) = .ok us := by
  unfold toUsers
  rw [mapM_map_ok fun u member => toUserInfo_infoValue (savable u member) (named u member),
    ok_bind, List.length_map, BEq.rfl, ensure_true, ok_bind, pure_ok]

/-- A greeter whose strings have a `size_t` length. -/
def GreetServer.Small (g : GreetServer) : Prop := g.host.length < 2 ^ 64 ∧ g.key.length < 2 ^ 64

def greetEntries (g : GreetServer) : Dict Double :=
  [(ascii "host", .bytes g.host), (ascii "port", .int (Int64.ofNat g.port.toNat)),
    (ascii "pub_key", .bytes g.key)]

theorem greetEntries_good {g : GreetServer} (small : g.Small) :
    GoodKeys ((greetEntries g : Dict Double).map (·.1)) ∧
      EveryItem Value.Good (greetEntries g : Dict Double) := by
  have keys : GoodKeys [ascii "host", ascii "port", ascii "pub_key"] :=
    ⟨by decide, by decide, by decide⟩
  refine ⟨keys, fun e member => ?_⟩
  simp only [greetEntries, List.mem_cons, List.not_mem_nil, or_false] at member
  rcases member with rfl | rfl | rfl
  · exact good_bytes small.1
  · exact ⟨.int, .int⟩
  · exact good_bytes small.2

theorem greetValue_good {g : GreetServer} (small : g.Small) : (c.value (greetEntries g)).Good :=
  UserContext.value_good (greetEntries_good small).1 (greetEntries_good small).2

private theorem port_back (port : UInt16) :
    (Int64.ofNat port.toNat).toUInt64.toUInt16 = port := by
  apply UInt16.toNat_inj.mp
  rw [UInt64.toNat_toUInt16]
  simp

theorem toGreetServer_eq {g : GreetServer} (small : g.Small) :
    toGreetServer (c.value (greetEntries g)) = .ok g := by
  have distinct := (@greetEntries_good Double g small).1.distinct
  have perm := c.walk.perm (greetEntries g)
  have host : dictString (greetEntries g : Dict Double) "host" = .ok g.host := rfl
  have port : dictItem (greetEntries g : Dict Double) "port" =
      .ok (.int (Int64.ofNat g.port.toNat)) := rfl
  have key : dictString (greetEntries g : Dict Double) "pub_key" = .ok g.key := rfl
  unfold toGreetServer UserContext.value
  rw [Value.asDict, ok_bind, dictString_perm perm distinct, host, ok_bind,
    dictItem_perm perm distinct, port, ok_bind, Value.asInt, ok_bind,
    dictString_perm perm distinct, key, ok_bind, pure_ok, port_back]

theorem toGreetServers_eq (small : ∀ g ∈ gs, g.Small) :
    fromArray (gs.map fun g => c.value (greetEntries g)) toGreetServer = .ok gs :=
  fromArray_ok fun g member => toGreetServer_eq (small g member)

/-- An introduction whose contact can be saved. Its strings have a `size_t` length. -/
structure ContactIntroduction.Savable (keys : KeyLoader) (i : ContactIntroduction) : Prop where
  contact : i.contact.Savable keys
  small : ∀ text ∈ [i.fromId, i.greeter, i.message], text.length < 2 ^ 64

def introductionEntries (c : UserContext Double) (i : ContactIntroduction) : Dict Double :=
  [(ascii "from_id", .bytes i.fromId), (ascii "greeter", .bytes i.greeter),
    (ascii "message", .bytes i.message), (ascii "contact", infoValue c i.contact)]

theorem introductionEntries_good {i : ContactIntroduction} (savable : i.Savable c.keys) :
    GoodKeys ((introductionEntries c i).map (·.1)) ∧
      EveryItem Value.Good (introductionEntries c i) := by
  have keys : GoodKeys [ascii "from_id", ascii "greeter", ascii "message", ascii "contact"] :=
    ⟨by decide, by decide, by decide⟩
  refine ⟨keys, fun e member => ?_⟩
  simp only [introductionEntries, List.mem_cons, List.not_mem_nil, or_false] at member
  rcases member with rfl | rfl | rfl | rfl
  · exact good_bytes (savable.small _ (by simp))
  · exact good_bytes (savable.small _ (by simp))
  · exact good_bytes (savable.small _ (by simp))
  · exact infoValue_good savable.contact

theorem introductionValue_good {i : ContactIntroduction} (savable : i.Savable c.keys) :
    (c.value (introductionEntries c i)).Good :=
  UserContext.value_good (introductionEntries_good savable).1 (introductionEntries_good savable).2

theorem fromIntroduction_eq {i : ContactIntroduction} (savable : i.Savable c.keys) :
    fromIntroduction c i = .ok (c.value (introductionEntries c i)) := by
  unfold fromIntroduction
  rw [convert_eq savable.contact]
  rfl

theorem toIntroduction_eq {i : ContactIntroduction} (savable : i.Savable c.keys)
    (named : i.contact.Named) :
    toIntroduction c (c.value (introductionEntries c i)) = .ok i := by
  have distinct := (introductionEntries_good savable).1.distinct
  have perm := c.walk.perm (introductionEntries c i)
  have fromId : dictString (introductionEntries c i) "from_id" = .ok i.fromId := rfl
  have greeter : dictString (introductionEntries c i) "greeter" = .ok i.greeter := rfl
  have message : dictString (introductionEntries c i) "message" = .ok i.message := rfl
  have contact : dictItem (introductionEntries c i) "contact" = .ok (infoValue c i.contact) := rfl
  have back := (toUserInfo_eq savable.contact (c.walk.perm _)).trans (new_eq savable.contact named)
  unfold toIntroduction UserContext.value
  rw [Value.asDict, ok_bind, dictString_perm perm distinct, fromId, ok_bind,
    dictString_perm perm distinct, greeter, ok_bind, dictString_perm perm distinct, message, ok_bind,
    dictItem_perm perm distinct, contact, ok_bind, infoValue, UserContext.value, Value.asDict,
    ok_bind, back, ok_bind, pure_ok]

theorem toIntroductions_eq (savable : ∀ i ∈ is, i.Savable c.keys)
    (named : ∀ i ∈ is, i.contact.Named) :
    fromArray (is.map fun i => c.value (introductionEntries c i)) (toIntroduction c) = .ok is :=
  fromArray_ok fun i member => toIntroduction_eq (savable i member) (named i member)

/-- A list of contacts with distinct ids is the list of its contact list. -/
theorem contactList_eq (distinct : (us.map (·.id)).Nodup) : contactList us = us := by
  suffices rule : ∀ list, (list.map (·.id) ++ us.map (·.id)).Nodup →
      us.foldl (fun list u => if u.id ∈ list.map (·.id) then list else list ++ [u]) list =
        list ++ us by
    exact rule [] (by simpa using distinct)
  clear distinct
  induction us with
  | nil =>
      intro list _
      exact (List.append_nil list).symm
  | cons u us ih =>
      intro list distinct
      have fresh : u.id ∉ list.map (·.id) := fun member =>
        (List.nodup_append.mp distinct).2.2 u.id member u.id List.mem_cons_self rfl
      rw [List.foldl_cons, if_neg fresh, ih (list ++ [u]) (by simpa using distinct),
        List.append_assoc, List.singleton_append]

end Lists

/-- A user whose infos have at least one address and an accepted key, and whose contacts
have distinct ids. Its strings have a `size_t` length. -/
structure LocalUser.Savable (keys : KeyLoader) (lu : LocalUser) : Prop where
  info : lu.info.Savable keys
  contacts : ∀ u ∈ lu.contacts, u.Savable keys
  distinct : (lu.contacts.map (·.id)).Nodup
  greeters : ∀ g ∈ lu.greeters, g.Small
  introductions : ∀ i ∈ lu.introductions, i.Savable keys

/-- No info of the user has an empty name or id. -/
structure LocalUser.Named (lu : LocalUser) : Prop where
  info : lu.info.Named
  contacts : ∀ u ∈ lu.contacts, u.Named
  introductions : ∀ i ∈ lu.introductions, i.contact.Named

def userFiles (c : UserContext Double) (lu : LocalUser) : UserFiles where
  localUser := (c.value (infoEntries lu.info)).encode c.doubles
  contacts := (Value.array (lu.contacts.map (infoValue c))).encode c.doubles
  greeters := (Value.array (lu.greeters.map fun g => c.value (greetEntries g))).encode c.doubles
  introductions := (Value.array (lu.introductions.map fun i =>
    c.value (introductionEntries c i))).encode c.doubles

theorem saveUser_eq {lu : LocalUser} (savable : lu.Savable c.keys) :
    saveUser c lu = .ok (userFiles c lu) := by
  have greeters : toArray lu.greeters (fromGreetServer c) =
      .ok (lu.greeters.map fun g => c.value (greetEntries g)) := toArray_ok fun g _ => rfl
  have introductions : toArray lu.introductions (fromIntroduction c) =
      .ok (lu.introductions.map fun i => c.value (introductionEntries c i)) :=
    toArray_ok fun i member => fromIntroduction_eq (savable.introductions i member)
  unfold saveUser writeArray
  rw [writeUserInfo_eq savable.info, ok_bind, convertUsers_eq savable.contacts, ok_bind,
    pure_ok, ok_bind, greeters, ok_bind, pure_ok, ok_bind, introductions, ok_bind, pure_ok,
    ok_bind, pure_ok]
  rfl

theorem loadUser_eq {lu : LocalUser} (savable : lu.Savable c.keys) (named : lu.Named) :
    loadUser c (userFiles c lu) = .ok lu := by
  obtain ⟨after, info⟩ := readUserInfo_eq savable.info named.info [] 0
  rw [List.append_nil] at info
  have users := @readItems_eq _ c _ _ (infoValue c) (toUsers c) _
    (fun u member => infoValue_good (savable.contacts u member))
    (toUsers_eq savable.contacts named.contacts)
  have servers := @readItems_eq _ c _ _ (fun g => c.value (greetEntries g))
    (fun a => fromArray a toGreetServer) _ (fun g member => greetValue_good (savable.greeters g member))
    (toGreetServers_eq savable.greeters)
  have met := @readItems_eq _ c _ _ (fun i => c.value (introductionEntries c i))
    (fun a => fromArray a (toIntroduction c)) _
    (fun i member => introductionValue_good (savable.introductions i member))
    (toIntroductions_eq savable.introductions named.introductions)
  unfold loadUser userFiles
  simp only [info, ok_bind, users, servers, met, pure_ok, contactList_eq savable.distinct]

/-- What was saved of a user is loaded, if the names and ids are not empty. -/
theorem user_loads {lu : LocalUser} (savable : lu.Savable c.keys) (named : lu.Named) :
    ∃ files, saveUser c lu = .ok files ∧ loadUser c files = .ok lu :=
  ⟨userFiles c lu, saveUser_eq savable, loadUser_eq savable named⟩

section Witness

@[irreducible] def rsaText : Bytes := ascii
  "-----BEGIN PUBLIC KEY-----\nMFwwDQYJKoZIhvcNAQEBBQADSwAwSAJBAMg/IrHDPFXAsyTgDWAqKnzBgBhFHDI8\nrhH6NyehKHBVj0lCia9p1T0oLFt5sI7VI7hg0u7qcDjHyCtcPpgvhmECAwEAAQ==\n-----END PUBLIC KEY-----\n"

/-- A loader of that key alone, and dictionaries walked as they were made. -/
def oneKeyContext : UserContext Unit where
  doubles := loneDouble
  walk := {
    order := id
    perm := walk_id_perm }
  keys := {
    loadKey := fun text => if text = rsaText then .ok () else .error "unable to decode key" }

def namedInfo (name id : Bytes) : UserInfo where
  addresses := [ascii "udp://localhost:10", ascii "local"]
  name := name
  id := id
  pkey := {
    ks := rsaText
    loaded := true }

theorem rsaText_plain : rsaText ≠ [] ∧ rsaText.length < 2 ^ 64 ∧ 0 ∉ rsaText := by
  decide +kernel

private theorem other_texts_small :
    ∀ text ∈ [rsaText, ascii "udp://localhost:10", ascii "local"], text.length < 2 ^ 64 := by
  rw [List.forall_mem_cons]
  exact ⟨rsaText_plain.2.1, by decide⟩

private theorem rsaText_accepted : oneKeyContext.keys.loadKey rsaText = .ok () := by
  unfold oneKeyContext
  exact if_pos rfl

theorem namedInfo_savable {name id : Bytes} (small : name.length < 2 ^ 64)
    (short : id.length < 2 ^ 64) : (namedInfo name id).Savable oneKeyContext.keys := by
  refine ⟨List.cons_ne_nil _ _, ⟨rfl, rsaText_plain.1, rsaText_accepted⟩, ?_⟩
  rw [List.forall_mem_cons, List.forall_mem_cons]
  exact ⟨small, short, other_texts_small⟩

/-- A user with one contact, one greeter and one introduction. -/
def savedUser (name id : Bytes) : LocalUser where
  info := namedInfo (ascii "me") (ascii "1")
  contacts := [namedInfo name id]
  greeters := [⟨ascii "localhost", 10, ascii "key"⟩]
  introductions := [⟨ascii "1", [], ascii "hi", namedInfo (ascii "you") (ascii "1")⟩]

theorem savedUser_savable {name id : Bytes} (small : name.length < 2 ^ 64)
    (short : id.length < 2 ^ 64) : (savedUser name id).Savable oneKeyContext.keys := by
  constructor
  · exact namedInfo_savable (by decide) (by decide)
  · intro u member
    rw [List.mem_singleton.mp member]
    exact namedInfo_savable small short
  · exact List.nodup_singleton _
  · intro g member
    rw [List.mem_singleton.mp member]
    exact ⟨by decide, by decide⟩
  · intro i member
    rw [List.mem_singleton.mp member]
    exact ⟨namedInfo_savable (by decide) (by decide), by decide⟩

theorem user_loads_named : ∃ files,
    saveUser oneKeyContext (savedUser (ascii "friend") (ascii "1")) = .ok files ∧
      loadUser oneKeyContext files = .ok (savedUser (ascii "friend") (ascii "1")) := by
  refine user_loads (savedUser_savable (by decide) (by decide)) ⟨⟨by decide, by decide⟩, ?_, ?_⟩
  · intro u member
    rw [List.mem_singleton.mp member]
    exact ⟨by decide, by decide⟩
  · intro i member
    rw [List.mem_singleton.mp member]
    exact ⟨by decide, by decide⟩

/-- A contact that `user_info` refuses is saved, and the user cannot be loaded. -/
private theorem refused_contact_fails {name id : Bytes} {text : String}
    (small : name.length < 2 ^ 64) (short : id.length < 2 ^ 64)
    (refused : UserInfo.new (namedInfo name id).addresses (namedInfo name id).name
      (namedInfo name id).id (namedInfo name id).pkey = .error (.raised .require text)) :
    ∃ files, (savedUser name id).Savable oneKeyContext.keys ∧
      saveUser oneKeyContext (savedUser name id) = .ok files ∧
        loadUser oneKeyContext files = .error (.raised .require text) := by
  have savable := savedUser_savable small short
  have named : (namedInfo (ascii "me") (ascii "1")).Named := ⟨by decide, by decide⟩
  obtain ⟨after, info⟩ := @readUserInfo_eq _ oneKeyContext _ savable.info named [] 0
  rw [List.append_nil] at info
  have user : toUsers oneKeyContext [infoValue oneKeyContext (namedInfo name id)] =
      .error (.raised .require text) := by
    have read := toUserInfo_eq (namedInfo_savable small short) (oneKeyContext.walk.perm _)
    unfold toUsers
    rw [List.mapM_cons, infoValue, UserContext.value, Value.asDict, ok_bind, read, refused]
    rfl
  have contacts := @readItems_eq _ oneKeyContext _ [namedInfo name id] (infoValue oneKeyContext)
    (toUsers oneKeyContext) _ (fun u member => infoValue_good (savable.contacts u member)) user
  refine ⟨_, savable, saveUser_eq savable, ?_⟩
  unfold loadUser userFiles
  rw [info, ok_bind]
  exact congrArg (· >>= _) contacts

/-- A user who was introduced to a contact with these addresses. -/
def introducedUser (addresses : List Bytes) : LocalUser where
  info := namedInfo (ascii "me") (ascii "1")
  contacts := []
  greeters := []
  introductions :=
    [⟨ascii "1", [], ascii "hi",
      { namedInfo (ascii "you") (ascii "1") with addresses := addresses }⟩]

/-- No address is saved as an empty one. -/
private theorem saveUser_introduced : saveUser oneKeyContext (introducedUser []) =
    saveUser oneKeyContext (introducedUser [[]]) := rfl

private theorem introducedUser_savable :
    (introducedUser [[]]).Savable oneKeyContext.keys := by
  have small : ∀ text ∈ ascii "you" :: ascii "1" :: rsaText :: [[]], text.length < 2 ^ 64 := by
    intro text member
    simp only [List.mem_cons, List.not_mem_nil, or_false] at member
    rcases member with rfl | rfl | rfl | rfl
    · decide
    · decide
    · exact rsaText_plain.2.1
    · decide
  refine ⟨namedInfo_savable (by decide) (by decide), nofun, List.nodup_nil, nofun, fun i member => ?_⟩
  rw [List.mem_singleton.mp member]
  exact ⟨⟨List.cons_ne_nil _ _, ⟨rfl, rsaText_plain.1, rsaText_accepted⟩, small⟩, by decide⟩

private theorem addressless_introduction_changes : ∃ files,
    saveUser oneKeyContext (introducedUser []) = .ok files ∧
      loadUser oneKeyContext files = .ok (introducedUser [[]]) := by
  have named : (introducedUser [[]]).Named := by
    refine ⟨⟨by decide, by decide⟩, nofun, fun i member => ?_⟩
    rw [List.mem_singleton.mp member]
    exact ⟨by decide, by decide⟩
  rw [saveUser_introduced]
  exact ⟨_, saveUser_eq introducedUser_savable, loadUser_eq introducedUser_savable named⟩

/-- With a contact that has no name or no id the user cannot be loaded, and an introduction
to a contact without an address comes back with an empty one. -/
theorem saved_user_differs :
    (∃ files, (savedUser [] (ascii "1")).Savable oneKeyContext.keys ∧
      saveUser oneKeyContext (savedUser [] (ascii "1")) = .ok files ∧
        loadUser oneKeyContext files = .error (.raised .require "!(name.empty())")) ∧
    (∃ files, (savedUser (ascii "friend") []).Savable oneKeyContext.keys ∧
      saveUser oneKeyContext (savedUser (ascii "friend") []) = .ok files ∧
        loadUser oneKeyContext files = .error (.raised .require "!(id.empty())")) ∧
    ∃ files, saveUser oneKeyContext (introducedUser []) = .ok files ∧
      loadUser oneKeyContext files = .ok (introducedUser [[]]) ∧
      introducedUser [[]] ≠ introducedUser [] := by
  obtain ⟨files, saved, loaded⟩ := addressless_introduction_changes
  refine ⟨refused_contact_fails (by decide) (by decide) rfl,
    refused_contact_fails (by decide) (by decide) rfl, files, saved, loaded, fun same => ?_⟩
  have addresses := congrArg (fun lu => lu.introductions.map (·.contact.addresses)) same
  cases addresses

end Witness

end Firestr.User.Saved
