import Firestr.Security.EncryptedChannels

/-! Channels that are all for one key: each keeps the secret that was drawn when
it was made. -/

set_option autoImplicit false

namespace Firestr.Security

open Firestr.Util

variable {Public : Type}

namespace EncryptedChannels

/-- Every channel is for the key, and no two have the same secret. -/
structure KeyedBy (key : String) (s : EncryptedChannels Public) : Prop where
  keyed : ∀ i c, s.channels i = some c → c.key = some key
  drawn : ∀ i c, s.channels i = some c → c.sharedSecret.secret < s.drawn
  apart : ∀ i j c d, s.channels i = some c → s.channels j = some d →
    c.sharedSecret.secret = d.sharedSecret.secret → i = j

/-- `next` has the channels of `s`, and others without a symmetric key. -/
structure Grows (s next : EncryptedChannels Public) : Prop where
  kept : ∀ i c, s.channels i = some c → next.channels i = some c
  fresh : ∀ i c, next.channels i = some c →
    s.channels i = some c ∨ c.sharedSecret.otherPubValue = none

/-- The channels of `s` are there in `next`, with their secrets. -/
def KeepsSecrets (s next : EncryptedChannels Public) : Prop :=
  ∀ i c, s.channels i = some c → ∃ d, next.channels i = some d ∧
    d.sharedSecret.secret = c.sharedSecret.secret

section Channels

variable {s between next : EncryptedChannels Public} {i j key : String} {c d : Channel Public}
  {publicVal : Public}

theorem keyedBy_empty : ({} : EncryptedChannels Public).KeyedBy key where
  keyed _ _ found := by cases found
  drawn _ _ found := by cases found
  apart _ _ _ _ found := by cases found

theorem Grows.rfl : s.Grows s := ⟨fun _ _ found => found, fun _ _ found => .inl found⟩

theorem Grows.trans (first : s.Grows between) (second : between.Grows next) : s.Grows next where
  kept i c found := second.kept i c (first.kept i c found)
  fresh i c found := by
    rcases second.fresh i c found with before | unready
    · exact first.fresh i c before
    · exact .inr unready

theorem Grows.keepsSecrets (grows : s.Grows next) : s.KeepsSecrets next :=
  fun i c found => ⟨c, grows.kept i c found, .refl _⟩

theorem KeepsSecrets.trans (first : s.KeepsSecrets between) (second : between.KeepsSecrets next) :
    s.KeepsSecrets next := by
  intro i c found
  obtain ⟨d, there, same⟩ := first i c found
  obtain ⟨e, there', same'⟩ := second i d there
  exact ⟨e, there', same'.trans same⟩

/-- The cases of a channel in channels with one more. -/
theorem channels_put (found : (s.put j d).channels i = some c) :
    (i = j ∧ c = d) ∨ (i ≠ j ∧ s.channels i = some c) := by
  change Function.update s.channels j (some d) i = some c at found
  rw [Function.update_apply] at found
  split at found
  · rename_i same
    exact .inl ⟨same, (Option.some.inj found).symm⟩
  · rename_i other
    exact .inr ⟨other, found⟩

theorem channels_put_self : (s.put j d).channels j = some d := Function.update_self ..

theorem channels_put_of_ne (other : i ≠ j) : (s.put j d).channels i = s.channels i :=
  Function.update_of_ne other ..

theorem KeyedBy.put (keyed : s.KeyedBy key) {drawn : Nat} (more : s.drawn ≤ drawn)
    (here : d.key = some key) (below : d.sharedSecret.secret < drawn)
    (other : ∀ i c, i ≠ j → s.channels i = some c →
      c.sharedSecret.secret ≠ d.sharedSecret.secret) :
    ({ s with drawn := drawn }.put j d).KeyedBy key where
  keyed i c found := by
    rcases channels_put found with ⟨-, rfl⟩ | ⟨-, before⟩
    · exact here
    · exact keyed.keyed i c before
  drawn i c found := by
    rcases channels_put found with ⟨-, rfl⟩ | ⟨-, before⟩
    · exact below
    · exact Nat.lt_of_lt_of_le (keyed.drawn i c before) more
  apart i k c e found found' same := by
    rcases channels_put found with ⟨rfl, rfl⟩ | ⟨apart, before⟩
    · rcases channels_put found' with ⟨rfl, -⟩ | ⟨apart', before'⟩
      · rfl
      · exact absurd same.symm (other k e apart' before')
    · rcases channels_put found' with ⟨rfl, rfl⟩ | ⟨-, before'⟩
      · exact absurd same (other i c apart before)
      · exact keyed.apart i k c e before before' same

/-- A channel that is there for the key stays, and otherwise there is a new one. -/
theorem createChannel_cases (keyed : s.KeyedBy key) (i : String) :
    (s.createChannel i key = s ∧ ∃ c, s.channels i = some c) ∨
      (s.channels i = none ∧ s.createChannel i key =
        { s with drawn := s.drawn + 2 }.put i
          { sharedSecret := { secret := s.drawn + 1 }, key := some key }) := by
  cases found : s.channels i with
  | some c =>
      refine .inl ⟨?_, c, rfl⟩
      rw [createChannel, entry]
      simp only [found]
      rw [if_pos (keyed.keyed i c found)]
  | none =>
      refine .inr ⟨rfl, ?_⟩
      simp only [createChannel, entry, found, drawSecret, reduceCtorEq, if_false, put,
        Function.update_idem]

theorem createChannel_keyedBy (keyed : s.KeyedBy key) (i : String) :
    (s.createChannel i key).KeyedBy key := by
  rcases createChannel_cases keyed i with ⟨same, -⟩ | ⟨-, made⟩
  · rw [same]
    exact keyed
  · rw [made]
    refine keyed.put (Nat.le_add_right _ 2) rfl (Nat.lt_succ_self _) fun j c _ found same => ?_
    have below : c.sharedSecret.secret < s.drawn := keyed.drawn j c found
    rw [same] at below
    exact absurd below (Nat.not_lt.mpr (Nat.le_succ _))

theorem createChannel_grows (keyed : s.KeyedBy key) (i : String) :
    s.Grows (s.createChannel i key) := by
  rcases createChannel_cases keyed i with ⟨same, -⟩ | ⟨missing, made⟩
  · rw [same]
    exact .rfl
  · rw [made]
    refine ⟨fun j c found => ?_, fun j c found => ?_⟩
    · have other : j ≠ i := fun same => by
        rw [same, missing] at found
        cases found
      exact (channels_put_of_ne other).trans found
    · rcases channels_put found with ⟨-, rfl⟩ | ⟨-, before⟩
      · exact .inr rfl
      · exact .inl before

theorem createChannel_made (keyed : s.KeyedBy key) (i : String) :
    ∃ c, (s.createChannel i key).channels i = some c := by
  rcases createChannel_cases keyed i with ⟨same, there⟩ | ⟨-, made⟩
  · rw [same]
    exact there
  · rw [made]
    exact ⟨_, channels_put_self⟩

/-- A channel that is there gets the symmetric key, and keeps its secret. -/
theorem createReadyChannel_eq (found : s.channels i = some c) :
    s.createReadyChannel i key publicVal =
      s.put i { sharedSecret := c.sharedSecret.createSymmetricKey publicVal, key := some key } := by
  rw [createReadyChannel, entry]
  simp only [found]

theorem createReadyChannel_keyedBy (keyed : s.KeyedBy key) (found : s.channels i = some c) :
    (s.createReadyChannel i key publicVal).KeyedBy key := by
  rw [createReadyChannel_eq found]
  refine keyed.put (Nat.le_refl _) rfl (keyed.drawn i c found) fun j d other there same => ?_
  exact other (keyed.apart j i d c there found same)

theorem createReadyChannel_keepsSecrets (found : s.channels i = some c) :
    s.KeepsSecrets (s.createReadyChannel i key publicVal) := by
  intro j d there
  rw [createReadyChannel_eq found]
  by_cases here : j = i
  · subst here
    cases there.symm.trans found
    exact ⟨_, channels_put_self, rfl⟩
  · exact ⟨d, (channels_put_of_ne here).trans there, rfl⟩

end Channels

end EncryptedChannels

end Firestr.Security
