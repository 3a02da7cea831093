import Mathlib.Data.List.Forall2
import Mathlib.Data.List.Lex
import Firestr.Library.OrderedMap
import Firestr.Util.MencodeProperties

/-! The typed serialiser. `mencode_out` and `mencode_in` have one overload for
each kind of type, once without a key and once with one. What has a key goes
through the dictionary `_d`, and everything else through the value `_v`. -/

set_option autoImplicit false

namespace Firestr.Util

open Firestr.Library.Assoc Firestr.Library.OrderedMap

mutual

inductive Ty where
  | bool
  | int
  | size
  | double
  | string
  | bytes
  | dict
  | array
  | value
  | vector (item : Ty)
  | list (item : Ty)
  | set (item : Ty)
  | map (item : Ty)
  | unorderedMap (item : Ty)
  | struct (fields : Fields)

/-- The fields of a struct, in the order its `serialize` lists them. -/
inductive Fields where
  | one (k : Bytes) (type : Ty)
  | cons (k : Bytes) (type : Ty) (rest : Fields)

end

mutual

/-- The values of a type. Containers list their items as they are walked. -/
def Ty.Data (Double : Type) : Ty → Type
  | .bool => Bool
  | .int => Int32
  | .size => UInt64
  | .double => Double
  | .string => Bytes
  | .bytes => Bytes
  | .dict => List (Bytes × Value Double)
  | .array => List (Value Double)
  | .value => Value Double
  | .vector item => List (item.Data Double)
  | .list item => List (item.Data Double)
  | .set item => List (item.Data Double)
  | .map item => List (Bytes × item.Data Double)
  | .unorderedMap item => List (Bytes × item.Data Double)
  | .struct fields => fields.Data Double

def Fields.Data (Double : Type) : Fields → Type
  | .one _ type => type.Data Double
  | .cons _ type rest => type.Data Double × rest.Data Double

end

variable {Double : Type}

/-- Maps with the same keys, and the same items under them. -/
def SameItems {Item : Type} (same : Item → Item → Prop) (r t : List (Bytes × Item)) : Prop :=
  (∀ k, k ∈ r.map (·.1) ↔ k ∈ t.map (·.1)) ∧
    ∀ e ∈ r, ∀ f ∈ t, e.1 = f.1 → same e.2 f.2

mutual

/-- Values of a type that are equal, maps being compared as maps. -/
def Ty.Same : (T : Ty) → T.Data Double → T.Data Double → Prop
  | .bool, r, t => r = t
  | .int, r, t => r = t
  | .size, r, t => r = t
  | .double, r, t => r = t
  | .string, r, t => r = t
  | .bytes, r, t => r = t
  | .dict, r, t => (Value.dict r).Same (.dict t)
  | .array, r, t => (Value.array r).Same (.array t)
  | .value, r, t => Value.Same r t
  | .vector item, r, t => List.Forall₂ item.Same r t
  | .list item, r, t => List.Forall₂ item.Same r t
  | .set item, r, t => List.Forall₂ item.Same r t
  | .map item, r, t => SameItems item.Same r t
  | .unorderedMap item, r, t => SameItems item.Same r t
  | .struct fields, r, t => fields.Same r t

def Fields.Same : (F : Fields) → F.Data Double → F.Data Double → Prop
  | .one _ type, r, t => type.Same r t
  | .cons _ type rest, r, t => type.Same r.1 t.1 ∧ rest.Same r.2 t.2

end

/-- What the standard containers leave open: in which order a dictionary is
walked whose keys came in the order of the list, and the `operator <` of the
items of a set, which does not tell equal items apart. -/
structure Containers (Double : Type) where
  walk : List (Bytes × Value Double) → List (Bytes × Value Double)
  walk_perm : ∀ d, (walk d).Perm d
  less : (T : Ty) → T.Data Double → T.Data Double → Bool
  less_same : ∀ (T : Ty) (r t r' t' : T.Data Double), T.Same r t → T.Same r' t' →
    less T r r' = less T t t'

variable (std : Containers Double)

structure MencodeOut (Double : Type) where
  v : Value Double := .empty
  d : List (Bytes × Value Double) := []

namespace MencodeOut

def val (o : MencodeOut Double) : Value Double :=
  if o.d.length ≠ 0 then .dict (std.walk o.d) else o.v

def put (o : MencodeOut Double) (k : Bytes) (v : Value Double) : MencodeOut Double :=
  { o with d := assign o.d k v }

/-- The array that `out_collection` makes with a new `mencode_out` for each item. -/
def outCollection {Item : Type} (out : Item → MencodeOut Double) (t : List Item) : Value Double :=
  .array (t.map fun v => (out v).val std)

/-- The dictionary that `out_map` makes with a new `mencode_out` for each item. -/
def outMap {Item : Type} (out : Item → MencodeOut Double) (t : List (Bytes × Item)) :
    Value Double :=
  .dict (std.walk (t.foldl (fun d v => assign d v.1 ((out v.2).val std)) []))

mutual

/-- `operator()` without a key. -/
def out : (T : Ty) → T.Data Double → MencodeOut Double → MencodeOut Double
  | .bool, t, o => { o with v := .bool t }
  | .int, t, o => { o with v := .int (Int32.toInt64 t) }
  | .size, t, o => { o with v := .size t }
  | .double, t, o => { o with v := .real t }
  | .string, t, o => { o with v := .bytes t }
  | .bytes, t, o => { o with v := .bytes t }
  | .dict, t, o => { o with v := .dict t }
  | .array, t, o => { o with v := .array t }
  | .value, t, o => { o with v := t }
  | .vector item, t, o => { o with v := outCollection std (out item · {}) t }
  | .list item, t, o => { o with v := outCollection std (out item · {}) t }
  | .set item, t, o => { o with v := outCollection std (out item · {}) t }
  | .map item, t, o => { o with v := outMap std (out item · {}) t }
  | .unorderedMap item, t, o => { o with v := outMap std (out item · {}) t }
  | .struct fields, t, o => outFields fields t o

/-- `operator()` with a key. -/
def outKey : (T : Ty) → Bytes → T.Data Double → MencodeOut Double → MencodeOut Double
  | .bool, k, t, o => o.put k (.bool t)
  | .int, k, t, o => o.put k (.int (Int32.toInt64 t))
  | .size, k, t, o => o.put k (.size t)
  | .double, k, t, o => o.put k (.real t)
  | .string, k, t, o => o.put k (.bytes t)
  | .bytes, k, t, o => o.put k (.bytes t)
  | .dict, k, t, o => o.put k (.dict t)
  | .array, k, t, o => o.put k (.array t)
  | .value, k, t, o => o.put k t
  | .vector item, k, t, o => o.put k (outCollection std (out item · {}) t)
  | .list item, k, t, o => o.put k (outCollection std (out item · {}) t)
  | .set item, k, t, o => o.put k (outCollection std (out item · {}) t)
  | .map item, k, t, o => o.put k (outMap std (out item · {}) t)
  | .unorderedMap item, k, t, o => o.put k (outMap std (out item · {}) t)
  | .struct fields, k, t, o => o.put k ((outFields fields t {}).val std)

/-- The `serialize` of a struct. -/
def outFields : (F : Fields) → F.Data Double → MencodeOut Double → MencodeOut Double
  | .one k type, t, o => outKey type k t o
  | .cons k type rest, t, o => outFields rest t.2 (outKey type k t.1 o)

end

end MencodeOut

structure MencodeIn (Double : Type) where
  v : Value Double := .empty
  d : List (Bytes × Value Double) := []

/-- `insert` into a set. -/
def insertSet {Item : Type} (less : Item → Item → Bool) : List Item → Item → List Item
  | [], x => [x]
  | a :: s, x =>
    if less a x then a :: insertSet less s x
    else if less x a then x :: a :: s
    else a :: s

/-- The order of the characters of a string. -/
instance byteOrder : LinearOrder UInt8 where
  le_refl := UInt8.le_refl
  le_trans _ _ _ := UInt8.le_trans
  le_antisymm _ _ := UInt8.le_antisymm
  le_total := UInt8.le_total
  lt_iff_le_not_ge _ _ := by
    simp only [UInt8.lt_iff_toNat_lt, UInt8.le_iff_toNat_le]
    omega
  toDecidableLE := inferInstance

namespace MencodeIn

/-- `mencode_in(const value&)`. -/
def new : Value Double → MencodeIn Double
  | .dict d => { d := d }
  | v => { v := v }

/-- `_d[k]`. -/
def item (i : MencodeIn Double) (k : Bytes) : Value Double := (i.d.lookup k).getD .empty

/-- The loop of `in_collection` over the array in `v`. -/
def inCollection {Item : Type} (read : MencodeIn Double → Outcome Item)
    (insert : List Item → Item → List Item) (v : Value Double) : Outcome (List Item) := do
  let a ← v.asArray
  a.foldlM
    (fun t v => do
      let tv ← read (new v)
      pure (insert t tv)) []

/-- The loop of `in_map` over the dictionary in `v`. -/
def inMap {Item : Type} (read : MencodeIn Double → Outcome Item)
    (insert : List (Bytes × Item) → Bytes → Item → List (Bytes × Item)) (v : Value Double) :
    Outcome (List (Bytes × Item)) := do
  let d ← v.asDict
  (std.walk d).foldlM
    (fun t v => do
      let tv ← read (new v.2)
      pure (insert t v.1 tv)) []

mutual

/-- `operator()` without a key. -/
def read : (T : Ty) → MencodeIn Double → Outcome (T.Data Double)
  | .bool, i => i.v.asBool
  | .int, i => do
    let t ← i.v.asInt
    pure t.toInt32
  | .size, i => i.v.asSize
  | .double, i => i.v.asDouble
  | .string, i => i.v.asString
  | .bytes, i => i.v.asBytes
  | .dict, i => i.v.asDict
  | .array, i => i.v.asArray
  | .value, i => pure i.v
  | .vector item, i => inCollection (read item) (fun t tv => t ++ [tv]) i.v
  | .list item, i => inCollection (read item) (fun t tv => t ++ [tv]) i.v
  | .set item, i => inCollection (read item) (insertSet (std.less item)) i.v
  | .map item, i => inMap std (read item) place i.v
  | .unorderedMap item, i => inMap std (read item) assign i.v
  | .struct fields, i => readFields fields i

/-- `operator()` with a key. -/
def readKey : (T : Ty) → Bytes → MencodeIn Double → Outcome (T.Data Double)
  | .bool, k, i => (i.item k).asBool
  | .int, k, i => do
    let t ← (i.item k).asInt
    pure t.toInt32
  | .size, k, i => (i.item k).asSize
  | .double, k, i => (i.item k).asDouble
  | .string, k, i => (i.item k).asString
  | .bytes, k, i => (i.item k).asBytes
  | .dict, k, i => (i.item k).asDict
  | .array, k, i => (i.item k).asArray
  | .value, k, i => pure (i.item k)
  | .vector item, k, i => inCollection (read item) (fun t tv => t ++ [tv]) (i.item k)
  | .list item, k, i => inCollection (read item) (fun t tv => t ++ [tv]) (i.item k)
  | .set item, k, i => inCollection (read item) (insertSet (std.less item)) (i.item k)
  | .map item, k, i => inMap std (read item) place (i.item k)
  | .unorderedMap item, k, i => inMap std (read item) assign (i.item k)
  | .struct fields, k, i => readFields fields (new (i.item k))

/-- The `serialize` of a struct. -/
def readFields : (F : Fields) → MencodeIn Double → Outcome (F.Data Double)
  | .one k type, i => readKey type k i
  | .cons k type rest, i => do
    let t ← readKey type k i
    let ts ← readFields rest i
    pure (t, ts)

end

end MencodeIn

def serialize (doubles : Doubles Double) (T : Ty) (t : T.Data Double) : Bytes :=
  ((MencodeOut.out std T t {}).val std).encode doubles

def deserialize (doubles : Doubles Double) (T : Ty) (b : Bytes) : Outcome (T.Data Double) := do
  let v ← Value.decode doubles b
  MencodeIn.read std T (.new v)

end Firestr.Util
