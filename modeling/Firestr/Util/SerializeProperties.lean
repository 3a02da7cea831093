import Firestr.Library.Outcomes
import Firestr.Util.Serialize

/-! What the typed serialiser reads back. -/

set_option autoImplicit false

namespace Firestr.Util

open Firestr.Library.Assoc Firestr.Library.OrderedMap Firestr.Library.Outcomes

variable {Double : Type} {doubles : Doubles Double} {std : Containers Double}

def Fields.keys : Fields → List Bytes
  | .one k _ => [k]
  | .cons k _ rest => k :: rest.keys

/-- Keys that are told apart and can be written. -/
structure GoodKeys (keys : List Bytes) : Prop where
  distinct : keys.Nodup
  nonempty : ∀ k ∈ keys, k ≠ []
  small : ∀ k ∈ keys, k.length < 2 ^ 64

/-- A value that decodes to itself. -/
structure Value.Good (v : Value Double) : Prop where
  formed : v.Formed
  nonempty : v.KeysNonempty

/-- The items of a collection have a property. -/
def Every {Item : Type} (property : Item → Prop) (t : List Item) : Prop := ∀ e ∈ t, property e

/-- The items of a map have a property. -/
def EveryItem {Item : Type} (property : Item → Prop) (t : List (Bytes × Item)) : Prop :=
  ∀ e ∈ t, property e.2

mutual

/-- The structs in the type have good keys. -/
def Ty.Keyed : Ty → Prop
  | .vector item | .list item | .set item | .map item | .unorderedMap item => item.Keyed
  | .struct fields => GoodKeys fields.keys ∧ fields.Keyed
  | _ => True

def Fields.Keyed : Fields → Prop
  | .one _ type => type.Keyed
  | .cons _ type rest => type.Keyed ∧ rest.Keyed

end

mutual

/-- A value as its type has it, with no empty key. -/
def Ty.Formed (std : Containers Double) : (T : Ty) → T.Data Double → Prop
  | .string, t => List.length t < 2 ^ 64
  | .bytes, t => List.length t < 2 ^ 64
  | .dict, t => (Value.dict t).Good
  | .array, t => (Value.array t).Good
  | .value, t => Value.Good t
  | .vector item, t => Every (item.Formed std) t
  | .list item, t => Every (item.Formed std) t
  | .set item, t => List.Pairwise (fun a b => std.less item a b = true) t ∧
      Every (item.Formed std) t
  | .map item, t => GoodKeys (List.map (·.1) t) ∧ EveryItem (item.Formed std) t
  | .unorderedMap item, t => GoodKeys (List.map (·.1) t) ∧ EveryItem (item.Formed std) t
  | .struct fields, t => fields.Formed std t
  | .bool, _ => True
  | .int, _ => True
  | .size, _ => True
  | .double, _ => True

def Fields.Formed (std : Containers Double) : (F : Fields) → F.Data Double → Prop
  | .one _ type, t => type.Formed std t
  | .cons _ type rest, t => type.Formed std t.1 ∧ rest.Formed std t.2

end

mutual

/-- No map and no dictionary stands without a key: as the whole, in a
collection, or in another map. -/
def Ty.Readable : (T : Ty) → T.Data Double → Prop
  | .dict, _ => False
  | .map _, _ => False
  | .unorderedMap _, _ => False
  | .value, t => ∀ d, t ≠ Value.dict d
  | .vector item, t => Every item.Readable t
  | .list item, t => Every item.Readable t
  | .set item, t => Every item.Readable t
  | .struct fields, t => fields.Readable t
  | .bool, _ => True
  | .int, _ => True
  | .size, _ => True
  | .double, _ => True
  | .string, _ => True
  | .bytes, _ => True
  | .array, _ => True

/-- The same for what has a key itself. -/
def Ty.KeyReadable : (T : Ty) → T.Data Double → Prop
  | .vector item, t => Every item.Readable t
  | .list item, t => Every item.Readable t
  | .set item, t => Every item.Readable t
  | .map item, t => EveryItem item.Readable t
  | .unorderedMap item, t => EveryItem item.Readable t
  | .struct fields, t => fields.Readable t
  | .bool, _ => True
  | .int, _ => True
  | .size, _ => True
  | .double, _ => True
  | .string, _ => True
  | .bytes, _ => True
  | .dict, _ => True
  | .array, _ => True
  | .value, _ => True

def Fields.Readable : (F : Fields) → F.Data Double → Prop
  | .one _ type, t => type.KeyReadable t
  | .cons _ type rest, t => type.KeyReadable t.1 ∧ rest.Readable t.2

end

section Written

/-- What `out` makes of a value. -/
def Ty.written (std : Containers Double) (T : Ty) (t : T.Data Double) : Value Double :=
  (MencodeOut.out std T t {}).val std

/-- The overloads with a key write the same as those without one. -/
theorem MencodeOut.outKey_eq (T : Ty) (k : Bytes) (t : T.Data Double) (o : MencodeOut Double) :
    outKey std T k t o = o.put k (T.written std t) := by
  cases T <;> rfl

/-- What the fields of a struct are written as. -/
def Fields.entries (std : Containers Double) : (F : Fields) → F.Data Double →
    List (Bytes × Value Double)
  | .one k type, t => [(k, type.written std t)]
  | .cons k type rest, t => (k, type.written std t.1) :: rest.entries std t.2

@[simp] theorem Fields.keys_entries (F : Fields) (t : F.Data Double) :
    (F.entries std t).map (·.1) = F.keys := by
  match F with
  | .one _ _ => rfl
  | .cons _ _ rest => exact congrArg _ (rest.keys_entries t.2)

theorem MencodeOut.outFields_eq (F : Fields) (t : F.Data Double) (o : MencodeOut Double) :
    outFields std F t o =
      { o with d := (F.entries std t).foldl (fun d e => assign d e.1 e.2) o.d } := by
  match F with
  | .one k type => exact outKey_eq type k t o
  | .cons k type rest =>
      have first : outKey std type k t.1 o = o.put k (type.written std t.1) :=
        outKey_eq type k t.1 o
      have others := outFields_eq rest t.2 (outKey std type k t.1 o)
      rw [outFields, others, first]
      rfl

theorem Ty.written_struct {F : Fields} (good : GoodKeys F.keys) (t : F.Data Double) :
    (Ty.struct F).written std t = .dict (std.walk (F.entries std t)) := by
  have distinct : (([] : List (Bytes × Value Double)).map (·.1) ++
      (F.entries std t).map (·.1)).Nodup := by
    rw [Fields.keys_entries]
    exact good.distinct
  have built := foldl_assign id (F.entries std t) distinct
  rw [List.nil_append] at built
  have whole := built.trans (List.map_id _)
  have some? : (F.entries std t).length ≠ 0 := by
    cases F <;> exact Nat.succ_ne_zero _
  have state : MencodeOut.outFields std F t {} =
      { d := (F.entries std t).foldl (fun d e => assign d e.1 e.2) [] } :=
    MencodeOut.outFields_eq F t {}
  change (MencodeOut.outFields std F t {}).val std = _
  simp only [id] at whole
  rw [state, MencodeOut.val, whole, if_pos some?]

theorem outMap_eq {Item : Type} (out : Item → MencodeOut Double) {t : List (Bytes × Item)}
    (distinct : (t.map (·.1)).Nodup) :
    MencodeOut.outMap std out t = .dict (std.walk (t.map fun e => (e.1, (out e.2).val std))) := by
  have built := @foldl_assign _ _ _ [] _ (fun v => (out v).val std) t (by simpa using distinct)
  rw [MencodeOut.outMap, built, List.nil_append]

end Written

section Good

theorem Value.Good.dict_of_perm {d walked : List (Bytes × Value Double)} (perm : walked.Perm d)
    (good : GoodKeys (d.map (·.1))) (items : EveryItem Value.Good d) :
    (Value.dict walked).Good := by
  have key : ∀ {e}, e ∈ walked → e.1 ∈ d.map (·.1) :=
    fun member => List.mem_map_of_mem (perm.mem_iff.mp member)
  constructor
  · refine .dict ?_ (fun e member => good.small _ (key member)) fun e member =>
      (items e (perm.mem_iff.mp member)).formed
    exact (perm.map (·.1)).nodup_iff.mpr good.distinct
  · exact .dict (fun e member => good.nonempty _ (key member)) fun e member =>
      (items e (perm.mem_iff.mp member)).nonempty

theorem Value.Good.dict {d : List (Bytes × Value Double)} (good : GoodKeys (d.map (·.1)))
    (items : EveryItem Value.Good d) : (Value.dict (std.walk d)).Good :=
  .dict_of_perm (std.walk_perm d) good items

/-- A good dictionary is read as it was written. -/
theorem readDict_good {d : List (Bytes × Value Double)} (good : (Value.dict d).Good)
    (more : Bytes) (position : Nat) : ∃ after,
    readDict doubles { rest := (Value.dict d).encode doubles ++ more, position := position } =
      .ok (d, { rest := more, position := after }) := by
  have same : Value.dict (decodedEntries [] d) = .dict d :=
    decoded_eq_self good.formed good.nonempty
  obtain ⟨after, read⟩ := readDict_eq doubles more position good.formed
  rw [Value.dict.injEq] at same
  rw [same] at read
  exact ⟨after, read⟩

/-- A good array is read as it was written. -/
theorem readArray_good {a : List (Value Double)} (good : (Value.array a).Good)
    (more : Bytes) (position : Nat) : ∃ after,
    readArray doubles { rest := (Value.array a).encode doubles ++ more, position := position } =
      .ok (a, { rest := more, position := after }) := by
  have same : Value.array (decodedElements a) = .array a :=
    decoded_eq_self good.formed good.nonempty
  obtain ⟨after, read⟩ := readArray_eq doubles more position good.formed
  rw [Value.array.injEq] at same
  rw [same] at read
  exact ⟨after, read⟩

theorem Value.Good.same {v : Value Double} (good : v.Good) : v.Same v := by
  have equal := (same_decoded_iff good.formed).mpr good.nonempty
  rw [decoded_eq_self good.formed good.nonempty] at equal
  exact equal

theorem Value.Good.array {a : List (Value Double)} (items : Every Value.Good a) :
    (Value.array a).Good :=
  ⟨.array fun e member => (items e member).formed, .array fun e member => (items e member).nonempty⟩

variable {Item : Type} {out : Item → MencodeOut Double}

private theorem good_collection {t : List Item}
    (items : Every (fun e => ((out e).val std).Good) t) :
    (MencodeOut.outCollection std out t).Good := by
  refine .array fun v member => ?_
  obtain ⟨e, inside, rfl⟩ := List.mem_map.mp member
  exact items e inside

private theorem good_map {t : List (Bytes × Item)} (good : GoodKeys (t.map (·.1)))
    (items : EveryItem (fun e => ((out e).val std).Good) t) :
    (MencodeOut.outMap std out t).Good := by
  rw [outMap_eq out good.distinct]
  refine .dict (by rw [List.map_map]; exact good) fun v member => ?_
  obtain ⟨e, inside, rfl⟩ := List.mem_map.mp member
  exact items e inside

private theorem good_struct {F : Fields} (good : GoodKeys F.keys) {t : F.Data Double}
    (items : EveryItem Value.Good (F.entries std t)) : ((Ty.struct F).written std t).Good := by
  rw [Ty.written_struct good]
  refine .dict ?_ items
  rw [Fields.keys_entries]
  exact good

mutual

/-- What is written decodes to itself. -/
theorem Ty.written_good (T : Ty) (keyed : T.Keyed) (t : T.Data Double)
    (formed : T.Formed std t) : (T.written std t).Good := by
  match T with
  | .bool => exact ⟨.bool, .bool⟩
  | .int => exact ⟨.int, .int⟩
  | .size => exact ⟨.size, .size⟩
  | .double => exact ⟨.real, .real⟩
  | .string => exact ⟨.bytes formed, .bytes⟩
  | .bytes => exact ⟨.bytes formed, .bytes⟩
  | .dict => exact formed
  | .array => exact formed
  | .value => exact formed
  | .vector item => exact good_collection fun e member => item.written_good keyed e (formed e member)
  | .list item => exact good_collection fun e member => item.written_good keyed e (formed e member)
  | .set item =>
      exact good_collection fun e member => item.written_good keyed e (formed.2 e member)
  | .map item =>
      have items : EveryItem (fun e => (item.written std e).Good) t :=
        fun e member => item.written_good keyed e.2 (formed.2 e member)
      exact @good_map _ std _ (MencodeOut.out std item · {}) t formed.1 items
  | .unorderedMap item =>
      have items : EveryItem (fun e => (item.written std e).Good) t :=
        fun e member => item.written_good keyed e.2 (formed.2 e member)
      exact @good_map _ std _ (MencodeOut.out std item · {}) t formed.1 items
  | .struct fields =>
      exact good_struct keyed.1 (fields.entries_good keyed.2 t formed)

theorem Fields.entries_good (F : Fields) (keyed : F.Keyed) (t : F.Data Double)
    (formed : F.Formed std t) : EveryItem Value.Good (F.entries std t) := by
  match F with
  | .one k type =>
      intro e member
      cases List.mem_singleton.mp member
      exact type.written_good keyed t formed
  | .cons k type rest =>
      intro e member
      rcases List.mem_cons.mp member with rfl | later
      · exact type.written_good keyed.1 t.1 formed.1
      · exact rest.entries_good keyed.2 t.2 formed.2 e later

end

end Good

section RoundTrip

/-- What `operator()` with a key makes of the value under the key. -/
def MencodeIn.readAt (std : Containers Double) : (T : Ty) → Value Double → Outcome (T.Data Double)
  | .struct fields, v => readFields std fields (new v)
  | T, v => read std T { v := v }

theorem MencodeIn.readKey_eq (T : Ty) (k : Bytes) (i : MencodeIn Double) :
    readKey std T k i = readAt std T (i.item k) := by
  cases T <;> rfl

variable {Item : Type} {out : Item → MencodeOut Double} {read : MencodeIn Double → Outcome Item}
  {same : Item → Item → Prop}

private theorem exists_of_mem_left {rs t : List Item} (related : List.Forall₂ same rs t) {r : Item}
    (member : r ∈ rs) : ∃ e ∈ t, same r e := by
  induction related with
  | nil => cases member
  | cons here later ih =>
      rcases List.mem_cons.mp member with rfl | member
      · exact ⟨_, List.mem_cons_self, here⟩
      · obtain ⟨e, inside, there⟩ := ih member
        exact ⟨e, .tail _ inside, there⟩

private theorem reads_collection {t : List Item} {insert : List Item → Item → List Item}
    (reads : Every (fun e => ∃ r, read (.new ((out e).val std)) = .ok r ∧ same r e) t)
    (last : ∀ done e rest rs r, t = done ++ e :: rest → List.Forall₂ same rs done → same r e →
      insert rs r = rs ++ [r]) :
    ∃ rs, MencodeIn.inCollection read insert (MencodeOut.outCollection std out t) = .ok rs ∧
      List.Forall₂ same rs t := by
  rw [MencodeOut.outCollection, MencodeIn.inCollection, Value.asArray, ok_bind, List.foldlM_map]
  refine foldlM_ok (fun done rs => List.Forall₂ same rs done) t .nil
    fun done e rest rs whole related => ?_
  obtain ⟨r, success, equal⟩ := reads e (by rw [whole]; simp)
  refine ⟨rs ++ [r], ?_, List.rel_append related (.cons equal .nil)⟩
  rw [success, ok_bind, last done e rest rs r whole related equal, pure_ok]

theorem insertSet_last {less : Item → Item → Bool} {s : List Item} {x : Item}
    (greatest : ∀ a ∈ s, less a x = true) : insertSet less s x = s ++ [x] := by
  induction s with
  | nil => rfl
  | cons a s ih =>
      rw [insertSet, if_pos (greatest a List.mem_cons_self),
        ih fun b member => greatest b (.tail _ member), List.cons_append]

/-- What `t[k] = tv` does to a map of either kind. -/
private structure Inserts (insert : List (Bytes × Item) → Bytes → Item → List (Bytes × Item)) :
    Prop where
  keys : ∀ d k v key, key ∈ (insert d k v).map (·.1) ↔ key = k ∨ key ∈ d.map (·.1)
  entries : ∀ d k v e, e ∈ insert d k v → e = (k, v) ∨ e ∈ d

private theorem inserts_place : Inserts (place : List (Bytes × Item) → _) :=
  ⟨fun _ _ _ _ => mem_keys_place, fun _ _ _ _ => eq_or_mem_of_mem_place⟩

private theorem inserts_assign : Inserts (assign : List (Bytes × Item) → _) :=
  ⟨fun _ _ _ _ => mem_keys_assign,
    fun _ _ _ _ member => (eq_or_mem_of_mem_assign member).imp id And.left⟩

/-- The entries of `done` have been read as `rs`. -/
private structure ReadItems (same : Item → Item → Prop) (t : List (Bytes × Item))
    (done : List (Bytes × Value Double)) (rs : List (Bytes × Item)) : Prop where
  keys : ∀ k, k ∈ rs.map (·.1) ↔ k ∈ done.map (·.1)
  entries : ∀ f ∈ rs, ∃ e ∈ t, f.1 = e.1 ∧ same f.2 e.2

private theorem reads_map {t : List (Bytes × Item)}
    {insert : List (Bytes × Item) → Bytes → Item → List (Bytes × Item)} (inserts : Inserts insert)
    (distinct : (t.map (·.1)).Nodup)
    (reads : EveryItem (fun e => ∃ r, read (.new ((out e).val std)) = .ok r ∧ same r e) t) :
    ∃ rs, MencodeIn.inMap std read insert (MencodeOut.outMap std out t) = .ok rs ∧
      SameItems same rs t := by
  let written : List (Bytes × Value Double) := t.map fun e => (e.1, (out e.2).val std)
  let walked := std.walk (std.walk written)
  have perm : walked.Perm written := (std.walk_perm _).trans (std.walk_perm _)
  have loop : ∃ rs, walked.foldlM (fun rs v => do
        let tv ← read (.new v.2)
        pure (insert rs v.1 tv)) [] = .ok rs ∧ ReadItems same t walked rs := by
    refine foldlM_ok (ReadItems same t) walked ⟨fun _ => Iff.rfl, by simp⟩
      fun done v rest rs whole before => ?_
    have listed : v ∈ written := perm.mem_iff.mp (by rw [whole]; simp)
    obtain ⟨e, inside, rfl⟩ := List.mem_map.mp listed
    obtain ⟨r, success, equal⟩ := reads e inside
    refine ⟨insert rs e.1 r, by simp only [success, ok_bind, pure_ok], fun k => ?_,
      fun f member => ?_⟩
    · rw [inserts.keys, before.keys, List.map_append, List.mem_append, List.map_singleton,
        List.mem_singleton, or_comm]
    · rcases inserts.entries _ _ _ _ member with rfl | old
      · exact ⟨e, inside, rfl, equal⟩
      · exact before.entries f old
  obtain ⟨rs, success, all⟩ := loop
  refine ⟨rs, ?_, fun k => ?_, fun f member e inside key => ?_⟩
  · rw [outMap_eq out distinct]
    exact success
  · rw [all.keys, (perm.map (·.1)).mem_iff, List.map_map]
    rfl
  · obtain ⟨e', inside', key', equal⟩ := all.entries f member
    cases List.inj_on_of_nodup_map distinct inside' inside (key'.symm.trans key)
    exact equal

theorem Fields.item_entries {F : Fields} (good : GoodKeys F.keys) {t : F.Data Double} :
    ∀ e ∈ F.entries std t,
      (MencodeIn.new (.dict (std.walk (F.entries std t)))).item e.1 = e.2 := by
  intro e member
  have distinct : ((std.walk (F.entries std t)).map (·.1)).Nodup := by
    rw [((std.walk_perm _).map (·.1)).nodup_iff, Fields.keys_entries]
    exact good.distinct
  have found := lookup_of_mem distinct ((std.walk_perm (F.entries std t)).mem_iff.mpr member)
  rw [MencodeIn.new, MencodeIn.item, found]
  rfl

private theorem reads_list {T : Ty} {t : List (T.Data Double)}
    (reads : Every (fun e => ∃ r, MencodeIn.read std T (.new (T.written std e)) = .ok r ∧
      T.Same r e) t) :
    ∃ rs, MencodeIn.inCollection (MencodeIn.read std T) (fun t tv => t ++ [tv])
        (MencodeOut.outCollection std (MencodeOut.out std T · {}) t) = .ok rs ∧
      List.Forall₂ T.Same rs t :=
  reads_collection reads fun _ _ _ _ _ _ _ _ => rfl

private theorem reads_set {T : Ty} {t : List (T.Data Double)}
    (sorted : t.Pairwise fun a b => std.less T a b = true)
    (reads : Every (fun e => ∃ r, MencodeIn.read std T (.new (T.written std e)) = .ok r ∧
      T.Same r e) t) :
    ∃ rs, MencodeIn.inCollection (MencodeIn.read std T) (insertSet (std.less T))
        (MencodeOut.outCollection std (MencodeOut.out std T · {}) t) = .ok rs ∧
      List.Forall₂ T.Same rs t := by
  refine reads_collection reads fun done e rest rs r whole related equal => ?_
  refine insertSet_last fun a member => ?_
  obtain ⟨b, inside, same⟩ := exists_of_mem_left related member
  rw [std.less_same T a b r e same equal]
  rw [whole] at sorted
  exact (List.pairwise_append.mp sorted).2.2 b inside e List.mem_cons_self

private theorem reads_items {T : Ty} {t : List (Bytes × T.Data Double)}
    {insert : List (Bytes × T.Data Double) → Bytes → T.Data Double → List (Bytes × T.Data Double)}
    (inserts : Inserts insert) (distinct : (t.map (·.1)).Nodup)
    (reads : EveryItem (fun e => ∃ r, MencodeIn.read std T (.new (T.written std e)) = .ok r ∧
      T.Same r e) t) :
    ∃ rs, MencodeIn.inMap std (MencodeIn.read std T) insert
        (MencodeOut.outMap std (MencodeOut.out std T · {}) t) = .ok rs ∧ SameItems T.Same rs t :=
  reads_map inserts distinct reads

mutual

/-- Without a key a readable value is read back. -/
theorem Ty.read_written (T : Ty) (keyed : T.Keyed) (t : T.Data Double) (formed : T.Formed std t)
    (readable : T.Readable t) :
    ∃ r, MencodeIn.read std T (.new (T.written std t)) = .ok r ∧ T.Same r t := by
  match T with
  | .bool => exact ⟨t, rfl, rfl⟩
  | .int => exact ⟨_, rfl, Int32.toInt32_toInt64 t⟩
  | .size => exact ⟨t, rfl, rfl⟩
  | .double => exact ⟨t, rfl, rfl⟩
  | .string => exact ⟨t, rfl, rfl⟩
  | .bytes => exact ⟨t, rfl, rfl⟩
  | .dict => exact readable.elim
  | .array => exact ⟨t, rfl, formed.same⟩
  | .value =>
      refine ⟨t, ?_, formed.same⟩
      cases t with
      | dict d => exact absurd rfl (readable d)
      | empty | bool | int | size | real | bytes | array => rfl
  | .vector item =>
      exact reads_list fun e member =>
        item.read_written keyed e (formed e member) (readable e member)
  | .list item =>
      exact reads_list fun e member =>
        item.read_written keyed e (formed e member) (readable e member)
  | .set item =>
      exact reads_set formed.1 fun e member =>
        item.read_written keyed e (formed.2 e member) (readable e member)
  | .map item => exact readable.elim
  | .unorderedMap item => exact readable.elim
  | .struct fields =>
      have whole := @Ty.written_struct _ std fields keyed.1 t
      rw [whole]
      exact fields.read_entries keyed.2 t formed readable (Fields.item_entries keyed.1)

/-- With a key a readable value is read back. -/
theorem Ty.readAt_written (T : Ty) (keyed : T.Keyed) (t : T.Data Double)
    (formed : T.Formed std t) (readable : T.KeyReadable t) :
    ∃ r, MencodeIn.readAt std T (T.written std t) = .ok r ∧ T.Same r t := by
  match T with
  | .bool => exact ⟨t, rfl, rfl⟩
  | .int => exact ⟨_, rfl, Int32.toInt32_toInt64 t⟩
  | .size => exact ⟨t, rfl, rfl⟩
  | .double => exact ⟨t, rfl, rfl⟩
  | .string => exact ⟨t, rfl, rfl⟩
  | .bytes => exact ⟨t, rfl, rfl⟩
  | .dict => exact ⟨t, rfl, formed.same⟩
  | .array => exact ⟨t, rfl, formed.same⟩
  | .value => exact ⟨t, rfl, formed.same⟩
  | .vector item =>
      exact reads_list fun e member =>
        item.read_written keyed e (formed e member) (readable e member)
  | .list item =>
      exact reads_list fun e member =>
        item.read_written keyed e (formed e member) (readable e member)
  | .set item =>
      exact reads_set formed.1 fun e member =>
        item.read_written keyed e (formed.2 e member) (readable e member)
  | .map item =>
      exact reads_items inserts_place formed.1.distinct fun e member =>
        item.read_written keyed e.2 (formed.2 e member) (readable e member)
  | .unorderedMap item =>
      exact reads_items inserts_assign formed.1.distinct fun e member =>
        item.read_written keyed e.2 (formed.2 e member) (readable e member)
  | .struct fields =>
      have whole := @Ty.written_struct _ std fields keyed.1 t
      rw [whole]
      exact fields.read_entries keyed.2 t formed readable (Fields.item_entries keyed.1)

theorem Fields.read_entries (F : Fields) (keyed : F.Keyed) (t : F.Data Double)
    (formed : F.Formed std t) (readable : F.Readable t) {i : MencodeIn Double}
    (there : ∀ e ∈ F.entries std t, i.item e.1 = e.2) :
    ∃ r, MencodeIn.readFields std F i = .ok r ∧ F.Same r t := by
  match F with
  | .one k type =>
      have here : i.item k = type.written std t := there _ List.mem_cons_self
      rw [MencodeIn.readFields, MencodeIn.readKey_eq, here]
      exact type.readAt_written keyed t formed readable
  | .cons k type rest =>
      have here : i.item k = type.written std t.1 := there _ List.mem_cons_self
      obtain ⟨r, first, same⟩ := type.readAt_written keyed.1 t.1 formed.1 readable.1
      obtain ⟨rs, others, sames⟩ := rest.read_entries keyed.2 t.2 formed.2 readable.2
        fun e member => there e (.tail _ member)
      refine ⟨(r, rs), ?_, same, sames⟩
      rw [MencodeIn.readFields, MencodeIn.readKey_eq, here, first, ok_bind, others]
      rfl

end

end RoundTrip

section Readable

variable {Item : Type} {read : MencodeIn Double → Outcome Item} {property : Item → Prop}

theorem MencodeIn.new_v (v : Value Double) (d : List (Bytes × Value Double)) :
    (new v).v ≠ .dict d := by
  intro same
  cases v <;> cases same

theorem Value.asDict_ok {v : Value Double} {d : List (Bytes × Value Double)}
    (success : v.asDict = .ok d) : v = .dict d := by
  cases v with
  | dict => cases success; rfl
  | empty | bool | int | size | real | bytes | array => cases success

private theorem every_of_inCollection {insert : List Item → Item → List Item} {v : Value Double}
    {rs : List Item} (reads : ∀ v r, read (.new v) = .ok r → property r)
    (inserts : ∀ t tv e, e ∈ insert t tv → e ∈ t ∨ e = tv)
    (success : MencodeIn.inCollection read insert v = .ok rs) : Every property rs := by
  obtain ⟨a, -, success⟩ := bind_ok success
  refine @Meets.value _ _ (fun _ => True) _ _ (Meets.foldlM a (fun t v _ before => ?_) ?_) _ success
  · cases item : read (.new v) with
    | error => trivial
    | ok r =>
        refine Meets.ok fun e member => ?_
        rcases inserts t r e member with old | rfl
        · exact before e old
        · exact reads v e item
  · exact fun _ member => nomatch member

private theorem every_of_inMap {t : List (Bytes × Item)}
    {insert : List (Bytes × Item) → Bytes → Item → List (Bytes × Item)} (inserts : Inserts insert)
    {v : Value Double} (reads : ∀ v r, read (.new v) = .ok r → property r)
    (success : MencodeIn.inMap std read insert v = .ok t) : EveryItem property t := by
  obtain ⟨d, -, success⟩ := bind_ok success
  refine @Meets.value _ _ (fun _ => True) _ _
    (Meets.foldlM (std.walk d) (fun t v _ before => ?_) ?_) _ success
  · cases item : read (.new v.2) with
    | error => trivial
    | ok r =>
        refine Meets.ok fun e member => ?_
        rcases inserts.entries t v.1 r e member with rfl | old
        · exact reads v.2 r item
        · exact before e old
  · exact fun _ member => nomatch member

private theorem mem_concat (t : List Item) (tv e : Item) (member : e ∈ t ++ [tv]) :
    e ∈ t ∨ e = tv := by
  simpa using member

private theorem mem_insertSet {less : Item → Item → Bool} (t : List Item) (tv e : Item)
    (member : e ∈ insertSet less t tv) : e ∈ t ∨ e = tv := by
  induction t with
  | nil => exact .inr (List.mem_singleton.mp member)
  | cons a t ih =>
      rw [insertSet] at member
      split at member
      · rcases List.mem_cons.mp member with rfl | later
        · exact .inl List.mem_cons_self
        · exact (ih later).imp (.tail _) id
      · split at member
        · exact (List.mem_cons.mp member).symm
        · exact .inl member

mutual

/-- What has been read without a key is readable, whatever it was read of. -/
theorem Ty.readable_of_read (T : Ty) (v : Value Double) (r : T.Data Double)
    (success : MencodeIn.read std T (.new v) = .ok r) : T.Readable r := by
  match T with
  | .bool | .int | .size | .double | .string | .bytes | .array => trivial
  | .dict => exact absurd (Value.asDict_ok success) (MencodeIn.new_v v r)
  | .value =>
      cases success
      exact MencodeIn.new_v v
  | .vector item =>
      exact every_of_inCollection (item.readable_of_read · ·) mem_concat success
  | .list item =>
      exact every_of_inCollection (item.readable_of_read · ·) mem_concat success
  | .set item =>
      exact every_of_inCollection (item.readable_of_read · ·) mem_insertSet success
  | .map item =>
      obtain ⟨d, dict, -⟩ := bind_ok success
      exact absurd (Value.asDict_ok dict) (MencodeIn.new_v v d)
  | .unorderedMap item =>
      obtain ⟨d, dict, -⟩ := bind_ok success
      exact absurd (Value.asDict_ok dict) (MencodeIn.new_v v d)
  | .struct fields => exact fields.readable_of_read (.new v) r success

theorem Ty.keyReadable_of_readAt (T : Ty) (v : Value Double) (r : T.Data Double)
    (success : MencodeIn.readAt std T v = .ok r) : T.KeyReadable r := by
  match T with
  | .bool | .int | .size | .double | .string | .bytes | .dict | .array | .value => trivial
  | .vector item =>
      exact every_of_inCollection (item.readable_of_read · ·) mem_concat success
  | .list item =>
      exact every_of_inCollection (item.readable_of_read · ·) mem_concat success
  | .set item =>
      exact every_of_inCollection (item.readable_of_read · ·) mem_insertSet success
  | .map item =>
      exact every_of_inMap inserts_place (item.readable_of_read · ·) success
  | .unorderedMap item =>
      exact every_of_inMap inserts_assign (item.readable_of_read · ·) success
  | .struct fields => exact fields.readable_of_read (.new v) r success

theorem Fields.readable_of_read (F : Fields) (i : MencodeIn Double) (r : F.Data Double)
    (success : MencodeIn.readFields std F i = .ok r) : F.Readable r := by
  match F with
  | .one k type =>
      rw [MencodeIn.readFields, MencodeIn.readKey_eq] at success
      exact type.keyReadable_of_readAt _ r success
  | .cons k type rest =>
      rw [MencodeIn.readFields, MencodeIn.readKey_eq] at success
      obtain ⟨first, one, success⟩ := bind_ok success
      obtain ⟨others, two, success⟩ := bind_ok success
      cases success
      exact ⟨type.keyReadable_of_readAt _ first one, rest.readable_of_read i others two⟩

end

private theorem every_of_forall {same : Item → Item → Prop} {rs t : List Item}
    (related : List.Forall₂ same rs t) (transfers : ∀ r e, same r e → property r → property e)
    (every : Every property rs) : Every property t := by
  induction related with
  | nil => exact fun _ member => nomatch member
  | cons here later ih =>
      intro e member
      rcases List.mem_cons.mp member with rfl | member
      · exact transfers _ _ here (every _ List.mem_cons_self)
      · exact ih (fun r member => every r (.tail _ member)) e member

private theorem every_of_sameItems {same : Item → Item → Prop} {rs t : List (Bytes × Item)}
    (related : SameItems same rs t) (transfers : ∀ r e, same r e → property r → property e)
    (every : EveryItem property rs) : EveryItem property t := by
  intro e member
  obtain ⟨f, inside, key⟩ := List.mem_map.mp ((related.1 e.1).mpr (List.mem_map_of_mem member))
  exact transfers _ _ (related.2 f inside e member key) (every f inside)

mutual

theorem Ty.readable_of_same (T : Ty) (r t : T.Data Double) (same : T.Same r t)
    (readable : T.Readable r) : T.Readable t := by
  match T with
  | .bool | .int | .size | .double | .string | .bytes | .array => trivial
  | .dict | .map _ | .unorderedMap _ => exact readable.elim
  | .value =>
      rintro d rfl
      cases same with
      | dict keys items => exact readable _ rfl
  | .vector item => exact every_of_forall same item.readable_of_same readable
  | .list item => exact every_of_forall same item.readable_of_same readable
  | .set item => exact every_of_forall same item.readable_of_same readable
  | .struct fields => exact fields.readable_of_same r t same readable

theorem Ty.keyReadable_of_same (T : Ty) (r t : T.Data Double) (same : T.Same r t)
    (readable : T.KeyReadable r) : T.KeyReadable t := by
  match T with
  | .bool | .int | .size | .double | .string | .bytes | .dict | .array | .value => trivial
  | .vector item => exact every_of_forall same item.readable_of_same readable
  | .list item => exact every_of_forall same item.readable_of_same readable
  | .set item => exact every_of_forall same item.readable_of_same readable
  | .map item => exact every_of_sameItems same item.readable_of_same readable
  | .unorderedMap item => exact every_of_sameItems same item.readable_of_same readable
  | .struct fields => exact fields.readable_of_same r t same readable

theorem Fields.readable_of_same (F : Fields) (r t : F.Data Double) (same : F.Same r t)
    (readable : F.Readable r) : F.Readable t := by
  match F with
  | .one k type => exact type.keyReadable_of_same r t same readable
  | .cons k type rest =>
      exact ⟨type.keyReadable_of_same r.1 t.1 same.1 readable.1,
        rest.readable_of_same r.2 t.2 same.2 readable.2⟩

end

end Readable

/-- The typed serialiser gives a value back exactly when no map and no
dictionary stands in it without a key. -/
theorem deserialize_serialize_iff {T : Ty} (keyed : T.Keyed) {t : T.Data Double}
    (formed : T.Formed std t) :
    (∃ r, deserialize std doubles T (serialize std doubles T t) = .ok r ∧ T.Same r t) ↔
      T.Readable t := by
  have good := T.written_good keyed t formed
  have decodes : Value.decode doubles (serialize std doubles T t) = .ok (T.written std t) :=
    (decode_encode doubles good.formed).trans
      (congrArg _ (decoded_eq_self good.formed good.nonempty))
  rw [deserialize, decodes, ok_bind]
  constructor
  · rintro ⟨r, success, same⟩
    exact T.readable_of_same r t same (T.readable_of_read _ r success)
  · exact T.read_written keyed t formed

section Maps

private def below {Item : Type} [LT Item] [DecidableLT Item] (r t : Item) : Bool :=
  decide (r < t)

/-- Dictionaries that are walked in the order their keys came in, and the order
of numbers and strings. -/
def inOrder : Containers Unit where
  walk d := d
  walk_perm _ := .refl _
  less
    | .int, r, t => @below Int32 _ _ r t
    | .size, r, t => @below UInt64 _ _ r t
    | .string, r, t => @below Bytes _ _ r t
    | _, _, _ => false
  less_same T _ _ _ _ one two := by
    cases T with
    | int | size | string =>
        cases one
        cases two
        rfl
    | _ => rfl

def onePort : List (Bytes × Int32) := [(ascii "port", 6060)]

theorem onePort_formed : (Ty.map .int).Formed inOrder onePort :=
  ⟨⟨by decide, by decide, by decide⟩, fun _ _ => trivial⟩

def ports : Ty := .struct (.one (ascii "ports") (.map .int))

theorem ports_keyed : ports.Keyed := ⟨⟨by decide, by decide, by decide⟩, trivial⟩

/-- In a field of a struct the map is read back. -/
theorem deserialize_serialize_ports :
    ∃ r, deserialize inOrder loneDouble ports (serialize inOrder loneDouble ports onePort) =
      .ok r ∧ ports.Same r onePort :=
  (@deserialize_serialize_iff _ loneDouble inOrder ports ports_keyed onePort onePort_formed).mpr
    fun _ _ => trivial

/-- By itself it is not. -/
theorem map_without_key : (Ty.map .int).Keyed ∧ (Ty.map .int).Formed inOrder onePort ∧
    deserialize inOrder loneDouble (.map .int) (serialize inOrder loneDouble (.map .int) onePort) =
      .error (.thrown "value is not an dictionary") :=
  ⟨trivial, onePort_formed, rfl⟩

end Maps

end Firestr.Util
