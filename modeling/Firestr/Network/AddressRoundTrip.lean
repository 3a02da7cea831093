import Firestr.Network.AddressAnswers
import Firestr.Util.MencodeProperties

/-! Addresses that are made and parsed. The parts and the options come back, but where
the defaults have an option already they keep it. -/

set_option autoImplicit false

namespace Firestr.Network

open Firestr.Library.Assoc Firestr.Library.Decimal Firestr.Util

/-- `make_pro_address`. `make_tcp_address` and `make_udp_address` call it with `tcp` and
`udp`. -/
def makeProAddress (proto host : Bytes) (port localPort : UInt16) : Bytes :=
  proto ++ ascii "://" ++ host ++ ascii ":" ++ numeral port.toNat ++
    (if localPort > 0 then ascii ",local_port=" ++ numeral localPort.toNat else [])

def optionText (o : Bytes × Bytes) : Bytes := ascii "," ++ o.1 ++ ascii "=" ++ o.2

/-- The options that the text of an address has. -/
def writtenOptions (localPort : UInt16) (options : List (Bytes × Bytes)) : List (Bytes × Bytes) :=
  (if localPort > 0 then [(ascii "local_port", numeral localPort.toNat)] else []) ++ options

/-- A text without separators or blanks, and not empty. -/
structure PlainText (t : Bytes) : Prop where
  nonempty : t ≠ []
  unseparated : ∀ byte ∈ t, byte ∉ ascii ":,="
  unspaced : ∀ byte ∈ t, isSpace byte = false

section Texts

/-- A closed text is checked byte by byte. -/
theorem forall_byte {property : UInt8 → Prop} [DecidablePred property] {t : Bytes}
    (all : (t.all fun byte => decide (property byte)) = true) : ∀ byte ∈ t, property byte := by
  intro byte member
  exact of_decide_eq_true (List.all_eq_true.mp all byte member)

theorem plainText_numeral (n : Nat) : PlainText (numeral n) where
  nonempty := numeral_ne_nil n
  unseparated byte member separator := by
    have bounds := mem_numeral member
    have cases? : byte = 58 ∨ byte = 44 ∨ byte = 61 := by
      simpa [ascii] using separator
    rcases cases? with rfl | rfl | rfl <;> simp at bounds
  unspaced byte member := by
    have bounds := mem_numeral member
    unfold isSpace
    rw [Bool.or_eq_false_iff, beq_eq_false_iff_ne, Bool.and_eq_false_iff]
    refine ⟨?_, .inr (decide_eq_false ?_)⟩
    · rintro rfl
      simp at bounds
    · rw [UInt8.le_iff_toNat_le]
      exact fun small => absurd (le_trans bounds.1 small) (by decide)

theorem PlainText.tokens_eq {t : Bytes} (plain : PlainText t) {delimiters : Bytes}
    (separators : ∀ byte ∈ delimiters, byte ∈ ascii ":,=") : tokens t delimiters = [t] :=
  tokens_of_plain plain.nonempty
    (fun byte member cut => plain.unseparated byte member (separators byte cut)) plain.unspaced

def optionBody (o : Bytes × Bytes) : Bytes := o.1 ++ 61 :: o.2

theorem optionText_eq (o : Bytes × Bytes) : optionText o = 44 :: optionBody o := by
  have comma : ascii "," = [44] := rfl
  have equals : ascii "=" = [61] := rfl
  rw [optionText, optionBody, comma, equals, List.append_assoc, List.append_assoc,
    List.singleton_append, List.singleton_append]

variable {options : List (Bytes × Bytes)}

/-- The tokens between commas are the address without its options, and the options. -/
theorem tokens_optionTexts (first : Bytes) (single : tokens first (ascii ",") = [first])
    (plain : ∀ o ∈ options, PlainText o.1 ∧ PlainText o.2) :
    tokens (first ++ options.flatMap optionText) (ascii ",") =
      first :: options.map optionBody := by
  induction options generalizing first with
  | nil => rw [List.flatMap_nil, List.append_nil, single, List.map_nil]
  | cons o options ih =>
      have comma : (44 : UInt8) ∈ ascii "," := by decide
      obtain ⟨key, item⟩ := plain o List.mem_cons_self
      have body : tokens (optionBody o) (ascii ",") = [optionBody o] := by
        have separated : ∀ byte ∈ optionBody o, byte ∉ ascii "," ∧ isSpace byte = false := by
          intro byte member
          have inside : ∀ cut ∈ ascii ",", cut ∈ ascii ":,=" := forall_byte (by decide)
          rcases List.mem_append.mp member with before | after
          · exact ⟨fun cut => key.unseparated byte before (inside byte cut),
              key.unspaced byte before⟩
          · rcases List.mem_cons.mp after with rfl | later
            · decide
            · exact ⟨fun cut => item.unseparated byte later (inside byte cut),
                item.unspaced byte later⟩
        refine tokens_of_plain ?_ (fun byte member => (separated byte member).1)
          fun byte member => (separated byte member).2
        exact List.append_ne_nil_of_left_ne_nil key.nonempty _
      rw [List.flatMap_cons, optionText_eq, List.cons_append, tokens_append_cons _ _ comma, single,
        ih (optionBody o) body fun other member => plain other (List.mem_cons_of_mem o member)]
      rfl

theorem tokens_optionBody {o : Bytes × Bytes} (key : PlainText o.1) (item : PlainText o.2) :
    tokens (optionBody o) (ascii "=") = [o.1, o.2] := by
  have equals : (61 : UInt8) ∈ ascii "=" := by decide
  rw [optionBody, tokens_append_cons _ _ equals, key.tokens_eq (forall_byte (by decide)),
    item.tokens_eq (forall_byte (by decide)), List.singleton_append]

end Texts

section Parts

variable {proto host : Bytes} {port localPort : UInt16} {options defaults : List (Bytes × Bytes)}

def addressHead (proto host : Bytes) (port : UInt16) : Bytes :=
  proto ++ 58 :: ((47 :: 47 :: host) ++ 58 :: numeral port.toNat)

theorem address_eq : makeProAddress proto host port localPort ++ options.flatMap optionText =
    addressHead proto host port ++ (writtenOptions localPort options).flatMap optionText := by
  have slashes : ascii "://" = [58, 47, 47] := rfl
  have colon : ascii ":" = [58] := rfl
  unfold makeProAddress addressHead writtenOptions
  rw [slashes, colon]
  split
  · have named : ascii ",local_port=" = ascii "," ++ ascii "local_port" ++ ascii "=" := by decide
    rw [named]
    simp [optionText]
  · simp

theorem tokens_addressHead (proto? : PlainText proto) (host? : PlainText host) :
    tokens (addressHead proto host port) (ascii ":") =
        [proto, 47 :: 47 :: host, numeral port.toNat] ∧
      tokens (addressHead proto host port) (ascii ",") = [addressHead proto host port] := by
  have colon : (58 : UInt8) ∈ ascii ":" := by decide
  have commas : ∀ cut ∈ ascii ",", cut ∈ ascii ":,=" := forall_byte (by decide)
  have colons : ∀ cut ∈ ascii ":", cut ∈ ascii ":,=" := forall_byte (by decide)
  have number := plainText_numeral port.toNat
  have named : ∀ byte ∈ 47 :: 47 :: host, (byte ∉ ascii ":" ∧ byte ∉ ascii ",") ∧
      isSpace byte = false := by
    intro byte member
    rcases List.mem_cons.mp member with rfl | member
    · decide
    · rcases List.mem_cons.mp member with rfl | later
      · decide
      · exact ⟨⟨fun cut => host?.unseparated byte later (colons byte cut),
          fun cut => host?.unseparated byte later (commas byte cut)⟩, host?.unspaced byte later⟩
  constructor
  · have slashed : tokens (47 :: 47 :: host) (ascii ":") = [47 :: 47 :: host] :=
      tokens_of_plain (List.cons_ne_nil _ _) (fun byte member => (named byte member).1.1)
        fun byte member => (named byte member).2
    rw [addressHead, tokens_append_cons _ _ colon, tokens_append_cons _ _ colon,
      proto?.tokens_eq colons, slashed, number.tokens_eq colons]
    rfl
  · have whole : ∀ byte ∈ addressHead proto host port, byte ∉ ascii "," ∧ isSpace byte = false := by
      intro byte member
      rcases List.mem_append.mp member with before | after
      · exact ⟨fun cut => proto?.unseparated byte before (commas byte cut),
          proto?.unspaced byte before⟩
      · rcases List.mem_cons.mp after with rfl | after
        · decide
        · rcases List.mem_append.mp after with middle | last
          · exact ⟨(named byte middle).1.2, (named byte middle).2⟩
          · rcases List.mem_cons.mp last with rfl | last
            · decide
            · exact ⟨fun cut => number.unseparated byte last (commas byte cut),
                number.unspaced byte last⟩
    refine tokens_of_plain ?_ (fun byte member => (whole byte member).1)
      fun byte member => (whole byte member).2
    exact List.append_ne_nil_of_left_ne_nil proto?.nonempty _

theorem parsePort_numeral (port : UInt16) : parsePort (numeral port.toNat) = .ok port := by
  simp only [parsePort, signed_numeral, natural_numeral, if_pos port.toNat_lt, Bool.false_eq_true,
    if_false, UInt16.ofNat_toNat]

theorem lookup_insertOptions (defaults overrides : List (Bytes × Bytes)) (k : Bytes) :
    (insertOptions defaults overrides).lookup k =
      (defaults.lookup k).or (overrides.lookup k) := by
  unfold insertOptions
  induction overrides generalizing defaults with
  | nil =>
      rw [List.foldl_nil, List.lookup_nil, Option.or_none]
  | cons o overrides ih =>
      rw [List.foldl_cons, ih]
      by_cases known : o.1 ∈ defaults.map (·.1)
      · rw [if_pos known, List.lookup_cons]
        by_cases here : k = o.1
        · subst here
          have some? : (defaults.lookup o.1).isSome = true := by
            rw [Option.isSome_iff_ne_none, Ne, List.lookup_eq_none_iff]
            intro none?
            obtain ⟨e, member, same⟩ := List.mem_map.mp known
            have different := none? e member
            rw [same] at different
            simp at different
          rw [Option.or_of_isSome some?, Option.or_of_isSome some?]
        · rw [beq_eq_false_iff_ne.mpr here]
      · rw [if_neg known, List.lookup_append, Option.or_assoc, List.lookup_cons, List.lookup_nil,
          List.lookup_cons]
        by_cases here : k = o.1
        · rw [beq_iff_eq.mpr here]
          rfl
        · rw [beq_eq_false_iff_ne.mpr here]
          rfl

end Parts

section RoundTrip

variable {proto host : Bytes} {port localPort : UInt16} {options defaults : List (Bytes × Bytes)}

private theorem foldlM_optionBody (plain : ∀ o ∈ options, PlainText o.1 ∧ PlainText o.2)
    (start : List (Bytes × Bytes)) :
    (options.map optionBody).foldlM parseOption start =
      .ok (options.foldl (fun d o => assign d o.1 o.2) start) := by
  induction options generalizing start with
  | nil => rfl
  | cons o options ih =>
      obtain ⟨key, item⟩ := plain o List.mem_cons_self
      have parts := tokens_optionBody key item
      have entered : parseOption start (optionBody o) = .ok (assign start o.1 o.2) := by
        unfold parseOption
        rw [split_of_tokens (by rw [parts]; exact List.cons_ne_nil _ _), parts]
        rfl
      rw [List.map_cons, List.foldlM_cons, entered, ok_bind, List.foldl_cons]
      exact ih (fun other member => plain other (List.mem_cons_of_mem o member)) _

theorem parseOptions_optionBody (plain : ∀ o ∈ options, PlainText o.1 ∧ PlainText o.2)
    (distinct : (options.map (·.1)).Nodup) (some? : options ≠ []) :
    parseOptions (options.map optionBody) = .ok options := by
  have required : (!(options.map optionBody).isEmpty) = true := by
    rw [Bool.not_eq_true', List.isEmpty_eq_false_iff, Ne, List.map_eq_nil_iff]
    exact some?
  have all : options.foldl (fun d o => assign d o.1 o.2) [] = options := by
    have written := @foldl_assign Bytes Bytes _ [] Bytes id options distinct
    rw [List.nil_append] at written
    exact written.trans (List.map_id options)
  unfold parseOptions
  rw [required, require_true, ok_bind, foldlM_optionBody plain, ok_bind, all, List.length_map,
    BEq.rfl, ensure_true, ok_bind, pure_ok]

/-- Where both have an option, the defaults keep theirs. -/
theorem parseAddress_make (proto? : PlainText proto) (host? : PlainText host)
    (plain : ∀ o ∈ writtenOptions localPort options, PlainText o.1 ∧ PlainText o.2)
    (distinct : ((writtenOptions localPort options).map (·.1)).Nodup) :
    parseAddress (makeProAddress proto host port localPort ++ options.flatMap optionText) defaults =
      .ok {
        address := makeProAddress proto host port localPort ++ options.flatMap optionText
        transport := proto
        host := host
        port := port
        options := insertOptions defaults (writtenOptions localPort options) } := by
  obtain ⟨colons, commas⟩ := @tokens_addressHead proto host port proto? host?
  have parts : tokens (makeProAddress proto host port localPort ++ options.flatMap optionText)
      (ascii ",") = addressHead proto host port ::
        (writtenOptions localPort options).map optionBody := by
    rw [address_eq]
    exact tokens_optionTexts _ commas plain
  have rest : (if 1 < (addressHead proto host port ::
        (writtenOptions localPort options).map optionBody).length then do
        let overrides ← parseOptions ((addressHead proto host port ::
          (writtenOptions localPort options).map optionBody).tail)
        pure (insertOptions defaults overrides)
      else pure defaults : Outcome (List (Bytes × Bytes))) =
        .ok (insertOptions defaults (writtenOptions localPort options)) := by
    by_cases none? : writtenOptions localPort options = []
    · rw [none?]
      rfl
    · have long : 1 < (addressHead proto host port ::
          (writtenOptions localPort options).map optionBody).length := by
        have some? := List.length_pos_iff.mpr none?
        rw [List.length_cons, List.length_map]
        omega
      rw [if_pos long, List.tail_cons, parseOptions_optionBody plain distinct none?]
      rfl
  have enough : decide (1 ≤ (addressHead proto host port ::
      (writtenOptions localPort options).map optionBody).length) = true :=
    decide_eq_true (by simp)
  have head : itemAt (addressHead proto host port ::
      (writtenOptions localPort options).map optionBody) 0 = .ok (addressHead proto host port) := rfl
  have first : itemAt [proto, 47 :: 47 :: host, numeral port.toNat] 0 = .ok proto := rfl
  have second : itemAt [proto, 47 :: 47 :: host, numeral port.toNat] 1 = .ok (47 :: 47 :: host) :=
    rfl
  have third : itemAt [proto, 47 :: 47 :: host, numeral port.toNat] 2 =
      .ok (numeral port.toNat) := rfl
  have named : hostOf (47 :: 47 :: host) = .ok host := if_neg (by simp)
  unfold parseAddress
  rw [split_of_tokens (by rw [parts]; exact List.cons_ne_nil _ _), parts, ok_bind, enough,
    check_true, ok_bind, head, ok_bind, split_of_tokens (by rw [colons]; exact List.cons_ne_nil _ _),
    colons, ok_bind, first, ok_bind, second, ok_bind, named, ok_bind, third, ok_bind,
    parsePort_numeral, ok_bind, rest, ok_bind, pure_ok]

/-- The parts come back, every option that is written with the item that is written, and
every other one from the defaults. -/
structure ComesBack (proto host : Bytes) (port : UInt16) (written defaults : List (Bytes × Bytes))
    (c : AddressComponents) : Prop where
  transport : c.transport = proto
  host : c.host = host
  port : c.port = port
  options : ∀ k, c.options.lookup k = (written.lookup k).or (defaults.lookup k)

private theorem lookup_insertOptions_iff {written : List (Bytes × Bytes)}
    (distinct : (written.map (·.1)).Nodup) :
    (∀ k, (insertOptions defaults written).lookup k =
        (written.lookup k).or (defaults.lookup k)) ↔
      ∀ o ∈ written, defaults.lookup o.1 = none ∨ defaults.lookup o.1 = some o.2 := by
  constructor
  · intro same o member
    have here := same o.1
    rw [lookup_insertOptions, lookup_of_mem distinct member, Option.some_or] at here
    cases known : defaults.lookup o.1 with
    | none => exact .inl rfl
    | some item =>
        rw [known, Option.some_or] at here
        exact .inr here
  · intro agree k
    rw [lookup_insertOptions]
    cases found : written.lookup k with
    | none => rw [Option.or_none, Option.none_or]
    | some item =>
        rw [Option.some_or]
        rcases agree (k, item) (mem_of_lookup found) with none? | same
        · rw [none?, Option.none_or]
        · rw [same, Option.some_or]

/-- An address that is made comes back with its options exactly if the defaults have none
of these with another item. -/
theorem options_come_back_iff (proto? : proto = ascii "tcp" ∨ proto = ascii "udp") (host? : PlainText host)
    (plain : ∀ o ∈ options, PlainText o.1 ∧ PlainText o.2) (distinct : (options.map (·.1)).Nodup)
    (other : ∀ o ∈ options, o.1 ≠ ascii "local_port") :
    (∃ c, parseAddress (makeProAddress proto host port localPort ++ options.flatMap optionText)
        defaults = .ok c ∧ ComesBack proto host port (writtenOptions localPort options) defaults c) ↔
      ∀ o ∈ writtenOptions localPort options,
        defaults.lookup o.1 = none ∨ defaults.lookup o.1 = some o.2 := by
  have protoPlain : PlainText proto := by
    rcases proto? with rfl | rfl
    · exact ⟨by decide, forall_byte (by decide), forall_byte (by decide)⟩
    · exact ⟨by decide, forall_byte (by decide), forall_byte (by decide)⟩
  have name : PlainText (ascii "local_port") :=
    ⟨by decide, forall_byte (by decide), forall_byte (by decide)⟩
  have allPlain : ∀ o ∈ writtenOptions localPort options, PlainText o.1 ∧ PlainText o.2 := by
    intro o member
    rcases List.mem_append.mp member with first | later
    · split at first
      · rw [List.mem_singleton.mp first]
        exact ⟨name, plainText_numeral _⟩
      · cases first
    · exact plain o later
  have allDistinct : ((writtenOptions localPort options).map (·.1)).Nodup := by
    unfold writtenOptions
    split
    · rw [List.singleton_append, List.map_cons, List.nodup_cons]
      refine ⟨fun member => ?_, distinct⟩
      obtain ⟨o, inside, same⟩ := List.mem_map.mp member
      exact other o inside same
    · exact distinct
  rw [parseAddress_make protoPlain host? allPlain allDistinct,
    ← lookup_insertOptions_iff allDistinct]
  constructor
  · rintro ⟨c, success, back⟩
    cases success
    exact back.options
  · intro right
    exact ⟨_, rfl, rfl, rfl, rfl, right⟩

/-- A default with the item of the address, and one that the address does not have. -/
def waitingDefaults : List (Bytes × Bytes) :=
  [(ascii "wait", ascii "1"), (ascii "track_incoming", ascii "0")]

theorem options_come_back_waiting : ∃ c,
    parseAddress (makeProAddress (ascii "udp") (ascii "localhost") 10 7 ++
      [(ascii "wait", ascii "1")].flatMap optionText) waitingDefaults = .ok c ∧
    ComesBack (ascii "udp") (ascii "localhost") 10 (writtenOptions 7 [(ascii "wait", ascii "1")])
      waitingDefaults c := by
  have named : PlainText (ascii "localhost") :=
    ⟨by decide, forall_byte (by decide), forall_byte (by decide)⟩
  have plain : ∀ o ∈ [(ascii "wait", ascii "1")], PlainText o.1 ∧ PlainText o.2 := by
    intro o member
    cases List.mem_singleton.mp member
    exact ⟨⟨by decide, forall_byte (by decide), forall_byte (by decide)⟩,
      by decide, forall_byte (by decide), forall_byte (by decide)⟩
  have other : ∀ o ∈ [(ascii "wait", ascii "1")], o.1 ≠ ascii "local_port" := by decide
  exact (options_come_back_iff (.inr rfl) named plain (List.nodup_singleton _) other).mpr
    (by decide +kernel)

/-- A default keeps its item against the address that has another. -/
theorem default_wins : (do
    let c ← parseAddress (makeProAddress (ascii "udp") (ascii "localhost") 10 0 ++
      [(ascii "wait", ascii "1")].flatMap optionText) [(ascii "wait", ascii "0")]
    pure (c.options.lookup (ascii "wait"))) = (.ok (some (ascii "0")) : Outcome (Option Bytes)) := by
  decide +kernel

end RoundTrip

end Firestr.Network
