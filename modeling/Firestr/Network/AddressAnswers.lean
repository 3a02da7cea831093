import Firestr.Network.Address

/-! Which addresses are answered: with the parts of an address or an exception. The
others end the process, or read past the tokens of the address. -/

set_option autoImplicit false

namespace Firestr.Network

open Firestr.Library.Assoc Firestr.Util

/-- `parse_host_port`. Its exception for a missing part is made but not thrown. -/
def parseHostPort (a : Bytes) : Outcome (Bytes × UInt16) := do
  let s ← split a (ascii ":")
  let host ← itemAt s 0
  let port ← parsePort (← itemAt s 1)
  pure (host, port)

/-- The outcome is a value with a property, or an exception. -/
def Answered {Value : Type} (good : Value → Prop) : Outcome Value → Prop
  | .ok value => good value
  | .error (.thrown _) => True
  | .error _ => False

/-- The transport is one there is, and there is a host. -/
def AddressComponents.Good (c : AddressComponents) : Prop :=
  (c.transport = ascii "tcp" ∨ c.transport = ascii "udp") ∧ c.host ≠ []

/-- What an option is called: what is before its first `=`. -/
def optionKey (s : Bytes) : Bytes := (tokens s (ascii "=")).headD []

/-- Every option is a key, or a key and a value, and no two keys are the same. -/
structure OptionsFine (ss : List Bytes) : Prop where
  parts : ∀ s ∈ ss, (tokens s (ascii "=")).length = 1 ∨ (tokens s (ascii "=")).length = 2
  distinct : (ss.map optionKey).Nodup

/-- There is a transport and a host; and if the host is long enough for its slashes, a
port; and if the port is a number, the options are fine, the transport is one there is
and the host has more than its slashes. -/
def AddressFine (s : Bytes) : Prop :=
  ∃ first options transport host rest, tokens s (ascii ",") = first :: options ∧
    tokens first (ascii ":") = transport :: host :: rest ∧
    (host.length < 2 ∨ ∃ port more, rest = port :: more ∧
      ((∀ n, parsePort port ≠ .ok n) ∨ OptionsFine options ∧
        (transport = ascii "tcp" ∨ transport = ascii "udp") ∧ 2 < host.length))

section Options

variable {o : List (Bytes × Bytes)} {s : Bytes} {ss : List Bytes}

theorem length_assign {k v : Bytes} (o : List (Bytes × Bytes)) :
    (assign o k v).length = if k ∈ o.map (·.1) then o.length else o.length + 1 := by
  unfold assign
  split
  · rw [List.length_map]
  · rw [List.length_append, List.length_singleton]

/-- What one option does: it fails the `ENSURE` of `split`, or is left out, or is entered
under its key. -/
theorem parseOption_cases (o : List (Bytes × Bytes)) (s : Bytes) :
    (tokens s (ascii "=") = [] ∧
        parseOption o s = .error (.raised .ensure "!(result.empty())")) ∨
      (2 < (tokens s (ascii "=")).length ∧ parseOption o s = .ok o) ∨
      (((tokens s (ascii "=")).length = 1 ∨ (tokens s (ascii "=")).length = 2) ∧
        ∃ v, parseOption o s = .ok (assign o (optionKey s) v)) := by
  unfold parseOption optionKey
  cases parts : tokens s (ascii "=") with
  | nil =>
      rw [split_of_no_tokens parts]
      exact .inl ⟨rfl, rfl⟩
  | cons key rest =>
      rw [split_of_tokens (by rw [parts]; exact List.cons_ne_nil key rest), parts, ok_bind]
      cases rest with
      | nil => exact .inr (.inr ⟨.inl rfl, _, rfl⟩)
      | cons item rest =>
          cases rest with
          | nil => exact .inr (.inr ⟨.inr rfl, _, rfl⟩)
          | cons last rest => exact .inr (.inl ⟨by simp, rfl⟩)

/-- The options fail the `ENSURE` of `split`, or give as many entries as there are options
exactly if these are fine and new. -/
theorem foldlM_parseOption (ss : List Bytes) (o : List (Bytes × Bytes)) :
    (¬OptionsFine ss ∧ ss.foldlM parseOption o = .error (.raised .ensure "!(result.empty())")) ∨
      ∃ all, ss.foldlM parseOption o = .ok all ∧ all.length ≤ o.length + ss.length ∧
        (all.length = o.length + ss.length ↔
          OptionsFine ss ∧ ∀ s ∈ ss, optionKey s ∉ o.map (·.1)) := by
  induction ss generalizing o with
  | nil =>
      refine .inr ⟨o, rfl, le_rfl, iff_of_true rfl ⟨⟨?_, List.nodup_nil⟩, ?_⟩⟩
      · intro s member
        cases member
      · intro s member
        cases member
  | cons s ss ih =>
      rw [List.foldlM_cons, List.length_cons]
      have rest : OptionsFine (s :: ss) → OptionsFine ss := fun fine =>
        ⟨fun other member => fine.parts other (List.mem_cons_of_mem s member),
          (List.nodup_cons.mp fine.distinct).2⟩
      rcases parseOption_cases o s with ⟨none?, failed⟩ | ⟨many, left⟩ | ⟨parts, v, entered⟩
      · refine .inl ⟨fun fine => ?_, by rw [failed]; rfl⟩
        have some? := fine.parts s List.mem_cons_self
        rw [none?] at some?
        simp at some?
      · rw [left, ok_bind]
        have unfine : ¬OptionsFine (s :: ss) := by
          intro fine
          have few := fine.parts s List.mem_cons_self
          omega
        rcases ih o with ⟨-, failed⟩ | ⟨all, success, short, -⟩
        · exact .inl ⟨unfine, failed⟩
        · refine .inr ⟨all, success, by omega, iff_of_false (by omega) fun fine => unfine fine.1⟩
      · rw [entered, ok_bind]
        have size := @length_assign (optionKey s) v o
        rcases ih (assign o (optionKey s) v) with ⟨unfine, failed⟩ | ⟨all, success, short, exactly⟩
        · exact .inl ⟨fun fine => unfine (rest fine), failed⟩
        · by_cases known : optionKey s ∈ o.map (·.1)
          · rw [if_pos known] at size
            refine .inr ⟨all, success, by omega, iff_of_false (by omega) fun fine => ?_⟩
            exact fine.2 s List.mem_cons_self known
          · rw [if_neg known] at size
            refine .inr ⟨all, success, by omega, ?_⟩
            rw [show o.length + (ss.length + 1) = (assign o (optionKey s) v).length + ss.length by
              omega, exactly]
            constructor
            · rintro ⟨fine, fresh⟩
              have apart := fun other member => not_or.mp (mt mem_keys_assign.mpr (fresh other member))
              refine ⟨⟨?_, ?_⟩, ?_⟩
              · intro other member
                rcases List.mem_cons.mp member with rfl | later
                · exact parts
                · exact fine.parts other later
              · rw [List.map_cons, List.nodup_cons]
                refine ⟨fun member => ?_, fine.distinct⟩
                obtain ⟨other, inside, same⟩ := List.mem_map.mp member
                exact (apart other inside).1 same
              · intro other member
                rcases List.mem_cons.mp member with rfl | later
                · exact known
                · exact (apart other later).2
            · rintro ⟨fine, fresh⟩
              refine ⟨rest fine, fun other member => mt mem_keys_assign.mp (not_or.mpr ⟨?_, ?_⟩)⟩
              · intro same
                exact (List.nodup_cons.mp fine.distinct).1
                  (List.mem_map.mpr ⟨other, member, same⟩)
              · exact fresh other (List.mem_cons_of_mem s member)

theorem parseOptions_cases (some? : ss ≠ []) :
    (¬OptionsFine ss ∧ ∃ kind expression, parseOptions ss = .error (.raised kind expression)) ∨
      (OptionsFine ss ∧ ∃ o, parseOptions ss = .ok o) := by
  have required : (!ss.isEmpty) = true := by
    rw [Bool.not_eq_true', List.isEmpty_eq_false_iff]
    exact some?
  unfold parseOptions
  rw [required, require_true, ok_bind]
  rcases foldlM_parseOption ss [] with ⟨unfine, failed⟩ | ⟨all, success, -, exactly⟩
  · rw [failed]
    exact .inl ⟨unfine, _, _, rfl⟩
  · rw [success, ok_bind]
    simp only [List.length_nil, Nat.zero_add, List.map_nil, List.not_mem_nil, not_false_iff,
      implies_true, and_true] at exactly
    by_cases fine : OptionsFine ss
    · have counted : (ss.length == all.length) = true := beq_iff_eq.mpr (exactly.mpr fine).symm
      rw [counted, ensure_true, ok_bind]
      exact .inr ⟨fine, _, rfl⟩
    · have miscounted : (ss.length == all.length) = false := by
        rw [beq_eq_false_iff_ne]
        exact fun same => fine (exactly.mp same.symm)
      rw [miscounted]
      exact .inl ⟨fine, _, _, rfl⟩

end Options

section Parse

variable {s : Bytes}

theorem parsePort_cases (p : Bytes) :
    (∃ n, parsePort p = .ok n) ∨ ∃ what, parsePort p = .error (.thrown what) := by
  unfold parsePort
  split
  · split
    · exact .inl ⟨_, rfl⟩
    · exact .inr ⟨_, rfl⟩
  · exact .inr ⟨_, rfl⟩

private theorem answers_options {options : List Bytes} {defaults : List (Bytes × Bytes)}
    {good : AddressComponents → Prop} {result : List (Bytes × Bytes) → AddressComponents}
    {holds : Prop} (same : ∀ o, good (result o) ↔ holds) :
    Answered good (do
      let o ← (if 1 < options.length + 1 then do
          let overrides ← parseOptions options
          pure (insertOptions defaults overrides)
        else pure defaults : Outcome (List (Bytes × Bytes)))
      pure (result o)) ↔ OptionsFine options ∧ holds := by
  cases options with
  | nil =>
      have fine : OptionsFine [] := ⟨fun s member => (by cases member), List.nodup_nil⟩
      rw [List.length_nil, Nat.zero_add, if_neg (lt_irrefl 1)]
      exact (same defaults).trans (iff_and_self.mpr fun _ => fine)
  | cons first rest =>
      rw [if_pos (by rw [List.length_cons]; omega)]
      rcases parseOptions_cases (List.cons_ne_nil first rest) with
        ⟨unfine, kind, expression, failed⟩ | ⟨fine, o, success⟩
      · rw [failed]
        exact iff_of_false id fun both => unfine both.1
      · rw [success]
        exact (same _).trans (iff_and_self.mpr fun _ => fine)

private theorem answered_parts_iff (s transport host : Bytes) (rest options : List Bytes)
    (defaults : List (Bytes × Bytes)) :
    Answered AddressComponents.Good (do
      let a ← (pure (transport :: host :: rest) : Outcome (List Bytes))
      let transport ← itemAt a 0
      let host ← hostOf (← itemAt a 1)
      let port ← parsePort (← itemAt a 2)
      let options ← (if 1 < options.length + 1 then do
          let overrides ← parseOptions options
          pure (insertOptions defaults overrides)
        else pure defaults : Outcome (List (Bytes × Bytes)))
      pure {
        address := s
        transport := transport
        host := host
        port := port
        options := options }) ↔
    host.length < 2 ∨ ∃ port more, rest = port :: more ∧
      ((∀ n, parsePort port ≠ .ok n) ∨ OptionsFine options ∧
        (transport = ascii "tcp" ∨ transport = ascii "udp") ∧ 2 < host.length) := by
  have first : itemAt (transport :: host :: rest) 0 = .ok transport := rfl
  have second : itemAt (transport :: host :: rest) 1 = .ok host := rfl
  simp only [pure_ok, ok_bind, first, second]
  by_cases short : host.length < 2
  · rw [hostOf, if_pos short]
    exact iff_of_true trivial (.inl short)
  rw [hostOf, if_neg short, ok_bind]
  cases rest with
  | nil =>
      refine iff_of_false id ?_
      rintro (missing | ⟨port, more, shape, -⟩)
      · exact short missing
      · cases shape
  | cons port more =>
      have third : itemAt (transport :: host :: port :: more) 2 = .ok port := rfl
      rw [third, ok_bind]
      rcases parsePort_cases port with ⟨n, number⟩ | ⟨what, failed⟩
      · rw [number, ok_bind]
        have good : ∀ o, AddressComponents.Good
            { address := s, transport := transport, host := host.drop 2, port := n, options := o } ↔
            (transport = ascii "tcp" ∨ transport = ascii "udp") ∧ 2 < host.length := by
          intro o
          refine and_congr_right fun _ => ?_
          change host.drop 2 ≠ [] ↔ _
          rw [Ne, List.drop_eq_nil_iff, not_le]
        refine (answers_options good).trans ⟨fun fine => ?_, ?_⟩
        · exact .inr ⟨port, more, rfl, .inr fine⟩
        · rintro (missing | ⟨_, _, shape, unparsed | fine⟩)
          · exact absurd missing short
          · cases shape
            exact absurd number (unparsed n)
          · exact fine
      · rw [failed]
        refine iff_of_true trivial (.inr ⟨port, more, rfl, .inl fun n number => ?_⟩)
        rw [failed] at number
        cases number

theorem answered_parseAddress_iff (s : Bytes) (defaults : List (Bytes × Bytes)) :
    Answered AddressComponents.Good (parseAddress s defaults) ↔ AddressFine s := by
  unfold parseAddress AddressFine
  cases parts : tokens s (ascii ",") with
  | nil =>
      rw [split_of_no_tokens parts]
      exact iff_of_false id fun fine => by simp at fine
  | cons first options =>
      have enough : decide (1 ≤ (first :: options).length) = true := decide_eq_true (by simp)
      have head : itemAt (first :: options) 0 = .ok first := rfl
      rw [split_of_tokens (by rw [parts]; exact List.cons_ne_nil _ _), parts, ok_bind, enough,
        check_true, ok_bind, head, ok_bind]
      -- Without two parts around the colons the address is not fine.
      have few : (∀ transport host rest, tokens first (ascii ":") ≠ transport :: host :: rest) →
          ¬∃ first' options' transport host rest, first :: options = first' :: options' ∧
            tokens first' (ascii ":") = transport :: host :: rest ∧
            (host.length < 2 ∨ ∃ port more, rest = port :: more ∧
              ((∀ n, parsePort port ≠ .ok n) ∨ OptionsFine options' ∧
                (transport = ascii "tcp" ∨ transport = ascii "udp") ∧ 2 < host.length)) := by
        rintro other ⟨_, _, _, _, _, same, shape, -⟩
        cases same
        exact other _ _ _ shape
      cases inner : tokens first (ascii ":") with
      | nil =>
          rw [split_of_no_tokens inner]
          exact iff_of_false id (few fun _ _ _ shape => by rw [inner] at shape; cases shape)
      | cons transport rest =>
          rw [split_of_tokens (by rw [inner]; exact List.cons_ne_nil _ _), inner]
          cases rest with
          | nil =>
              exact iff_of_false id (few fun _ _ _ shape => by rw [inner] at shape; cases shape)
          | cons host rest =>
              refine (answered_parts_iff s transport host rest options defaults).trans
                ⟨fun fine => ⟨_, _, _, _, _, rfl, inner, fine⟩, ?_⟩
              rintro ⟨_, _, _, _, _, same, shape, fine⟩
              cases same
              rw [inner] at shape
              cases shape
              exact fine

theorem answered_parseHostPort_iff (a : Bytes) :
    Answered (fun _ => True) (parseHostPort a) ↔ 2 ≤ (tokens a (ascii ":")).length := by
  unfold parseHostPort
  cases parts : tokens a (ascii ":") with
  | nil =>
      rw [split_of_no_tokens parts]
      exact iff_of_false id (by simp)
  | cons host rest =>
      have first : itemAt (host :: rest) 0 = .ok host := rfl
      rw [split_of_tokens (by rw [parts]; exact List.cons_ne_nil _ _), parts, ok_bind, first,
        ok_bind]
      cases rest with
      | nil => exact iff_of_false id (by simp)
      | cons port more =>
          have second : itemAt (host :: port :: more) 1 = .ok port := rfl
          rw [second, ok_bind]
          refine iff_of_true ?_ (by simp)
          rcases parsePort_cases port with ⟨n, number⟩ | ⟨what, failed⟩
          · rw [number]
            trivial
          · rw [failed]
            trivial

end Parse

/-- An address is answered exactly if it is fine, whatever the defaults, and a host and
port exactly if there are two parts around colons. -/
theorem addresses_answered (s : Bytes) (defaults : List (Bytes × Bytes)) :
    (Answered AddressComponents.Good (parseAddress s defaults) ↔ AddressFine s) ∧
    (Answered (fun _ => True) (parseHostPort s) ↔ 2 ≤ (tokens s (ascii ":")).length) :=
  ⟨answered_parseAddress_iff s defaults, answered_parseHostPort_iff s⟩

/-- The empty text fails an `ENSURE`, and a text without colons is read past its tokens. -/
theorem bad_addresses_crash :
    parseAddress [] [] = .error (.raised .ensure "!(result.empty())") ∧
      parseAddress (ascii "localhost") [] = .error .dangling ∧
      parseHostPort (ascii "localhost") = .error .dangling := by
  decide +kernel

end Firestr.Network
