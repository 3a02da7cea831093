import Firestr.Gui.AppEditor
import Firestr.Util.CrStringReplicas
import Firestr.Util.MencodeProperties

/-! Scripts that are older than the editor's code, or identical to it. Their
code changes nothing, but their clock is added and their data is imported all the
same. -/

set_option autoImplicit false

namespace Firestr.Gui

open Firestr.Library.Assoc Firestr.Library.Runs Firestr.Library.VersionVector Firestr.User
  Firestr.Util

variable {Double : Type} {dtl : Dtl} {doubles : Doubles Double} {uuids : Uuids}

/-- The code counts its own changes, and the store of the data is right. -/
structure AppEditor.Valid (uuids : Uuids) (s : AppEditor Double) : Prop where
  own : s.code.c.i ∈ s.code.c.c
  data : s.data.Valid uuids

section Valid

variable {s next : AppEditor Double}

theorem AppEditor.Valid.new {id : String} {code : Bytes} {data : DiskStore Double}
    (valid : data.Valid uuids) : (AppEditor.new id code data).Valid uuids where
  own := (TrackedVClock.Formed.new id).own
  data := valid

private theorem own_increment {t : TrackedVClock String} : t.increment.i ∈ t.increment.c :=
  (Finmap.mem_insert ..).mpr (.inl rfl)

/-- The editor after the code of a script is merged to `code`. -/
def AppEditor.merged (s : AppEditor Double) (code : CrString String) : AppEditor Double :=
  { s with
    code := code
    dirty := true
    script := code.s }

/-- The editor after the data of a script is imported into `store`. -/
def AppEditor.imported (s : AppEditor Double) (store : DiskStore Double) : AppEditor Double :=
  { s with
    data := store
    prevCode := s.code.s
    runState := .ready }.runScript

/-- What `received_code` does with a script of a contact. -/
theorem receivedCode_eq {contacts : ContactList} {t : TextScript} {result : MergeResult}
    {code : CrString String} (contact : contacts.has t.fromId = true)
    (merges : s.code.merge dtl t.code = .ok (result, code)) :
    s.receivedCode dtl doubles uuids contacts t =
      if t.data.isEmpty then .ok (s.merged code)
      else (do
        let data ← decodeDictionary doubles t.data
        let store ← (if result = .updated then s.data.clear else .ok s.data)
        let store ← store.importFrom uuids data
        .ok ((s.merged code).imported store)) := by
  rw [AppEditor.receivedCode, contact, merges]
  cases t.data.isEmpty <;> rfl

@[simp] theorem imported_code {store : DiskStore Double} : (s.imported store).code = s.code := by
  rw [AppEditor.imported, AppEditor.runScript]
  split <;> rfl

@[simp] theorem imported_data {store : DiskStore Double} : (s.imported store).data = store := by
  rw [AppEditor.imported, AppEditor.runScript]
  split <;> rfl

private theorem AppEditor.Valid.receivedCode (valid : s.Valid uuids) {contacts : ContactList}
    {t : TextScript} (success : s.receivedCode dtl doubles uuids contacts t = .ok next) :
    next.Valid uuids := by
  cases contact : contacts.has t.fromId with
  | false =>
      rw [AppEditor.receivedCode, contact] at success
      cases success
      exact valid
  | true =>
      cases merges : s.code.merge dtl t.code with
      | error fault =>
          rw [AppEditor.receivedCode, contact, merges] at success
          cases success
      | ok merged =>
          obtain ⟨result, code⟩ := merged
          have own := own_of_merge dtl merges
          rw [receivedCode_eq contact merges] at success
          split at success
          · cases success
            exact ⟨own, valid.data⟩
          · obtain ⟨data, -, success⟩ := bind_ok success
            obtain ⟨cleared, clears, success⟩ := bind_ok success
            have kept : cleared.Valid uuids := by
              split at clears
              · obtain ⟨empty, clear, right, -⟩ := valid.data.clear
                cases clear.symm.trans clears
                exact right
              · cases clears
                exact valid.data
            obtain ⟨filled, imports, last, -⟩ := kept.importFrom data
            rw [imports] at success
            cases success
            refine ⟨?_, ?_⟩
            · rw [imported_code]
              exact own
            · rw [imported_data]
              exact last

theorem AppEditor.Valid.step (valid : s.Valid uuids) {event : EditorEvent Double}
    (step : EditorStep dtl doubles uuids s event next) : next.Valid uuids := by
  cases step with
  | textTyped => exact ⟨own_increment, valid.data⟩
  | @addData key v _ success =>
      rw [AppEditor.addData] at success
      split at success
      · cases success
        exact valid
      · obtain ⟨data, sets, kept, -⟩ := valid.data.set (trim key) v
        rw [sets] at success
        cases success
        exact ⟨own_increment, kept⟩
  | @removeData key _ success =>
      obtain ⟨some?, data, removes, kept, -⟩ := valid.data.removeIntern key
      rw [AppEditor.removeData, DiskStore.remove, removes] at success
      cases success
      exact ⟨own_increment, kept⟩
  | @scriptSets key v _ success =>
      obtain ⟨data, sets, kept, -⟩ := valid.data.set key v
      cases sets.symm.trans success
      exact ⟨valid.own, kept⟩
  | @scriptRemoves key _ _ success =>
      obtain ⟨some?, data, removes, kept, -⟩ := valid.data.removeIntern key
      cases removes.symm.trans success
      exact ⟨valid.own, kept⟩
  | receivedCode success => exact valid.receivedCode success

theorem editor_valid_of_run {events : List (EditorEvent Double)}
    (run : EditorRun dtl doubles uuids events s) : s.Valid uuids := by
  refine run.invariant (fun _ s => s.Valid uuids) ?_ ?_
  · rintro _ ⟨id, code, data, rfl, valid⟩
    exact .new valid
  · exact fun _ _ _ _ _ valid step => valid.step step

/-- The script changes neither the code and its clock, also when its data cannot be
decoded, nor the data. -/
structure AppEditor.Keeps (dtl : Dtl) (doubles : Doubles Double) (uuids : Uuids)
    (contacts : ContactList) (s : AppEditor Double) (t : TextScript) : Prop where
  code : ∀ result code, s.code.merge dtl t.code = .ok (result, code) → code = s.code
  rest : ∀ next, s.receivedCode dtl doubles uuids contacts t = .ok next →
    next.code = s.code ∧ next.data.stored = s.data.stored

/-- The editor's clock counts of each id as much as the clock of the script. -/
def AppEditor.CountsAll (s : AppEditor Double) (t : TextScript) : Prop :=
  ∀ i ∈ t.code.c.c, i ∈ s.code.c.c ∧ t.code.c.c.counts i ≤ s.code.c.c.counts i

/-- The store of the app holds all data of the script. -/
def AppEditor.HoldsAll (doubles : Doubles Double) (s : AppEditor Double) (t : TextScript) : Prop :=
  ∀ d, decodeDictionary doubles t.data = .ok d → ∀ e ∈ d, s.data.stored e.1 = some e.2

/-- What is left of an older script is its data. -/
private theorem receivedCode_stale (doubles : Doubles Double) (valid : s.Valid uuids)
    {contacts : ContactList} {t : TextScript} {code : CrString String}
    (contact : contacts.has t.fromId = true)
    (merges : s.code.merge dtl t.code = .ok (.noChange, code)) :
    ((∃ next, s.receivedCode dtl doubles uuids contacts t = .ok next) ↔
      ∃ d, decodeDictionary doubles t.data = .ok d) ∧
    ((∀ next, s.receivedCode dtl doubles uuids contacts t = .ok next →
        next.data.stored = s.data.stored) ↔ s.HoldsAll doubles t) ∧
    ∀ next, s.receivedCode dtl doubles uuids contacts t = .ok next → next.code = code := by
  unfold AppEditor.HoldsAll
  rw [receivedCode_eq contact merges]
  cases data? : t.data with
  | nil =>
      have none? : decodeDictionary doubles [] = .ok [] := rfl
      rw [none?]
      refine ⟨iff_of_true ⟨_, rfl⟩ ⟨_, rfl⟩, ?_, fun next success => ?_⟩
      · refine iff_of_true (fun next success => ?_) (fun d decodes e member => ?_)
        · cases success
          rfl
        · cases decodes
          cases member
      · cases success
        rfl
  | cons byte bytes =>
      have some? : ¬ (byte :: bytes).isEmpty = true := Bool.false_ne_true
      rw [if_neg some?]
      cases decodes : decodeDictionary doubles (byte :: bytes) with
      | error fault => simp
      | ok d =>
          obtain ⟨filled, imports, -, writes⟩ := valid.data.importFrom d
          have distinct := nodup_decodeDictionary decodes
          have result : (do
              let store ← (if MergeResult.noChange = .updated then s.data.clear else .ok s.data)
              let store ← store.importFrom uuids d
              .ok ((s.merged code).imported store)) =
                (.ok ((s.merged code).imported filled) : Outcome (AppEditor Double)) := by
            simp only [reduceCtorEq, if_false, ok_bind, imports]
          rw [ok_bind, result]
          simp only [Except.ok.injEq, exists_eq', forall_eq', true_and, imported_code,
            imported_data]
          rw [← overwrite_eq_self_iff distinct, ← writes]
          exact ⟨Iff.rfl, rfl⟩

/-- A script of a contact that is older than the code of an editor, or identical to
it, changes nothing exactly when the editor counts as much of each id already and the
store of the app holds all of its data. It is received without a fault when its data
can be decoded. -/
theorem stale_script_keeps_iff {events : List (EditorEvent Double)} {contacts : ContactList}
    {t : TextScript} (run : EditorRun dtl doubles uuids events s)
    (contact : contacts.has t.fromId = true) (stale : t.code.c.c.le s.code.c.c = true) :
    ((∃ next, s.receivedCode dtl doubles uuids contacts t = .ok next) ↔
      ∃ d, decodeDictionary doubles t.data = .ok d) ∧
    (s.Keeps dtl doubles uuids contacts t ↔ s.CountsAll t ∧ s.HoldsAll doubles t) := by
  have valid := editor_valid_of_run run
  have merges := merge_of_le dtl valid.own (TrackedVClock.own_ofClock t.id t.clock) stale
  obtain ⟨ends, data, code⟩ := receivedCode_stale doubles valid contact merges
  refine ⟨ends, ?_⟩
  have clock : ({ s.code with c := s.code.c.joined t.code.c } : CrString String) = s.code ↔
      s.CountsAll t := by
    unfold AppEditor.CountsAll
    rw [← VClock.add_eq_self_iff]
    constructor
    · intro same
      exact congrArg (fun me => me.c.c) same
    · intro same
      rw [TrackedVClock.joined, same]
  constructor
  · intro keeps
    exact ⟨clock.mp (keeps.code _ _ merges),
      data.mp fun next success => (keeps.rest next success).2⟩
  · rintro ⟨counts, holds⟩
    have same := clock.mpr counts
    refine ⟨fun result code merged => ?_, fun next success => ?_⟩
    · cases merges.symm.trans merged
      exact same
    · exact ⟨(code next success).trans same, data.mpr holds next success⟩

end Valid

section Repeated

/-- What contact `b` sends: new code, and the text `T` under the key `k`. -/
def fromB : TextScript where
  fromId := "b"
  id := "b"
  clock := Finmap.singleton "b" 1
  text := ascii "new"
  data := Value.encode loneDouble (.dict [(ascii "k", .bytes (ascii "T"))])

def onlyB : ContactList where
  list := [{ id := "b" }]
  map := Finmap.singleton "b" 0

def editorA : AppEditor Unit := .new "a" (ascii "old") emptyStore

/-- The editor of `a` after it received what `b` sends. -/
def receivedOnce : AppEditor Unit :=
  valueD editorA (editorA.receivedCode firstVersion loneDouble zeros onlyB fromB)

/-- And then set `k` to the text `F`. -/
def editedSince : AppEditor Unit :=
  valueD receivedOnce (receivedOnce.addData zeros (ascii "k") (.bytes (ascii "F")))

theorem receivedOnce_run :
    EditorRun firstVersion loneDouble zeros [.receivedCode onlyB fromB] receivedOnce :=
  .single ⟨"a", ascii "old", emptyStore, rfl, emptyStore_valid⟩
    (.receivedCode (@ok_valueD _ editorA _ (by decide +kernel)))

theorem editedSince_run : EditorRun firstVersion loneDouble zeros
    [.receivedCode onlyB fromB, .addData (ascii "k") (.bytes (ascii "F"))] editedSince :=
  receivedOnce_run.step (.addData (ok_valueD (by decide +kernel)))

/-- Received twice in a row, a script changes nothing the second time. -/
theorem stale_script_keeps_receivedOnce : ∃ next,
    receivedOnce.receivedCode firstVersion loneDouble zeros onlyB fromB = .ok next ∧
      next.code = receivedOnce.code ∧ next.data.stored = receivedOnce.data.stored := by
  have contact : onlyB.has fromB.fromId = true := by decide +kernel
  obtain ⟨received, keeps⟩ := stale_script_keeps_iff receivedOnce_run contact (by decide +kernel)
  have entries : decodeDictionary loneDouble fromB.data = .ok [(ascii "k", .bytes (ascii "T"))] :=
    rfl
  obtain ⟨next, success⟩ := received.mpr ⟨_, entries⟩
  refine ⟨next, success, (keeps.mpr ⟨?_, ?_⟩).rest next success⟩
  · exact VClock.add_eq_self_iff.mp (by decide +kernel)
  · intro d decodes e member
    cases entries.symm.trans decodes
    cases List.mem_singleton.mp member
    rfl

private def isF : Option (Value Unit) → Bool
  | some (.bytes v) => v == ascii "F"
  | _ => false

/-- A script that counts nothing of an id that the editor has never seen. -/
def countsNothing : TextScript :=
  { fromB with
    clock := (Finmap.singleton "b" 1).insert "c" 0
    data := [] }

/-- Received once more after a local edit of the data, a script whose clock is
older than the clock of the editor takes the edit back. And a script without data
changes the clock, when it names an id with the count 0. -/
theorem repeated_script_reverts_data : EditorRun firstVersion loneDouble zeros
      [.receivedCode onlyB fromB, .addData (ascii "k") (.bytes (ascii "F"))] editedSince ∧
    onlyB.has fromB.fromId = true ∧
    fromB.code.c.c.le editedSince.code.c.c = true ∧
    (∃ next, editedSince.receivedCode firstVersion loneDouble zeros onlyB fromB = .ok next ∧
      next.data.stored ≠ editedSince.data.stored) ∧
    countsNothing.code.c.c.le editedSince.code.c.c = true ∧
    ∃ next, editedSince.receivedCode firstVersion loneDouble zeros onlyB countsNothing = .ok next ∧
      next.code.c.c ≠ editedSince.code.c.c := by
  refine ⟨editedSince_run, by decide +kernel, by decide +kernel,
    ⟨_, @ok_valueD _ editedSince _ (by decide +kernel), fun same => ?_⟩, by decide +kernel, _,
    @ok_valueD _ editedSince _ (by decide +kernel), by decide +kernel⟩
  have reverted := congrArg (fun stored => isF (stored (ascii "k"))) same
  exact absurd reverted (by decide +kernel)

end Repeated

end Firestr.Gui
