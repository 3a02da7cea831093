import Firestr.Dtl.DiffSearch

/-! The edit script of a difference. It makes the second sequence of the first,
and while the search is not cut off there is none that is shorter. -/

set_option autoImplicit false

namespace Firestr.Dtl

open Firestr.Util Firestr.Library.EditScript Diff

variable {Elem : Type}

section Edits

def SesElem.edit (e : SesElem Elem) : Edit Elem :=
  match e.2.type with
  | .delete => .delete e.1
  | .common => .keep e.1
  | .add => .add e.1

def edits (ses : List (SesElem Elem)) : List (Edit Elem) := ses.map SesElem.edit

/-- What is recorded of an edit at a point. -/
def sesElem (swapped : Bool) (px py : Int) : Edit Elem → SesElem Elem
  | .add e =>
    (e, if !swapped then { beforeIdx := 0, afterIdx := py + 1, type := .add }
      else { beforeIdx := py + 1, afterIdx := 0, type := .delete })
  | .delete e =>
    (e, if !swapped then { beforeIdx := px + 1, afterIdx := 0, type := .delete }
      else { beforeIdx := 0, afterIdx := px + 1, type := .add })
  | .keep e =>
    (e, if !swapped then { beforeIdx := px + 1, afterIdx := py + 1, type := .common }
      else { beforeIdx := py + 1, afterIdx := px + 1, type := .common })

def sesOf (swapped : Bool) : List (Edit Elem) → Int → Int → List (SesElem Elem)
  | [], _, _ => []
  | e :: s, px, py => sesElem swapped px py e ::
      sesOf swapped s (px + (source [e]).length) (py + (target [e]).length)

/-- The script for the sequences as they were given. -/
def turned (swapped : Bool) (s : List (Edit Elem)) : List (Edit Elem) :=
  if swapped then s.map Edit.undo else s

theorem edits_sesOf (swapped : Bool) (s : List (Edit Elem)) (px py : Int) :
    edits (sesOf swapped s px py) = turned swapped s := by
  induction s generalizing px py with
  | nil => cases swapped <;> rfl
  | cons e s ih =>
      have later := ih (px + (source [e]).length) (py + (target [e]).length)
      cases swapped with
      | false => cases e <;> simpa [edits, sesOf, turned, sesElem, SesElem.edit] using later
      | true => cases e <;> simpa [edits, sesOf, turned, sesElem, SesElem.edit, Edit.undo] using later

theorem sesOf_append (swapped : Bool) (s t : List (Edit Elem)) (px py : Int) :
    sesOf swapped (s ++ t) px py = sesOf swapped s px py ++
      sesOf swapped t (px + (source s).length) (py + (target s).length) := by
  induction s generalizing px py with
  | nil => simp [sesOf]
  | cons e s ih =>
      rw [List.cons_append, sesOf, sesOf, ih, List.cons_append]
      cases e <;> simp [Int.add_assoc, Int.add_comm 1]

end Edits

section Record

variable {d : Diff Elem} {s : List (Edit Elem)} {v : Point}

/-- The cursor after the script has been recorded. -/
def cursor (d : Diff Elem) (s : List (Edit Elem)) : Cursor Elem where
  px := (source s).length
  py := (target s).length
  d := { d with ses := d.ses ++ sesOf d.swapped s 0 0, lcs := d.lcs ++ kept s }

theorem cursor_nil (d : Diff Elem) : cursor d [] = { d := d } := by
  simp [cursor, sesOf]

theorem readAt_prefix {v front rest : List Elem} {e : Elem} (whole : front ++ e :: rest <+: v) :
    readAt v front.length = .ok e := by
  obtain ⟨more, rfl⟩ := whole
  exact readAt_ok (by omega) (by simp)

theorem cursor_append (d : Diff Elem) (s : List (Edit Elem)) (e : Edit Elem) :
    cursor d (s ++ [e]) = {
      px := (source s).length + (source [e]).length
      py := (target s).length + (target [e]).length
      d := { d with
        ses := d.ses ++ sesOf d.swapped s 0 0 ++
          [sesElem d.swapped (source s).length (target s).length e]
        lcs := d.lcs ++ kept s ++ kept [e] } } := by
  simp [cursor, sesOf_append, sesOf]

/-- One pass records one edit, if only commons are to come after it. -/
theorem recordStep_spec (e : Edit Elem) (run : List Elem)
    (stands : Stands d.a d.b (s ++ e :: keepAll run) v.x v.y) :
    recordStep v (cursor d s) = .ok (cursor d (s ++ [e])) := by
  obtain ⟨used, made, x_eq, y_eq⟩ := stands
  obtain ⟨a, b, delta, offset, fp, distance, lcs, ses, path, points, swapped⟩ := d
  rw [cursor_append]
  cases e with
  | add e =>
      simp only [source_append, source_add, source_keepAll, target_append, target_add,
        target_keepAll, List.length_append, List.length_cons] at x_eq y_eq made
      rw [recordStep, if_pos (by simp only [cursor]; omega)]
      simp only [cursor, readAt_prefix made, ok_bind, pure_ok]
      cases swapped <;> simp [addSequence, sesElem]
  | delete e =>
      simp only [source_append, source_delete, source_keepAll, target_append, target_delete,
        target_keepAll, List.length_append, List.length_cons] at x_eq y_eq used
      rw [recordStep, if_neg (by simp only [cursor]; omega), if_pos (by simp only [cursor]; omega)]
      simp only [cursor, readAt_prefix used, ok_bind, pure_ok]
      cases swapped <;> simp [addSequence, sesElem]
  | keep e =>
      simp only [source_append, source_keep, source_keepAll, target_append, target_keep,
        target_keepAll, List.length_append, List.length_cons] at x_eq y_eq used made
      rw [recordStep, if_neg (by simp only [cursor]; omega), if_neg (by simp only [cursor]; omega)]
      simp only [cursor, readAt_prefix used, readAt_prefix made, ite_self, ok_bind, pure_ok]
      cases swapped <;> simp [addSequence, sesElem]

theorem recordTo_step (fuel : Nat) (e : Edit Elem) (run : List Elem)
    (stands : Stands d.a d.b (s ++ e :: keepAll run) v.x v.y) :
    recordTo (fuel + 1) v (cursor d s) = recordTo fuel v (cursor d (s ++ [e])) := by
  have more : (cursor d s).px < v.x ∨ (cursor d s).py < v.y := by
    have x_eq := stands.x_eq
    have y_eq := stands.y_eq
    cases e <;> simp [cursor] at x_eq y_eq ⊢ <;> omega
  rw [recordTo, if_pos more, recordStep_spec e run stands, ok_bind]

theorem recordTo_run (fuel : Nat) (run : List Elem) (enough : run.length ≤ fuel)
    (stands : Stands d.a d.b (s ++ keepAll run) v.x v.y) :
    recordTo fuel v (cursor d s) = .ok (cursor d (s ++ keepAll run)) := by
  induction run generalizing s fuel with
  | nil =>
      have x_eq := stands.x_eq
      have y_eq := stands.y_eq
      simp only [keepAll, List.map_nil, List.append_nil] at x_eq y_eq ⊢
      have done : ¬((cursor d s).px < v.x ∨ (cursor d s).py < v.y) := by
        simp only [cursor]
        omega
      cases fuel <;> rw [recordTo, if_neg done, pure_ok]
  | cons e run ih =>
      cases fuel with
      | zero => simp at enough
      | succ fuel =>
          rw [recordTo_step fuel (.keep e) run stands,
            ih fuel (by simpa using enough) (by simpa [keepAll] using stands)]
          simp [keepAll]

theorem recordTo_hop {r : Int} {hop : List (Edit Elem)} (hops : Hop Elem r hop) (fuel : Nat)
    (run : List Elem) (enough : hop.length + run.length ≤ fuel)
    (stands : Stands d.a d.b (s ++ hop ++ keepAll run) v.x v.y) :
    recordTo fuel v (cursor d s) = .ok (cursor d (s ++ hop ++ keepAll run)) := by
  cases hops with
  | start =>
    rw [List.append_nil] at stands ⊢
    exact recordTo_run fuel run (by simpa using enough) stands
  | add e | delete e =>
      cases fuel with
      | zero => simp at enough
      | succ fuel =>
          rw [List.append_assoc, List.singleton_append] at stands
          rw [recordTo_step fuel _ run stands]
          refine recordTo_run fuel run (by simp at enough; omega) ?_
          simpa using stands

theorem record_way {points : List Point} {i : Int} {cordinates : List Point}
    (way : Way d.a d.b cordinates i s points) :
    points.foldlM (fun c v => recordTo ((v.x - c.px).toNat + (v.y - c.py).toNat) v c) { d := d } =
      .ok (cursor d s) := by
  induction way with
  | start => rw [cursor_nil]; rfl
  | @next r i s hop run points p way positive later found parent hops stands ih =>
      rw [List.foldlM_append, ih, ok_bind, List.foldlM_cons]
      rw [recordTo_hop hops _ run ?_ stands]
      · rfl
      · have x_eq := stands.x_eq
        have y_eq := stands.y_eq
        cases hops <;> simp [cursor] at x_eq y_eq ⊢ <;> omega

theorem Way.length_le {a b : List Elem} {cordinates points : List Point} {i : Int}
    (way : Way a b cordinates i s points) : (points.length : Int) ≤ i + 1 := by
  induction way with
  | start => simp
  | next _ _ later _ _ _ _ ih =>
      simp only [List.length_append, List.length_cons, List.length_nil]
      omega

theorem trace_spec {a b : List Elem} {cordinates points : List Point} {i : Int}
    (way : Way a b cordinates i s points) (fuel : Nat) (enough : points.length ≤ fuel)
    (epc : List Point) : trace cordinates fuel i epc = .ok (epc ++ points.reverse) := by
  induction way generalizing fuel epc with
  | start => cases fuel <;> simp [trace]
  | @next r i s hop run points p way positive later found parent hops stands ih =>
      cases fuel with
      | zero => simp at enough
      | succ fuel =>
          have earlier := ih fuel (by simpa using enough) (epc ++ [p])
          rw [trace, if_neg (by omega)]
          simp only [readAt_ok positive found, ok_bind, parent, earlier]
          simp

theorem recordSequence_spec {points : List Point} {i : Int} {restA restB : List Elem}
    (way : Way d.a d.b d.pathCordinates i s points) (some : points ≠ [])
    (left : source s ++ restA = d.a) (right : target s ++ restB = d.b) :
    d.recordSequence points.reverse = .ok (if restA = [] ∧ restB = [] then
      (true, (cursor d s).d)
    else
      (false, { (cursor d s).d with
        a := restA
        b := restB
        delta := restB.length - restA.length
        offset := restA.length + 1
        fp := List.replicate (restA.length + restB.length + 3) (-1)
        path := List.replicate d.path.length (-1) })) := by
  have recorded := record_way way
  rw [← List.reverse_reverse points] at recorded
  have length_a := congrArg List.length left
  have length_b := congrArg List.length right
  rw [List.length_append] at length_a length_b
  rw [recordSequence, if_neg (by simpa using some), recorded, ok_bind]
  by_cases finished : restA = [] ∧ restB = []
  · have ended : (cursor d s).px + 1 > (cursor d s).d.a.length ∧
        (cursor d s).py + 1 > (cursor d s).d.b.length := by
      simp only [cursor]
      rw [finished.1] at length_a
      rw [finished.2] at length_b
      simp only [List.length_nil] at length_a length_b
      omega
    rw [if_pos ended, if_pos finished, pure_ok]
  · have more : ¬((cursor d s).px + 1 > (cursor d s).d.a.length ∧
        (cursor d s).py + 1 > (cursor d s).d.b.length) := by
      intro ⟨no_a, no_b⟩
      simp only [cursor] at no_a no_b
      exact finished ⟨List.length_eq_zero_iff.mp (by omega), List.length_eq_zero_iff.mp (by omega)⟩
    have rest_a : dropAt (cursor d s).d.a (cursor d s).px = .ok restA := dropAt_ok left.symm rfl
    have rest_b : dropAt (cursor d s).d.b (cursor d s).py = .ok restB := dropAt_ok right.symm rfl
    simp only [if_neg more, if_neg finished, rest_a, rest_b, ok_bind]
    rfl

end Record

section Compose

variable {d : Diff Elem} {p : Int} {s : List (Edit Elem)} {restA restB : List Elem}

/-- What one search finds: a script for the sequences up to what is left of them, which is
something only where there are too many coordinates. -/
structure Stretch (d : Diff Elem) (p : Int) (s : List (Edit Elem)) (restA restB : List Elem) :
    Prop where
  left : source s ++ restA = d.a
  right : target s ++ restB = d.b
  even : restA.length = restB.length
  fewer : ((deleted s).length : Int) ≤ p
  least : Least d p
  complete : restB ≠ [] → target s ≠ [] ∧ maxCordinatesSize ≤ d.a.length * d.b.length
  same : d.a = d.b → restB = []

theorem Found.stretch {d' : Diff Elem} (found : Found d p d') (shaped : Shaped d) :
    ∃ s restA restB points, Stretch d p s restA restB ∧ points ≠ [] ∧
      Way d.a d.b d'.pathCordinates (d'.last d.delta) s points := by
  obtain ⟨⟨fp, path, points, -, -, frame⟩, least, ⟨s, trail, some, way, stands, fewer⟩, bounds,
    complete⟩ := found
  have whole : d'.a = d.a ∧ d'.b = d.b := by
    rw [frame]
    exact ⟨rfl, rfl⟩
  rw [whole.1, whole.2] at way stands
  have delta_eq := shaped.delta_eq
  obtain ⟨restA, restB, left, right, -, -⟩ := stands.split
  have length_a := congrArg List.length left
  have length_b := congrArg List.length right
  rw [List.length_append] at length_a length_b
  have x_eq := stands.x_eq
  have y_eq := stands.y_eq
  refine ⟨s, restA, restB, trail, ⟨left, right, by omega, fewer, least, ?_, ?_⟩, some, way⟩
  · intro more
    have positive := List.length_pos_of_ne_nil more
    rcases complete with ended | ⟨-, started, many⟩
    · omega
    · refine ⟨?_, many⟩
      rintro nothing
      rw [nothing] at y_eq
      simp only [List.length_nil] at y_eq
      omega
  · intro same
    have straight := Path.of_script (keepAll d.a)
    simp only [source_keepAll, target_keepAll, deleted_keepAll, List.length_nil] at straight
    rw [← same] at bounds length_b delta_eq
    have far := bounds _ _ _ straight (by omega) (by omega)
    exact List.length_eq_zero_iff.mp (by omega)

/-- The script that has been recorded between two differences. -/
structure Composed (d : Diff Elem) (s : List (Edit Elem)) (d' : Diff Elem) : Prop where
  source_eq : source s = d.a
  target_eq : target s = d.b
  script : edits d'.ses = edits d.ses ++ turned d.swapped s
  common : d'.lcs = d.lcs ++ kept s
  distance : d.editDistance + cost s ≤ d'.editDistance
  same : d.a = d.b → d'.editDistance = d.editDistance
  exact : d.a.length * d.b.length < maxCordinatesSize → d'.editDistance = d.editDistance + cost s
  least : d.a.length * d.b.length < maxCordinatesSize →
    ∀ t, source t = d.a → target t = d.b → cost s ≤ cost t

theorem edits_append (ses more : List (SesElem Elem)) :
    edits (ses ++ more) = edits ses ++ edits more := List.map_append

theorem turned_append (swapped : Bool) (s t : List (Edit Elem)) :
    turned swapped (s ++ t) = turned swapped s ++ turned swapped t := by
  cases swapped <;> simp [turned]

/-- The cost of a script follows from its deletions. -/
theorem cost_eq (s : List (Edit Elem)) :
    cost s + (source s).length = (target s).length + 2 * (deleted s).length := by
  rw [length_source, length_target, cost]
  omega

theorem Stretch.cost_le (stretch : Stretch d p s restA restB) (shaped : Shaped d) :
    (cost s : Int) ≤ d.delta + 2 * p := by
  have delta_eq := shaped.delta_eq
  have length_a := congrArg List.length stretch.left
  have length_b := congrArg List.length stretch.right
  rw [List.length_append] at length_a length_b
  have even := stretch.even
  have fewer := stretch.fewer
  have counted := cost_eq s
  omega

/-- A search that comes to the end has found a script with as few deletions as possible. -/
theorem Stretch.whole (stretch : Stretch d p s [] []) (shaped : Shaped d) :
    (cost s : Int) = d.delta + 2 * p ∧
      ∀ t, source t = d.a → target t = d.b → cost s ≤ cost t := by
  have delta_eq := shaped.delta_eq
  have from_a := stretch.left
  have to_b := stretch.right
  rw [List.append_nil] at from_a to_b
  have fewer := stretch.fewer
  have fewest : ∀ t, source t = d.a → target t = d.b → p ≤ (deleted t).length := by
    rintro t source_t target_t
    have path := Path.of_script t
    rw [source_t, target_t] at path
    exact stretch.least _ path
  have counted := cost_eq s
  have here := fewest s from_a to_b
  rw [from_a, to_b] at counted
  refine ⟨by omega, ?_⟩
  intro t source_t target_t
  have there := fewest t source_t target_t
  have counted' := cost_eq t
  rw [source_t, target_t] at counted'
  omega

theorem Stretch.same_free (stretch : Stretch d p s restA restB) (shaped : Shaped d)
    (same : d.a = d.b) : d.delta + 2 * p = 0 := by
  have delta_eq := shaped.delta_eq
  have straight := Path.of_script (keepAll d.a)
  simp only [source_keepAll, target_keepAll, deleted_keepAll, List.length_nil] at straight
  have fewer := stretch.fewer
  have least := stretch.least 0 (by rwa [← same])
  rw [same] at delta_eq
  omega

variable [DecidableEq Elem]

/-- A search, and what is done with it. -/
theorem composeFrom_succ (unsearched : Unsearched d) : ∃ p s restA restB fp path points,
    path.length = d.path.length ∧ Stretch d p s restA restB ∧
    ∀ fuel, composeFrom (fuel + 1) d = if restA = [] ∧ restB = [] then
        .ok { d with
          fp := fp
          path := path
          pathCordinates := points
          editDistance := d.editDistance + (d.delta + 2 * p)
          ses := d.ses ++ sesOf d.swapped s 0 0
          lcs := d.lcs ++ kept s }
      else composeFrom fuel { d with
        a := restA
        b := restB
        delta := restB.length - restA.length
        offset := restA.length + 1
        fp := List.replicate (restA.length + restB.length + 3) (-1)
        path := List.replicate d.path.length (-1)
        pathCordinates := []
        editDistance := d.editDistance + (d.delta + 2 * p)
        ses := d.ses ++ sesOf d.swapped s 0 0
        lcs := d.lcs ++ kept s } := by
  have shaped := unsearched.shaped
  obtain ⟨p, d', searched, found⟩ := unsearched.onp_spec
  obtain ⟨s, restA, restB, trail, stretch, some, way⟩ := found.stretch shaped
  obtain ⟨fp, path, points, fp_length, path_length, rfl⟩ := found.frame
  refine ⟨p, s, restA, restB, fp, path, points, path_length, stretch, ?_⟩
  intro fuel
  have delta_eq := shaped.delta_eq
  have offset_eq := shaped.offset_eq
  have shorter := shaped.shorter
  have long := shaped.path_length
  have last : readAt path (d.delta + d.offset) = .ok (numberAt path (d.delta + d.offset)) :=
    readAt_number (by omega) (by omega)
  have trail_short : trail.length ≤ points.length := by
    have inside := way.lt
    have length_le := way.length_le
    simp only at inside
    omega
  have traced := trace_spec way points.length trail_short []
  have recorded := recordSequence_spec (d := { d with
    fp := fp
    path := path
    pathCordinates := points
    editDistance := d.editDistance + (d.delta + 2 * p) }) way some stretch.left stretch.right
  simp only [Diff.last] at traced
  rw [composeFrom]
  simp only [searched, ok_bind, last, traced, List.nil_append, recorded]
  by_cases finished : restA = [] ∧ restB = []
  · simp only [if_pos finished, if_true]
    rfl
  · simp only [if_neg finished, path_length]
    rfl

omit [DecidableEq Elem] in
/-- What is left after a search is searched anew. -/
theorem Unsearched.rest (unsearched : Unsearched d) (stretch : Stretch d p s restA restB)
    (editDistance : Int) (ses : List (SesElem Elem)) (lcs : List Elem) : Unsearched { d with
      a := restA
      b := restB
      delta := restB.length - restA.length
      offset := restA.length + 1
      fp := List.replicate (restA.length + restB.length + 3) (-1)
      path := List.replicate d.path.length (-1)
      pathCordinates := []
      editDistance := editDistance
      ses := ses
      lcs := lcs } where
  shaped := by
    have long := unsearched.shaped.path_length
    have length_a := congrArg List.length stretch.left
    have length_b := congrArg List.length stretch.right
    rw [List.length_append] at length_a length_b
    have even := stretch.even
    constructor
    · simp only
      omega
    · rfl
    · rfl
    · exact List.length_replicate
    · simp only [List.length_replicate]
      omega
  fp := ⟨_, rfl⟩
  path := ⟨_, rfl⟩
  pathCordinates := rfl

theorem composeFrom_spec (fuel : Nat) (enough : d.a.length + d.b.length < fuel)
    (unsearched : Unsearched d) : ∃ s d', composeFrom fuel d = .ok d' ∧ Composed d s d' := by
  induction fuel generalizing d with
  | zero => omega
  | succ fuel ih =>
      have shaped := unsearched.shaped
      obtain ⟨p, s, restA, restB, fp, path, points, path_length, stretch, step⟩ :=
        composeFrom_succ unsearched
      have cost_le := stretch.cost_le shaped
      have even := stretch.even
      rw [step]
      by_cases finished : restA = [] ∧ restB = []
      · obtain ⟨rfl, rfl⟩ := finished
        obtain ⟨cost_eq, least⟩ := stretch.whole shaped
        rw [if_pos ⟨rfl, rfl⟩]
        refine ⟨s, _, rfl, by simpa using stretch.left, by simpa using stretch.right, ?_, rfl, ?_,
          ?_, ?_, fun _ => least⟩
        · rw [edits_append, edits_sesOf]
        · simp only
          omega
        · intro same
          simp only [stretch.same_free shaped same, Int.add_zero]
        · simp only [cost_eq, implies_true]
      · rw [if_neg finished]
        have more : restB ≠ [] := by
          rintro rfl
          exact finished ⟨List.length_eq_zero_iff.mp (by simpa using even), rfl⟩
        obtain ⟨started, many⟩ := stretch.complete more
        have positive := List.length_pos_of_ne_nil started
        have length_a := congrArg List.length stretch.left
        have length_b := congrArg List.length stretch.right
        rw [List.length_append] at length_a length_b
        obtain ⟨t, d', success, composed⟩ := ih (by simp only; omega)
          (unsearched.rest stretch (d.editDistance + (d.delta + 2 * p))
            (d.ses ++ sesOf d.swapped s 0 0) (d.lcs ++ kept s))
        refine ⟨s ++ t, d', success, ?_, ?_, ?_, ?_, ?_, ?_, fun few => by omega, fun few => by omega⟩
        · rw [source_append, composed.source_eq, stretch.left]
        · rw [target_append, composed.target_eq, stretch.right]
        · rw [composed.script, edits_append, edits_sesOf, turned_append, List.append_assoc]
        · rw [composed.common, kept_append, List.append_assoc]
        · have further := composed.distance
          simp only [cost, deleted_append, added_append, List.length_append] at cost_le further ⊢
          omega
        · exact fun same => absurd (stretch.same same) more

omit [DecidableEq Elem] in
theorem Composed.editDistance_pos {d' : Diff Elem} (composed : Composed d s d') (apart : d.a ≠ d.b) :
    d.editDistance < d'.editDistance := by
  have distance := composed.distance
  have costly : cost s ≠ 0 := by
    intro free
    rw [← composed.source_eq, ← composed.target_eq] at apart
    exact apart (source_eq_target free)
  omega

omit [DecidableEq Elem] in
theorem patchFrom_spec (ses : List (SesElem Elem)) (done rest : List Elem) :
    patchFrom ses done (source (edits ses) ++ rest) = .ok (done ++ target (edits ses) ++ rest) := by
  induction ses generalizing done with
  | nil => simp [patchFrom, edits]
  | cons e ses ih =>
      obtain ⟨e, before, after, type⟩ := e
      cases type with
      | delete => simpa [patchFrom, edits, SesElem.edit] using ih done
      | common => simpa [patchFrom, edits, SesElem.edit] using ih (done ++ [e])
      | add => simpa [patchFrom, edits, SesElem.edit] using ih (done ++ [e])

end Compose

section Difference

variable [DecidableEq Elem]

/-- What is known of the difference of two sequences when it has been composed. -/
structure Difference (a b : List Elem) (d : Diff Elem) : Prop where
  source_eq : source (edits d.ses) = a
  target_eq : target (edits d.ses) = b
  common : kept (edits d.ses) = d.lcs
  distance : cost (edits d.ses) ≤ d.editDistance
  same : d.editDistance = 0 ↔ a = b
  exact : a.length * b.length < maxCordinatesSize → d.editDistance = cost (edits d.ses)
  least : a.length * b.length < maxCordinatesSize →
    ∀ t, source t = a → target t = b → cost (edits d.ses) ≤ cost t

omit [DecidableEq Elem] in
theorem new_unsearched (a b : List Elem) : Unsearched { Diff.new a b with
    fp := List.replicate ((Diff.new a b).a.length + (Diff.new a b).b.length + 3) (-1)
    path := List.replicate ((Diff.new a b).a.length + (Diff.new a b).b.length + 3) (-1) } := by
  refine ⟨⟨?_, ?_, ?_, List.length_replicate, by simp⟩, ⟨_, rfl⟩, ⟨_, rfl⟩, ?_⟩
  all_goals
    unfold Diff.new
    by_cases shorter : a.length < b.length
    · simp only [if_pos shorter]
      try omega
    · simp only [if_neg shorter]
      try omega

theorem compose_difference (a b : List Elem) :
    ∃ d, (Diff.new a b).compose = .ok d ∧ Difference a b d := by
  obtain ⟨s, d, success, composed⟩ := composeFrom_spec _ (Nat.lt_succ_self _) (new_unsearched a b)
  refine ⟨d, success, ?_⟩
  have apart := composed.editDistance_pos
  obtain ⟨source_eq, target_eq, script, common, distance, same, exact, least⟩ := composed
  unfold Diff.new at source_eq target_eq script common distance same exact least apart
  by_cases shorter : a.length < b.length
  · simp only [if_pos shorter, edits, turned, List.map_nil, List.nil_append, Bool.false_eq_true,
      if_false, Int.zero_add] at source_eq target_eq script common distance same exact least apart
    constructor
    · rw [edits, script, source_eq]
    · rw [edits, script, target_eq]
    · rw [edits, script, common]
    · rwa [edits, script]
    · refine ⟨fun free => ?_, same⟩
      by_contra different
      have positive := apart different
      omega
    · rwa [edits, script]
    · rwa [edits, script]
  · simp only [if_neg shorter, edits, turned, List.map_nil, List.nil_append, if_true,
      Int.zero_add] at source_eq target_eq script common distance same exact least apart
    constructor
    · rw [edits, script, source_undo, target_eq]
    · rw [edits, script, target_undo, source_eq]
    · rw [edits, script, kept_undo, common]
    · rwa [edits, script, cost_undo]
    · refine ⟨fun free => ?_, fun equal => same equal.symm⟩
      by_contra different
      have positive := apart (Ne.symm different)
      omega
    · rwa [edits, script, cost_undo, Nat.mul_comm]
    · rw [edits, script, cost_undo, Nat.mul_comm]
      intro few t source_t target_t
      rw [← cost_undo t]
      exact least few _ (by rw [source_undo, target_t]) (by rw [target_undo, source_t])

/-- However long the sequences are, the difference is composed, and it makes the second one of
the first one. -/
theorem compose_patch (a b : List Elem) : ∃ d, (Diff.new a b).compose = .ok d ∧
    d.patch a = .ok b ∧ source (edits d.ses) = a ∧ target (edits d.ses) = b ∧
    d.lcs = kept (edits d.ses) ∧ cost (edits d.ses) ≤ d.editDistance ∧
    (d.editDistance = 0 ↔ a = b) := by
  obtain ⟨d, success, difference⟩ := compose_difference a b
  refine ⟨d, success, ?_, difference.source_eq, difference.target_eq, difference.common.symm,
    difference.distance, difference.same⟩
  have patched := patchFrom_spec d.ses [] []
  rw [difference.source_eq, difference.target_eq] at patched
  simpa [patch] using patched

/-- Where the search cannot have too many coordinates, there is no shorter script, and no longer
common subsequence. -/
theorem compose_shortest (a b : List Elem) (few : a.length * b.length < maxCordinatesSize) :
    ∃ d, (Diff.new a b).compose = .ok d ∧ d.editDistance = cost (edits d.ses) ∧
      (∀ t, source t = a → target t = b → cost (edits d.ses) ≤ cost t) ∧
      d.lcs.Sublist a ∧ d.lcs.Sublist b ∧
      ∀ common : List Elem, common.Sublist a → common.Sublist b → common.length ≤ d.lcs.length := by
  obtain ⟨d, success, difference⟩ := compose_difference a b
  have least := difference.least few
  refine ⟨d, success, difference.exact few, least, ?_, ?_, ?_⟩
  · rw [← difference.common, ← difference.source_eq]
    exact kept_sublist_source _
  · rw [← difference.common, ← difference.target_eq]
    exact kept_sublist_target _
  · intro common left right
    obtain ⟨t, source_t, target_t, keeps⟩ := exists_keeping left right
    have cheaper := least t source_t target_t
    have kept_d := cost_add_kept (edits d.ses)
    have kept_t := cost_add_kept t
    rw [difference.source_eq, difference.target_eq, difference.common] at kept_d
    rw [source_t, target_t, keeps] at kept_t
    omega

theorem compose_shortest_cab : ∃ d, (Diff.new "cab".toList "abc".toList).compose = .ok d ∧
    d.editDistance = cost (edits d.ses) ∧
    (∀ t, source t = "cab".toList → target t = "abc".toList → cost (edits d.ses) ≤ cost t) ∧
    d.lcs.Sublist "cab".toList ∧ d.lcs.Sublist "abc".toList ∧
    ∀ common : List Char, common.Sublist "cab".toList → common.Sublist "abc".toList →
      common.length ≤ d.lcs.length :=
  compose_shortest "cab".toList "abc".toList (by decide)

end Difference

end Firestr.Dtl
