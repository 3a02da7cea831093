import Firestr.Dtl.Diff
import Firestr.Library.EditPaths
import Mathlib.Tactic.Ring

/-! The search for the shortest way. After each round, what is recorded for a
diagonal is a way there with few enough deletions, and no other way with as few
comes further on it. -/

set_option autoImplicit false

namespace Firestr.Dtl

open Firestr.Util Firestr.Library.EditScript Diff

section Vector

variable {Item : Type} {v : List Item} {i : Int} {item : Item}

theorem readAt_ok (inside : 0 ≤ i) (found : v[i.toNat]? = some item) : readAt v i = .ok item := by
  rw [readAt, if_neg (by omega), found]

theorem writeAt_ok (inside : 0 ≤ i) (short : i < v.length) :
    writeAt v i item = .ok (v.set i.toNat item) := if_pos ⟨inside, short⟩

theorem dropAt_ok {front rest : List Item} (whole : v = front ++ rest) (at_front : i = front.length) :
    dropAt v i = .ok rest := by
  rw [dropAt, if_pos (by simp [whole, at_front]), at_front, whole]
  simp

/-- The value at an index of a vector of numbers, or -1 outside. -/
def numberAt (v : List Int) (i : Int) : Int := if i < 0 then -1 else (v[i.toNat]?).getD (-1)

theorem readAt_number {v : List Int} (inside : 0 ≤ i) (short : i < v.length) :
    readAt v i = .ok (numberAt v i) := by
  obtain ⟨item, found⟩ : ∃ item, v[i.toNat]? = some item :=
    ⟨_, List.getElem?_eq_getElem (by omega)⟩
  rw [readAt_ok inside found, numberAt, if_neg (by omega), found]
  rfl

theorem numberAt_set {v : List Int} {j value : Int} (inside : 0 ≤ i) (short : i < v.length) :
    numberAt (v.set i.toNat value) j = if j = i then value else numberAt v j := by
  unfold numberAt
  by_cases negative : j < 0
  · rw [if_pos negative, if_pos negative, if_neg (by omega)]
  · rw [if_neg negative, if_neg negative]
    by_cases same : j = i
    · rw [if_pos same, same, List.getElem?_set_self (by omega)]
      rfl
    · rw [if_neg same, List.getElem?_set_ne (by omega)]

theorem numberAt_replicate (n : Nat) : numberAt (List.replicate n (-1)) i = -1 := by
  unfold numberAt
  split
  · rfl
  · by_cases inside : i.toNat < n
    · rw [List.getElem?_replicate, if_pos inside]
      rfl
    · rw [List.getElem?_replicate, if_neg inside]
      rfl

end Vector

variable {Elem : Type}

section Way

/-- The script has come to the point: it makes the first `y` items of `b` of the first `x` items
of `a`. -/
structure Stands (a b : List Elem) (s : List (Edit Elem)) (x y : Int) : Prop where
  used : source s <+: a
  made : target s <+: b
  x_eq : x = (source s).length
  y_eq : y = (target s).length

/-- How a run of common items may begin: at the start, or after one edit at the point before. -/
inductive Hop (Elem : Type) : Int → List (Edit Elem) → Prop where
  | start : Hop Elem (-1) []
  | add {r : Int} (e : Elem) : Hop Elem r [.add e]
  | delete {r : Int} (e : Elem) : Hop Elem r [.delete e]

/-- The way to the point with number `i`: its script and the points on it. -/
inductive Way (a b : List Elem) (cordinates : List Point) :
    Int → List (Edit Elem) → List Point → Prop where
  | start : Way a b cordinates (-1) [] []
  | next {r i : Int} {s hop : List (Edit Elem)} {run : List Elem} {points : List Point}
      {p : Point} : Way a b cordinates r s points → 0 ≤ i → r < i →
      cordinates[i.toNat]? = some p → p.k = r → Hop Elem r hop →
      Stands a b (s ++ hop ++ keepAll run) p.x p.y →
      Way a b cordinates i (s ++ hop ++ keepAll run) (points ++ [p])

variable {a b : List Elem} {cordinates more : List Point} {i : Int} {s : List (Edit Elem)}
  {points : List Point} {x y : Int}

theorem Way.append (way : Way a b cordinates i s points) :
    Way a b (cordinates ++ more) i s points := by
  induction way with
  | start => exact .start
  | next _ positive later found parent hop stands ih =>
      have inside := (List.getElem?_eq_some_iff.mp found).1
      exact .next ih positive later ((List.getElem?_append_left inside).trans found) parent hop
        stands

theorem Stands.inside (stands : Stands a b s x y) :
    0 ≤ x ∧ x ≤ a.length ∧ 0 ≤ y ∧ y ≤ b.length := by
  have left := stands.used.length_le
  have right := stands.made.length_le
  rw [stands.x_eq, stands.y_eq]
  omega

theorem Stands.split (stands : Stands a b s x y) : ∃ restA restB, source s ++ restA = a ∧
    target s ++ restB = b ∧ suffixAt a x = restA ∧ suffixAt b y = restB := by
  obtain ⟨⟨restA, rfl⟩, ⟨restB, rfl⟩, rfl, rfl⟩ := stands
  refine ⟨restA, restB, rfl, rfl, ?_, ?_⟩
  · simp [suffixAt]
  · simp [suffixAt]

theorem Stands.add (stands : Stands a b s x y) (more : y < b.length) :
    ∃ e, Stands a b (s ++ [.add e]) x (y + 1) := by
  obtain ⟨used, ⟨rest, whole⟩, x_eq, y_eq⟩ := stands
  cases rest with
  | nil => simp [← whole, y_eq] at more
  | cons e rest =>
      refine ⟨e, ⟨by simpa using used, ⟨rest, ?_⟩, by simpa using x_eq, ?_⟩⟩
      · simpa using whole
      · simp [y_eq]

theorem Stands.delete (stands : Stands a b s x y) (more : x < a.length) :
    ∃ e, Stands a b (s ++ [.delete e]) (x + 1) y := by
  obtain ⟨⟨rest, whole⟩, made, x_eq, y_eq⟩ := stands
  cases rest with
  | nil => simp [← whole, x_eq] at more
  | cons e rest =>
      refine ⟨e, ⟨⟨rest, ?_⟩, by simpa using made, ?_, by simpa using y_eq⟩⟩
      · simpa using whole
      · simp [x_eq]

theorem Stands.nil : Stands a b [] 0 0 := ⟨List.nil_prefix, List.nil_prefix, rfl, rfl⟩

/-- No common item follows a run. -/
structure Maximal (a b : List Elem) (x y : Int) : Prop where
  differ : ∀ i j : Nat, (i : Int) = x → (j : Int) = y → i < a.length → j < b.length → a[i]? ≠ b[j]?

theorem runLength_spec [DecidableEq Elem] (xs ys : List Elem) : ∃ run restX restY,
    xs = run ++ restX ∧ ys = run ++ restY ∧ run.length = runLength xs ys ∧
      ∀ e f, restX.head? = some e → restY.head? = some f → e ≠ f := by
  induction xs generalizing ys with
  | nil => exact ⟨[], [], ys, rfl, rfl, rfl, by simp⟩
  | cons x xs ih =>
      cases ys with
      | nil => exact ⟨[], x :: xs, [], rfl, rfl, rfl, by simp⟩
      | cons y ys =>
          rw [runLength]
          split
          · rename_i same
            obtain ⟨run, restX, restY, rfl, rfl, length, differ⟩ := ih ys
            exact ⟨x :: run, restX, restY, rfl, by rw [same]; rfl, by simp [length], differ⟩
          · rename_i differ
            exact ⟨[], x :: xs, y :: ys, rfl, rfl, rfl, by simpa using differ⟩

theorem Stands.run [DecidableEq Elem] (stands : Stands a b s x y) {n : Nat}
    (length : runLength (suffixAt a x) (suffixAt b y) = n) :
    ∃ run, Stands a b (s ++ keepAll run) (x + n) (y + n) ∧ Maximal a b (x + n) (y + n) := by
  obtain ⟨restA, restB, wholeA, wholeB, suffixA, suffixB⟩ := stands.split
  obtain ⟨run, tailA, tailB, rfl, rfl, same, differ⟩ := runLength_spec restA restB
  rw [suffixA, suffixB, ← same] at length
  subst length
  refine ⟨run, ⟨⟨tailA, by simpa using wholeA⟩, ⟨tailB, by simpa using wholeB⟩, ?_, ?_⟩, ⟨?_⟩⟩
  · simp [stands.x_eq]
  · simp [stands.y_eq]
  · intro i j i_eq j_eq insideA insideB
    have here : i = (source s ++ run).length := by simp [← Int.natCast_inj, i_eq, stands.x_eq]
    have there : j = (target s ++ run).length := by simp [← Int.natCast_inj, j_eq, stands.y_eq]
    rw [← wholeA, ← List.append_assoc] at insideA ⊢
    rw [← wholeB, ← List.append_assoc] at insideB ⊢
    rw [here, there, List.getElem?_append_right (Nat.le_refl _),
      List.getElem?_append_right (Nat.le_refl _), Nat.sub_self, Nat.sub_self]
    rw [here] at insideA
    rw [there] at insideB
    cases tailA with
    | nil => simp at insideA
    | cons e tailA =>
        cases tailB with
        | nil => simp at insideB
        | cons f tailB => simpa using differ e f rfl rfl

theorem Way.lt (way : Way a b cordinates i s points) : -1 ≤ i ∧ i < cordinates.length := by
  cases way with
  | start => omega
  | next _ positive _ found =>
      have inside := (List.getElem?_eq_some_iff.mp found).1
      omega

end Way

section Visit

/-- How far the diagonal has been reached, or -1 before it is. -/
def Diff.reach (d : Diff Elem) (k : Int) : Int := numberAt d.fp (k + d.offset)

/-- The number of the last point on the way there. -/
def Diff.last (d : Diff Elem) (k : Int) : Int := numberAt d.path (k + d.offset)

structure Shaped (d : Diff Elem) : Prop where
  shorter : d.a.length ≤ d.b.length
  delta_eq : d.delta = d.b.length - d.a.length
  offset_eq : d.offset = d.a.length + 1
  fp_length : d.fp.length = d.a.length + d.b.length + 3
  path_length : d.a.length + d.b.length + 3 ≤ d.path.length

/-- There is a way to how far the diagonal has been reached, with no more deletions. -/
def Placed (d : Diff Elem) (k limit : Int) : Prop :=
  ∃ s points, points ≠ [] ∧ Way d.a d.b d.pathCordinates (d.last k) s points ∧
    Stands d.a d.b s (d.reach k - k) (d.reach k) ∧ ((deleted s).length : Int) ≤ limit

def Blank (d : Diff Elem) (k : Int) : Prop := d.reach k = -1 ∧ d.last k = -1

/-- What is known of a diagonal when the one beside it is visited. -/
structure Side (d : Diff Elem) (k limit : Int) : Prop where
  bounds : Bounds d.a d.b k limit (d.reach k)
  state : Placed d k limit ∨ Blank d k

structure Visited (d : Diff Elem) (k limit : Int) (d' : Diff Elem) : Prop where
  frame : ∃ fp path p, fp.length = d.fp.length ∧ path.length = d.path.length ∧
    d' = { d with fp := fp, path := path, pathCordinates := d.pathCordinates ++ [p] }
  reach_ne : ∀ j, j ≠ k → d'.reach j = d.reach j
  last_ne : ∀ j, j ≠ k → d'.last j = d.last j
  placed : Placed d' k limit
  bounds : Bounds d.a d.b k limit (d'.reach k)
  left : d.reach (k - 1) + 1 ≤ d'.reach k
  right : d.reach (k + 1) ≤ d'.reach k

variable {d : Diff Elem} {k limit : Int}

theorem Placed.inside (placed : Placed d k limit) :
    0 ≤ d.reach k - k ∧ d.reach k - k ≤ d.a.length ∧ 0 ≤ d.reach k ∧ d.reach k ≤ d.b.length := by
  obtain ⟨s, points, -, -, stands, -⟩ := placed
  exact stands.inside

/-- Where the run begins that a visit follows. -/
private theorem start_spec (few : 0 ≤ limit) (left : Side d (k - 1) limit)
    (right : Side d (k + 1) (limit - 1)) (room_left : d.reach (k - 1) < d.b.length)
    (room_right : d.reach (k + 1) - (k + 1) < d.a.length)
    (origin : Blank d (k - 1) → Blank d (k + 1) → k = 0) :
    ∃ s hop points, Way d.a d.b d.pathCordinates
        (d.last (if d.reach (k - 1) + 1 > d.reach (k + 1) then k - 1 else k + 1)) s points ∧
      Hop Elem (d.last (if d.reach (k - 1) + 1 > d.reach (k + 1) then k - 1 else k + 1)) hop ∧
      Stands d.a d.b (s ++ hop) (max (d.reach (k - 1) + 1) (d.reach (k + 1)) - k)
        (max (d.reach (k - 1) + 1) (d.reach (k + 1))) ∧
      ((deleted (s ++ hop)).length : Int) ≤ limit := by
  by_cases above : d.reach (k - 1) + 1 > d.reach (k + 1)
  · rw [if_pos above, max_eq_left (by omega)]
    rcases left.state with ⟨s, points, -, way, stands, fewer⟩ | ⟨unreached, unset⟩
    · obtain ⟨e, added⟩ := stands.add room_left
      refine ⟨s, [.add e], points, way, .add e, ?_, by simpa using fewer⟩
      convert added using 1
      omega
    · rcases right.state with placed | blank
      · have inside := placed.inside
        omega
      · have zero := origin ⟨unreached, unset⟩ blank
        refine ⟨[], [], [], ?_, ?_, ?_, by simpa using few⟩
        · rw [unset]
          exact .start
        · rw [unset]
          exact .start
        · rw [unreached, zero]
          exact .nil
  · rw [if_neg above, max_eq_right (by omega)]
    rcases right.state with ⟨s, points, -, way, stands, fewer⟩ | ⟨unreached, unset⟩
    · obtain ⟨e, removed⟩ := stands.delete room_right
      refine ⟨s, [.delete e], points, way, .delete e, ?_, by simp; omega⟩
      convert removed using 1
      omega
    · rcases left.state with placed | blank
      · have inside := placed.inside
        omega
      · have unreached' := blank.1
        omega

variable [DecidableEq Elem]

private theorem snake_eq (shaped : Shaped d) (low : -(d.a.length : Int) ≤ k)
    (high : k ≤ d.b.length) {above below start : Int} {n : Nat} (greater : max above below = start)
    (run : runLength (suffixAt d.a (start - k)) (suffixAt d.b start) = n) :
    d.snake k above below = .ok ({ d with
      path := d.path.set (k + d.offset).toNat d.pathCordinates.length
      pathCordinates := d.pathCordinates ++ [{
        x := start + n - k
        y := start + n
        k := d.last (if above > below then k - 1 else k + 1) }] }, start + n) := by
  have offset := shaped.offset_eq
  have length := shaped.path_length
  have from_path : readAt d.path (if above > below then k - 1 + d.offset else k + 1 + d.offset) =
      .ok (d.last (if above > below then k - 1 else k + 1)) := by
    split
    · exact readAt_number (by omega) (by omega)
    · exact readAt_number (by omega) (by omega)
  subst greater run
  unfold Diff.snake
  rw [from_path, ok_bind]
  simp only
  rw [writeAt_ok (by omega) (by omega)]
  rfl

private theorem visit_eq (shaped : Shaped d) (low : -(d.a.length : Int) ≤ k)
    (high : k ≤ d.b.length) {start : Int} {n : Nat}
    (greater : max (d.reach (k - 1) + 1) (d.reach (k + 1)) = start)
    (run : runLength (suffixAt d.a (start - k)) (suffixAt d.b start) = n) :
    visit d k = .ok { d with
      fp := d.fp.set (k + d.offset).toNat (start + n)
      path := d.path.set (k + d.offset).toNat d.pathCordinates.length
      pathCordinates := d.pathCordinates ++ [{
        x := start + n - k
        y := start + n
        k := d.last (if d.reach (k - 1) + 1 > d.reach (k + 1) then k - 1 else k + 1) }] } := by
  have offset := shaped.offset_eq
  have length := shaped.fp_length
  have above : readAt d.fp (k - 1 + d.offset) = .ok (d.reach (k - 1)) :=
    readAt_number (by omega) (by omega)
  have below : readAt d.fp (k + 1 + d.offset) = .ok (d.reach (k + 1)) :=
    readAt_number (by omega) (by omega)
  unfold visit
  rw [above, ok_bind, below, ok_bind, snake_eq shaped low high greater run, ok_bind]
  simp only
  rw [writeAt_ok (by omega) (by omega)]
  rfl

theorem visit_spec (shaped : Shaped d) (low : -(d.a.length : Int) ≤ k) (high : k ≤ d.b.length)
    (few : 0 ≤ limit) (left : Side d (k - 1) limit) (right : Side d (k + 1) (limit - 1))
    (room_left : d.reach (k - 1) < d.b.length) (room_right : d.reach (k + 1) - (k + 1) < d.a.length)
    (origin : Blank d (k - 1) → Blank d (k + 1) → k = 0) :
    ∃ d', visit d k = .ok d' ∧ Visited d k limit d' := by
  have offset := shaped.offset_eq
  have fp_length := shaped.fp_length
  have path_length := shaped.path_length
  obtain ⟨s, hop, points, way, hops, stands, fewer⟩ :=
    start_spec few left right room_left room_right origin
  generalize greater : max (d.reach (k - 1) + 1) (d.reach (k + 1)) = start at stands
  obtain ⟨run, reached, maximal⟩ := stands.run rfl
  generalize length : runLength (suffixAt d.a (start - k)) (suffixAt d.b start) = n at reached maximal
  refine ⟨_, visit_eq shaped low high greater length, ?_⟩
  generalize (if d.reach (k - 1) + 1 > d.reach (k + 1) then k - 1 else k + 1) = parent at way hops ⊢
  generalize changed : ({ d with
      fp := d.fp.set (k + d.offset).toNat (start + n)
      path := d.path.set (k + d.offset).toNat d.pathCordinates.length
      pathCordinates := d.pathCordinates ++
        [{ x := start + n - k, y := start + n, k := d.last parent }] } : Diff Elem) = d'
  have reach_eq : ∀ j, d'.reach j = if j = k then start + n else d.reach j := by
    intro j
    rw [← changed]
    simp only [Diff.reach]
    rw [numberAt_set (by omega) (by omega)]
    exact if_congr (by omega) rfl rfl
  have last_eq : ∀ j, d'.last j = if j = k then (d.pathCordinates.length : Int) else d.last j := by
    intro j
    rw [← changed]
    simp only [Diff.last]
    rw [numberAt_set (by omega) (by omega)]
    exact if_congr (by omega) rfl rfl
  have here := reach_eq k
  rw [if_pos rfl] at here
  have inside := stands.inside
  constructor
  · exact ⟨_, _, _, List.length_set, List.length_set, changed.symm⟩
  · exact fun j other => (reach_eq j).trans (if_neg other)
  · exact fun j other => (last_eq j).trans (if_neg other)
  · refine ⟨s ++ hop ++ keepAll run, points ++ [{ x := start + n - k, y := start + n, k := d.last parent }],
      by simp, ?_, ?_, by simpa using fewer⟩
    · rw [last_eq, if_pos rfl, ← changed]
      have reached' : Stands d.a d.b (s ++ hop ++ keepAll run) (start + n - k) (start + n) := by
        convert reached using 1
        omega
      exact Way.next way.append (by omega) (by have := way.lt; omega) (by simp) rfl hops reached'
    · rw [here, ← changed]
      convert reached using 1
      omega
  · rw [here]
    exact left.bounds.step right.bounds (by omega) (by omega) (by omega) fun i j there on =>
      maximal.differ i j (by omega) there
  · omega
  · omega

end Visit

section Round

/-- How many deletions a way to the diagonal may have in round `p`. A way beyond `delta` has
to come back by deletions. -/
def budget (d : Diff Elem) (p k : Int) : Int := p - max 0 (k - d.delta)

/-- Round `p` is complete. -/
structure Frontier (d : Diff Elem) (p : Int) : Prop where
  shaped : Shaped d
  bounds : ∀ k, Bounds d.a d.b k (budget d p k) (d.reach k)
  placed : ∀ k, 0 ≤ p → -p ≤ k → k ≤ d.delta + p → Placed d k (budget d p k)
  blank : ∀ k, (p < 0 ∨ k < -p ∨ d.delta + p < k) → Blank d k

/-- No way has come to an end of a sequence. -/
def Short (d : Diff Elem) (p : Int) : Prop :=
  ∀ k, 0 ≤ p → -p ≤ k → k ≤ d.delta + p → d.reach k - k < d.a.length ∧ d.reach k < d.b.length

/-- Round `p`, after round `p - 1` has left `d₀`, when the diagonals in `done` have been visited. -/
structure Progress (d₀ : Diff Elem) (p : Int) (done : Int → Prop) (d : Diff Elem) : Prop where
  frame : ∃ fp path points, fp.length = d₀.fp.length ∧ path.length = d₀.path.length ∧
    d = { d₀ with fp := fp, path := path, pathCordinates := d₀.pathCordinates ++ points }
  rest : ∀ k, ¬ done k → d.reach k = d₀.reach k ∧ d.last k = d₀.last k
  bounds : ∀ k, done k → Bounds d.a d.b k (budget d p k) (d.reach k)
  placed : ∀ k, done k → Placed d k (budget d p k)
  ahead : ∀ k ≤ d.delta, done k → done (k - 1) → d.reach (k - 1) + 1 ≤ d.reach k
  back : ∀ k ≥ d.delta, done k → done (k + 1) → d.reach (k + 1) ≤ d.reach k

variable {d₀ d : Diff Elem} {p k : Int} {done : Int → Prop}

theorem Progress.start (d₀ : Diff Elem) (p : Int) : Progress d₀ p (fun _ => False) d₀ where
  frame := ⟨_, _, [], rfl, rfl, by simp⟩
  rest := fun _ _ => ⟨rfl, rfl⟩
  bounds := fun _ none => none.elim
  placed := fun _ none => none.elim
  ahead := fun _ _ none => none.elim
  back := fun _ _ none => none.elim

theorem Placed.not_blank {limit : Int} (placed : Placed d k limit) : ¬ Blank d k := by
  rintro ⟨unreached, -⟩
  have inside := placed.inside
  omega

theorem Frontier.side (frontier : Frontier d p) (k : Int) : Side d k (budget d p k) where
  bounds := frontier.bounds k
  state := by
    by_cases reached : 0 ≤ p ∧ -p ≤ k ∧ k ≤ d.delta + p
    · exact .inl (frontier.placed k reached.1 reached.2.1 reached.2.2)
    · exact .inr (frontier.blank k (by omega))

section Kept

variable {fp path : List Int} {points : List Point}

theorem Shaped.update (shaped : Shaped d) (fp_length : fp.length = d.fp.length)
    (path_length : path.length = d.path.length) :
    Shaped { d with fp := fp, path := path, pathCordinates := d.pathCordinates ++ points } where
  shorter := shaped.shorter
  delta_eq := shaped.delta_eq
  offset_eq := shaped.offset_eq
  fp_length := fp_length.trans shaped.fp_length
  path_length := path_length ▸ shaped.path_length

/-- A way stays when another diagonal is visited. -/
theorem Placed.update {limit : Int} (placed : Placed d k limit) {d' : Diff Elem}
    (frame : d' = { d with fp := fp, path := path, pathCordinates := d.pathCordinates ++ points })
    (reach : d'.reach k = d.reach k) (last : d'.last k = d.last k) : Placed d' k limit := by
  obtain ⟨s, points, some, way, stands, fewer⟩ := placed
  refine ⟨s, points, some, ?_, ?_, fewer⟩
  · rw [last, frame]
    exact way.append
  · rw [reach, frame]
    exact stands

end Kept

theorem Progress.shaped (progress : Progress d₀ p done d) (shaped : Shaped d₀) : Shaped d := by
  obtain ⟨fp, path, points, fp_length, path_length, rfl⟩ := progress.frame
  exact shaped.update fp_length path_length

theorem Progress.side_done (progress : Progress d₀ p done d) (visited : done k) :
    Side d k (budget d p k) := ⟨progress.bounds k visited, .inl (progress.placed k visited)⟩

theorem Progress.side_rest (progress : Progress d₀ p done d) {limit : Int} (unvisited : ¬ done k)
    (side : Side d₀ k limit) : Side d k limit := by
  obtain ⟨reach, last⟩ := progress.rest k unvisited
  obtain ⟨fp, path, points, -, -, frame⟩ := progress.frame
  constructor
  · rw [reach, frame]
    exact side.bounds
  · rcases side.state with placed | blank
    · exact .inl (placed.update frame reach last)
    · exact .inr ⟨reach.trans blank.1, last.trans blank.2⟩

variable [DecidableEq Elem]

theorem Progress.visit (progress : Progress d₀ p done d) (frontier : Frontier d₀ (p - 1))
    (short : Short d₀ (p - 1)) (first : 0 ≤ p) (fits : p ≤ d₀.a.length)
    (within : ∀ j, done j → -p ≤ j ∧ j ≤ d₀.delta + p) (low : -p ≤ k) (high : k ≤ d₀.delta + p)
    (before : (k ≤ d₀.delta ∧ (done (k - 1) ∨ k - 1 < -p)) ∨ (d₀.delta < k ∧ ¬ done (k - 1)))
    (after : (d₀.delta ≤ k ∧ (done (k + 1) ∨ d₀.delta + p < k + 1)) ∨
      (k < d₀.delta ∧ ¬ done (k + 1))) :
    ∃ d', Diff.visit d k = .ok d' ∧ Progress d₀ p (fun j => done j ∨ j = k) d' := by
  have shaped := progress.shaped frontier.shaped
  obtain ⟨fp, path, points, fp_length, path_length, frame⟩ := progress.frame
  have delta : d.delta = d₀.delta := by rw [frame]
  have lengths : d.a.length = d₀.a.length ∧ d.b.length = d₀.b.length := by simp [frame]
  have delta_eq := shaped.delta_eq
  have shorter := shaped.shorter
  have outside : ∀ j, j < -p ∨ d₀.delta + p < j → Blank d j := by
    intro j far
    obtain ⟨reach, last⟩ := progress.rest j fun visited => by
      have bounds := within j visited
      omega
    have blank := frontier.blank j (by omega)
    exact ⟨reach.trans blank.1, last.trans blank.2⟩
  have inner : ∀ j, ¬ done j → 1 ≤ p → -(p - 1) ≤ j → j ≤ d₀.delta + (p - 1) →
      ¬ Blank d j ∧ d.reach j - j < d.a.length ∧ d.reach j < d.b.length := by
    intro j unvisited later low high
    obtain ⟨reach, last⟩ := progress.rest j unvisited
    have placed := (frontier.placed j (by omega) low high).not_blank
    have room := short j (by omega) low high
    rw [← reach, ← lengths.1, ← lengths.2] at room
    refine ⟨fun blank => placed ⟨?_, ?_⟩, room⟩
    · exact reach ▸ blank.1
    · exact last ▸ blank.2
  have old : ∀ j, ¬ done j → Side d j (budget d (p - 1) j) := by
    intro j unvisited
    unfold budget
    rw [delta]
    exact progress.side_rest unvisited (frontier.side j)
  have left : Side d (k - 1) (budget d p k) ∧ d.reach (k - 1) < d.b.length ∧
      (Blank d (k - 1) → k = -p) := by
    rcases before with ⟨low', visited | first'⟩ | ⟨beyond, unvisited⟩
    · have placed := progress.placed _ visited
      have inside := placed.inside
      have side := progress.side_done visited
      rw [show budget d p (k - 1) = budget d p k by unfold budget; omega] at side
      exact ⟨side, by omega, fun blank => absurd blank placed.not_blank⟩
    · have blank := outside (k - 1) (.inl first')
      have unreached := blank.1
      exact ⟨⟨Bounds.of_lt (by unfold budget; omega), .inr blank⟩, by omega, fun _ => by omega⟩
    · have side := old _ unvisited
      have room := inner _ unvisited (by omega) (by omega) (by omega)
      rw [show budget d (p - 1) (k - 1) = budget d p k by unfold budget; omega] at side
      exact ⟨side, room.2.2, fun blank => absurd blank room.1⟩
  have right : Side d (k + 1) (budget d p k - 1) ∧ d.reach (k + 1) - (k + 1) < d.a.length ∧
      (Blank d (k + 1) → k = d₀.delta + p ∨ p = 0) := by
    rcases after with ⟨beyond, visited | last'⟩ | ⟨low', unvisited⟩
    · have placed := progress.placed _ visited
      have inside := placed.inside
      have side := progress.side_done visited
      rw [show budget d p (k + 1) = budget d p k - 1 by unfold budget; omega] at side
      exact ⟨side, by omega, fun blank => absurd blank placed.not_blank⟩
    · have blank := outside (k + 1) (.inr last')
      have unreached := blank.1
      exact ⟨⟨Bounds.of_neg (by unfold budget; omega), .inr blank⟩, by omega, fun _ => by omega⟩
    · have side := old _ unvisited
      rw [show budget d (p - 1) (k + 1) = budget d p k - 1 by unfold budget; omega] at side
      by_cases later : 1 ≤ p
      · have room := inner _ unvisited later (by omega) (by omega)
        exact ⟨side, room.2.1, fun blank => absurd blank room.1⟩
      · obtain ⟨reach, -⟩ := progress.rest _ unvisited
        have blank := frontier.blank (k + 1) (.inl (by omega))
        have unreached := reach.trans blank.1
        exact ⟨side, by omega, fun _ => .inr (by omega)⟩
  obtain ⟨d', visited, post⟩ := visit_spec shaped (by omega) (by omega)
    (by unfold budget; omega) left.1 right.1 left.2.1 right.2.1
    (fun above below => by have := left.2.2 above; have := right.2.2 below; omega)
  refine ⟨d', visited, ?_⟩
  obtain ⟨fp', path', point, fp_length', path_length', frame'⟩ := post.frame
  have whole : d'.a = d.a ∧ d'.b = d.b ∧ d'.delta = d.delta := by
    rw [frame']
    exact ⟨rfl, rfl, rfl⟩
  constructor
  · refine ⟨fp', path', points ++ [point], ?_, ?_, ?_⟩
    · rw [fp_length', frame, fp_length]
    · rw [path_length', frame, path_length]
    · rw [frame', frame]
      simp
  · intro j unvisited
    have other : j ≠ k := fun same => unvisited (.inr same)
    obtain ⟨reach, last⟩ := progress.rest j fun old => unvisited (.inl old)
    exact ⟨(post.reach_ne j other).trans reach, (post.last_ne j other).trans last⟩
  · intro j visited
    rw [whole.1, whole.2.1, budget, whole.2.2]
    by_cases same : j = k
    · rw [same]
      exact post.bounds
    · rw [post.reach_ne j same]
      exact progress.bounds j (visited.resolve_right same)
  · intro j visited
    rw [budget, whole.2.2]
    by_cases same : j = k
    · rw [same]
      exact post.placed
    · exact (progress.placed j (visited.resolve_right same)).update frame' (post.reach_ne j same)
        (post.last_ne j same)
  · intro j below visited visited'
    by_cases same : j = k
    · rw [same, post.reach_ne (k - 1) (by omega)]
      exact post.left
    · have other : j - 1 ≠ k := by
        rintro rfl
        rw [Int.sub_add_cancel] at after
        have old := visited.resolve_right same
        rcases after with ⟨beyond, -⟩ | ⟨-, unvisited⟩
        · omega
        · exact unvisited old
      rw [post.reach_ne j same, post.reach_ne (j - 1) other]
      exact progress.ahead j (by omega) (visited.resolve_right same) (visited'.resolve_right other)
  · intro j below visited visited'
    by_cases same : j = k
    · rw [same, post.reach_ne (k + 1) (by omega)]
      exact post.right
    · have other : j + 1 ≠ k := by
        rintro rfl
        rw [Int.add_sub_cancel] at before
        have old := visited.resolve_right same
        rcases before with ⟨beyond, -⟩ | ⟨-, unvisited⟩
        · omega
        · exact unvisited old
      rw [post.reach_ne j same, post.reach_ne (j + 1) other]
      exact progress.back j (by omega) (visited.resolve_right same) (visited'.resolve_right other)

omit [DecidableEq Elem] in
theorem Progress.congr {done' : Int → Prop} (progress : Progress d₀ p done d)
    (same : ∀ k, done k ↔ done' k) : Progress d₀ p done' d := by
  have equal : done = done' := funext fun k => propext (same k)
  exact equal ▸ progress

/-- A loop over diagonals, if each pass can go on. -/
private theorem loop_spec {done : Nat → Int → Prop} {diagonal : Nat → Int} (n : Nat)
    (start : Progress d₀ p (done 0) d)
    (pass : ∀ i d, i < n → Progress d₀ p (done i) d →
      ∃ d', Diff.visit d (diagonal i) = .ok d' ∧
        Progress d₀ p (fun k => done i k ∨ k = diagonal i) d')
    (next : ∀ i k, i < n → (done i k ∨ k = diagonal i ↔ done (i + 1) k)) :
    ∃ d', ((List.range n).map diagonal).foldlM Diff.visit d = .ok d' ∧
      Progress d₀ p (done n) d' := by
  induction n with
  | zero => exact ⟨d, rfl, start⟩
  | succ n ih =>
      obtain ⟨d', before, progress⟩ := ih (fun i d small => pass i d (by omega))
        fun i k small => next i k (by omega)
      obtain ⟨d'', visited, progress⟩ := pass n d' (Nat.lt_succ_self n) progress
      refine ⟨d'', ?_, progress.congr fun k => next n k (Nat.lt_succ_self n)⟩
      rw [List.range_succ, List.map_append, List.foldlM_append, before, ok_bind, List.map_cons,
        List.foldlM_cons, visited]
      rfl

theorem round_progress (frontier : Frontier d₀ (p - 1)) (short : Short d₀ (p - 1)) (first : 0 ≤ p)
    (fits : p ≤ d₀.a.length) : ∃ d, (diagonals d₀.delta p).foldlM Diff.visit d₀ = .ok d ∧
      Progress d₀ p (fun k => -p ≤ k ∧ k ≤ d₀.delta + p) d := by
  have delta_eq := frontier.shaped.delta_eq
  have shorter := frontier.shaped.shorter
  have low := @loop_spec _ d₀ d₀ p _ (fun i k => -p ≤ k ∧ k < -p + i) (fun i => -p + i)
    (d₀.delta + p).toNat ((Progress.start d₀ p).congr fun k => by simp)
    (fun i d small progress => progress.visit frontier short first fits (by omega) (by omega)
      (by omega) (by omega) (by omega))
    (fun i k small => by omega)
  obtain ⟨d₁, before, progress⟩ := low
  have high := @loop_spec _ d₀ d₁ p _
    (fun i k => (-p ≤ k ∧ k < d₀.delta) ∨ (d₀.delta + p - i < k ∧ k ≤ d₀.delta + p))
    (fun i => d₀.delta + p - i) p.toNat (progress.congr fun k => by omega)
    (fun i d small progress => progress.visit frontier short first fits (by omega) (by omega)
      (by omega) (by omega) (by omega))
    (fun i k small => by omega)
  obtain ⟨d₂, later, progress⟩ := high
  obtain ⟨d₃, last, progress⟩ := progress.visit (k := d₀.delta) frontier short first fits (by omega)
    (by omega) (by omega) (by omega) (by omega)
  refine ⟨d₃, ?_, progress.congr fun k => by omega⟩
  rw [diagonals, List.foldlM_append, List.foldlM_append, before, ok_bind, later, ok_bind,
    List.foldlM_cons, last]
  rfl

omit [DecidableEq Elem] in
theorem Progress.frontier (progress : Progress d₀ p (fun k => -p ≤ k ∧ k ≤ d₀.delta + p) d)
    (frontier : Frontier d₀ (p - 1)) (first : 0 ≤ p) : Frontier d p := by
  have delta : d.delta = d₀.delta := by
    obtain ⟨fp, path, points, -, -, frame⟩ := progress.frame
    rw [frame]
  refine ⟨progress.shaped frontier.shaped, fun k => ?_, fun k _ low high => ?_, fun k far => ?_⟩
  · by_cases below : k < -p
    · exact Bounds.of_lt (by unfold budget; omega)
    · by_cases beyond : d₀.delta + p < k
      · exact Bounds.of_neg (by unfold budget; omega)
      · exact progress.bounds k ⟨by omega, by omega⟩
  · exact progress.placed k ⟨low, by omega⟩
  · obtain ⟨reach, last⟩ := progress.rest k (by omega)
    have blank := frontier.blank k (by omega)
    exact ⟨reach.trans blank.1, last.trans blank.2⟩

omit [DecidableEq Elem] in
/-- A round in which `delta` is not reached to its end comes to no end on any diagonal, since
an end would have been passed on to `delta`. -/
theorem Progress.short (progress : Progress d₀ p (fun k => -p ≤ k ∧ k ≤ d₀.delta + p) d)
    (shaped : Shaped d) (first : 0 ≤ p) (unfinished : d.reach d.delta ≠ d.b.length) : Short d p := by
  have delta : d.delta = d₀.delta := by
    obtain ⟨fp, path, points, -, -, frame⟩ := progress.frame
    rw [frame]
  have delta_eq := shaped.delta_eq
  have shorter := shaped.shorter
  have inside := (progress.placed d.delta ⟨by omega, by omega⟩).inside
  have up : ∀ n : Nat, -p ≤ d.delta - n → d.reach (d.delta - n) + n ≤ d.reach d.delta := by
    intro n
    induction n with
    | zero => simp
    | succ n ih =>
        intro low
        have step := progress.ahead (d.delta - n) (by omega) ⟨by omega, by omega⟩
          ⟨by omega, by omega⟩
        have earlier := ih (by omega)
        rw [show d.delta - (n : Int) - 1 = d.delta - (n + 1 : Nat) by omega] at step
        omega
  have down : ∀ n : Nat, d.delta + n ≤ d.delta + p → d.reach (d.delta + n) ≤ d.reach d.delta := by
    intro n
    induction n with
    | zero => simp
    | succ n ih =>
        intro high
        have step := progress.back (d.delta + n) (by omega) ⟨by omega, by omega⟩
          ⟨by omega, by omega⟩
        have earlier := ih (by omega)
        rw [show d.delta + (n : Int) + 1 = d.delta + (n + 1 : Nat) by omega] at step
        omega
  intro k _ low high
  by_cases below : k ≤ d.delta
  · have climbed := up (d.delta - k).toNat (by omega)
    rw [show d.delta - ((d.delta - k).toNat : Int) = k by omega] at climbed
    omega
  · have climbed := down (k - d.delta).toNat (by omega)
    rw [show d.delta + ((k - d.delta).toNat : Int) = k by omega] at climbed
    omega

end Round

section Onp

variable {d : Diff Elem} {p : Int}

/-- No way with fewer deletions than `p` leads to the end. -/
def Least (d : Diff Elem) (p : Int) : Prop :=
  ∀ n, Path d.a d.b d.a.length d.b.length n → p ≤ n

/-- How the search ends: at the end of both sequences with as few deletions as possible, or with
too many coordinates. -/
structure Found (d : Diff Elem) (p : Int) (d' : Diff Elem) : Prop where
  frame : ∃ fp path points, fp.length = d.fp.length ∧ path.length = d.path.length ∧
    d' = { d with fp := fp, path := path, pathCordinates := points }
  least : Least d p
  placed : Placed d' d.delta p
  bounds : Bounds d.a d.b d.delta p (d'.reach d.delta)
  complete : d'.reach d.delta = d.b.length ∨
    d'.reach d.delta < d.b.length ∧ 0 < d'.reach d.delta ∧
      maxCordinatesSize ≤ d.a.length * d.b.length

/-- The search goes on after a round. -/
theorem Found.after {fp path : List Int} {points : List Point} {d' : Diff Elem}
    (fp_length : fp.length = d.fp.length) (path_length : path.length = d.path.length)
    (found : Found { d with fp := fp, path := path, pathCordinates := points } p d') :
    Found d p d' := by
  obtain ⟨⟨fp', path', points', fp_length', path_length', frame⟩, least, placed, bounds, complete⟩ :=
    found
  exact ⟨⟨fp', path', points', fp_length'.trans fp_length, path_length'.trans path_length, frame⟩,
    least, placed, bounds, complete⟩

variable [DecidableEq Elem]

theorem visit_count {k : Int} {d' : Diff Elem} (visited : visit d k = .ok d') :
    d'.pathCordinates.length = d.pathCordinates.length + 1 := by
  unfold visit snake at visited
  obtain ⟨above, -, visited⟩ := bind_ok visited
  obtain ⟨below, -, visited⟩ := bind_ok visited
  obtain ⟨⟨d₁, y⟩, snaked, visited⟩ := bind_ok visited
  obtain ⟨r, -, snaked⟩ := bind_ok snaked
  obtain ⟨path, -, snaked⟩ := bind_ok snaked
  cases snaked
  obtain ⟨fp, -, visited⟩ := bind_ok visited
  cases visited
  simp

theorem foldlM_visit_count {ks : List Int} {d' : Diff Elem} (visited : ks.foldlM visit d = .ok d') :
    d'.pathCordinates.length = d.pathCordinates.length + ks.length := by
  induction ks generalizing d with
  | nil =>
      cases visited
      rfl
  | cons k ks ih =>
      rw [List.foldlM_cons] at visited
      obtain ⟨d₁, first, later⟩ := bind_ok visited
      rw [ih later, visit_count first, List.length_cons]
      omega

theorem length_diagonals {delta : Int} (positive : 0 ≤ delta) (first : 0 ≤ p) :
    ((diagonals delta p).length : Int) = delta + 2 * p + 1 := by
  simp [diagonals]
  omega

omit [DecidableEq Elem] in
theorem Frontier.reach_delta (frontier : Frontier d p) (first : 0 ≤ p) {n : Nat}
    (path : Path d.a d.b d.a.length d.b.length n) (few : n ≤ p) : d.reach d.delta = d.b.length := by
  have delta_eq := frontier.shaped.delta_eq
  have shorter := frontier.shaped.shorter
  have far := frontier.bounds d.delta _ _ n path (by omega) (by unfold budget; omega)
  have inside := (frontier.placed d.delta first (by omega) (by omega)).inside
  omega

/-- The area that has been searched after round `p`. -/
private theorem area_succ (delta p : Int) : (p + 1) * (delta + p + 1) + (delta + 2 * (p + 1) + 1) =
    (p + 1 + 1) * (delta + (p + 1) + 1) := by ring

theorem onp_spec (fuel : Nat) (frontier : Frontier d p) (short : Short d p) (least : Least d (p + 1))
    (first : -1 ≤ p) (enough : d.a.length ≤ fuel + p)
    (count : (d.pathCordinates.length : Int) = (p + 1) * (d.delta + p + 1)) :
    ∃ p' d', onp fuel p d = .ok (p', d') ∧ Found d p' d' := by
  induction fuel generalizing p d with
  | zero =>
      have fewest := least _ Path.through
      omega
  | succ fuel ih =>
      have shaped := frontier.shaped
      have delta_eq := shaped.delta_eq
      have shorter := shaped.shorter
      have fits := least _ Path.through
      have before : p + 1 - 1 = p := by omega
      obtain ⟨d', visited, progress⟩ := round_progress (before.symm ▸ frontier)
        (before.symm ▸ short) (by omega) fits
      have frontier' := progress.frontier (before.symm ▸ frontier) (by omega)
      obtain ⟨fp, path, points, fp_length, path_length, frame⟩ := progress.frame
      have whole : d'.a = d.a ∧ d'.b = d.b ∧ d'.delta = d.delta := by
        rw [frame]
        exact ⟨rfl, rfl, rfl⟩
      have shaped' := frontier'.shaped
      have placed := progress.placed d.delta ⟨by omega, by omega⟩
      have inside := placed.inside
      have reached : readAt d'.fp (d'.delta + d'.offset) = .ok (d'.reach d.delta) := by
        have offset_eq := shaped'.offset_eq
        have fp_length := shaped'.fp_length
        rw [whole.1] at offset_eq
        rw [whole.1, whole.2.1] at fp_length
        rw [whole.2.2, readAt_number (by omega) (by omega)]
        rfl
      have counted := foldlM_visit_count visited
      have length := length_diagonals (show 0 ≤ d.delta by omega) (show 0 ≤ p + 1 by omega)
      have area := area_succ d.delta p
      rw [onp]
      simp only [visited, ok_bind, reached]
      have fewest : Placed d' d.delta (p + 1) := by
        rwa [show budget d' (p + 1) d.delta = p + 1 by unfold budget; omega] at placed
      have farthest : Bounds d.a d.b d.delta (p + 1) (d'.reach d.delta) := by
        have bounds := frontier'.bounds d.delta
        rwa [whole.1, whole.2.1, show budget d' (p + 1) d.delta = p + 1 by unfold budget; omega]
          at bounds
      by_cases complete : d'.reach d.delta = d'.b.length
      · rw [if_neg fun more => more.1 complete]
        exact ⟨_, _, rfl, ⟨fp, path, _, fp_length, path_length, frame⟩, least, fewest, farthest,
          .inl (by rw [complete, whole.2.1])⟩
      · have short' := progress.short shaped' (by omega) (by rw [whole.2.2]; exact complete)
        have further : Least d (p + 1 + 1) := by
          intro n path
          by_contra few
          rw [← whole.1, ← whole.2.1] at path
          have finished := frontier'.reach_delta (by omega) path (by omega)
          rw [whole.2.2] at finished
          exact complete finished
        by_cases room : d'.pathCordinates.length < maxCordinatesSize
        · rw [if_pos ⟨complete, room⟩]
          subst frame
          obtain ⟨p', d'', success, found⟩ := ih frontier' short' further (by omega)
            (by simp only; omega) (by simp only at counted ⊢; omega)
          exact ⟨p', d'', success, found.after fp_length path_length⟩
        · rw [if_neg fun more => room more.2]
          refine ⟨_, _, rfl, ⟨fp, path, _, fp_length, path_length, frame⟩, least, fewest, farthest,
            .inr ⟨?_, ?_, ?_⟩⟩
          · rw [whole.2.1] at complete inside
            omega
          · have many : 1 ≤ maxCordinatesSize - 1 := by decide
            by_cases later : 0 ≤ p
            · have step := progress.ahead d.delta (by omega) ⟨by omega, by omega⟩
                ⟨by omega, by omega⟩
              have inside' := (progress.placed (d.delta - 1) ⟨by omega, by omega⟩).inside
              omega
            · obtain rfl : p = -1 := by omega
              simp only [Int.reduceNeg, Int.reduceAdd, zero_mul] at count
              omega
          · have rounds := further _ Path.through
            have product : (p + 1 + 1) * (d.delta + (p + 1) + 1) ≤ (d.a.length : Int) * d.b.length :=
              Int.mul_le_mul (by omega) (by omega) (by omega) (by omega)
            have enough : (maxCordinatesSize : Int) ≤ (d.a.length * d.b.length : Nat) := by
              rw [Nat.cast_mul]
              omega
            exact Int.ofNat_le.mp enough

/-- Nothing has been searched yet. -/
structure Unsearched (d : Diff Elem) : Prop where
  shaped : Shaped d
  fp : ∃ n, d.fp = List.replicate n (-1)
  path : ∃ n, d.path = List.replicate n (-1)
  pathCordinates : d.pathCordinates = []

omit [DecidableEq Elem] in
theorem Unsearched.frontier (unsearched : Unsearched d) : Frontier d (-1) where
  shaped := unsearched.shaped
  bounds k := by
    by_cases below : k ≤ d.delta
    · exact Bounds.of_neg (by unfold budget; omega)
    · exact Bounds.of_neg (by unfold budget; omega)
  placed := by
    intro k first
    omega
  blank := by
    intro k _
    obtain ⟨n, fp⟩ := unsearched.fp
    obtain ⟨m, path⟩ := unsearched.path
    rw [Blank, reach, last, fp, path]
    exact ⟨numberAt_replicate n, numberAt_replicate m⟩

theorem Unsearched.onp_spec (unsearched : Unsearched d) :
    ∃ p d', onp (d.a.length + 1) (-1) d = .ok (p, d') ∧ Found d p d' := by
  refine Dtl.onp_spec _ unsearched.frontier ?_ ?_ (by omega) (by omega) ?_
  · intro k first
    omega
  · intro n path
    omega
  · simp [unsearched.pathCordinates]

end Onp

end Firestr.Dtl
