import Firestr.Util.Dbc

/-! The difference of two sequences, by the O(NP) algorithm. Round after round
it comes further on each diagonal of the grid of the two, and records how it
came there. The edit script is read off the way to the last corner. -/

set_option autoImplicit false

namespace Firestr.Dtl

open Firestr.Util

/-- The type of an edit: `SES_DELETE`, `SES_COMMON` or `SES_ADD`. -/
inductive EditType where
  | delete
  | common
  | add
  deriving DecidableEq, Repr

structure ElemInfo where
  beforeIdx : Int
  afterIdx : Int
  type : EditType
  deriving DecidableEq, Repr

abbrev SesElem (Elem : Type) := Elem × ElemInfo

/-- A point that was reached on a diagonal, and the number of the one before it. -/
structure Point where
  x : Int
  y : Int
  k : Int
  deriving DecidableEq, Repr

/-- `MAX_CORDINATES_SIZE`. -/
def maxCordinatesSize : Nat := 2000000

section Vector

variable {Item : Type}

/-- `v[i]`, which has to be inside. -/
def readAt (v : List Item) (i : Int) : Outcome Item :=
  if i < 0 then .error .dangling
  else match v[i.toNat]? with
    | some item => .ok item
    | none => .error .dangling

def writeAt (v : List Item) (i : Int) (item : Item) : Outcome (List Item) :=
  if 0 ≤ i ∧ i < v.length then .ok (v.set i.toNat item) else .error .dangling

/-- The items from an iterator on, which has to be inside or at the end. -/
def dropAt (v : List Item) (i : Int) : Outcome (List Item) :=
  if 0 ≤ i ∧ i ≤ v.length then .ok (v.drop i.toNat) else .error .dangling

end Vector

structure Diff (Elem : Type) where
  a : List Elem
  b : List Elem
  delta : Int
  offset : Int
  fp : List Int := []
  editDistance : Int := 0
  lcs : List Elem := []
  ses : List (SesElem Elem) := []
  path : List Int := []
  pathCordinates : List Point := []
  swapped : Bool

variable {Elem : Type}

namespace Diff

/-- `init`, after which `a` is not the longer one. -/
def new (a b : List Elem) : Diff Elem :=
  if a.length < b.length then
    { a := a, b := b, swapped := false, delta := b.length - a.length, offset := a.length + 1 }
  else
    { a := b, b := a, swapped := true, delta := a.length - b.length, offset := b.length + 1 }

section Search

variable [DecidableEq Elem]

/-- How many items two sequences have in common at their start. -/
def runLength : List Elem → List Elem → Nat
  | x :: xs, y :: ys => if x = y then runLength xs ys + 1 else 0
  | _, _ => 0

/-- The items from an index on. A negative one is too large as `size_t`. -/
def suffixAt (v : List Elem) (i : Int) : List Elem := if i < 0 then [] else v.drop i.toNat

def snake (d : Diff Elem) (k above below : Int) : Outcome (Diff Elem × Int) := do
  let r ← readAt d.path (if above > below then k - 1 + d.offset else k + 1 + d.offset)
  let start := max above below
  let run := runLength (suffixAt d.a (start - k)) (suffixAt d.b start)
  let y := start + run
  let path ← writeAt d.path (k + d.offset) d.pathCordinates.length
  let point : Point := { x := y - k, y := y, k := r }
  pure ({ d with path := path, pathCordinates := d.pathCordinates ++ [point] }, y)

/-- The body of the loops over the diagonals. -/
def visit (d : Diff Elem) (k : Int) : Outcome (Diff Elem) := do
  let above ← readAt d.fp (k - 1 + d.offset)
  let below ← readAt d.fp (k + 1 + d.offset)
  let (d, y) ← d.snake k (above + 1) below
  let fp ← writeAt d.fp (k + d.offset) y
  pure { d with fp := fp }

/-- The diagonals below `delta` from `-p` on, those above it from `delta + p` down, and `delta`. -/
def diagonals (delta p : Int) : List Int :=
  (List.range (delta + p).toNat).map (fun i : Nat => -p + i) ++
    (List.range p.toNat).map (fun i : Nat => delta + p - i) ++ [delta]

/-- The `do` loop at `ONP`, from the round after `p` on. -/
def onp : Nat → Int → Diff Elem → Outcome (Int × Diff Elem)
  | 0, _, _ => .error .diverged
  | fuel + 1, p, d => do
    let p := p + 1
    let d ← (diagonals d.delta p).foldlM visit d
    let reached ← readAt d.fp (d.delta + d.offset)
    if reached ≠ d.b.length ∧ d.pathCordinates.length < maxCordinatesSize then onp fuel p d
    else pure (p, d)

end Search

section Record

/-- The points on the way back from the one with number `r`. -/
def trace (cordinates : List Point) : Nat → Int → List Point → Outcome (List Point)
  | fuel, r, epc =>
    if r = -1 then pure epc
    else match fuel with
      | 0 => .error .diverged
      | fuel + 1 => do
        let cordinate ← readAt cordinates r
        trace cordinates fuel cordinate.k (epc ++ [cordinate])

def addSequence (d : Diff Elem) (e : Elem) (beforeIdx afterIdx : Int) (type : EditType) :
    Diff Elem :=
  { d with ses := d.ses ++ [(e, { beforeIdx := beforeIdx, afterIdx := afterIdx, type := type })] }

/-- How far `recordSequence` has come. The iterators `x` and `y` and the line numbers `x_idx`
and `y_idx` follow from the two coordinates. -/
structure Cursor (Elem : Type) where
  px : Int := 0
  py : Int := 0
  d : Diff Elem

/-- One pass of the inner loop of `recordSequence`. -/
def recordStep (v : Point) (c : Cursor Elem) : Outcome (Cursor Elem) :=
  if v.y - v.x > c.py - c.px then do
    let e ← readAt c.d.b c.py
    let d := if !c.d.swapped then c.d.addSequence e 0 (c.py + 1) .add
      else c.d.addSequence e (c.py + 1) 0 .delete
    pure { px := c.px, py := c.py + 1, d := d }
  else if v.y - v.x < c.py - c.px then do
    let e ← readAt c.d.a c.px
    let d := if !c.d.swapped then c.d.addSequence e (c.px + 1) 0 .delete
      else c.d.addSequence e 0 (c.px + 1) .add
    pure { px := c.px + 1, py := c.py, d := d }
  else do
    let e ← if !c.d.swapped then readAt c.d.a c.px else readAt c.d.b c.py
    let d := if !c.d.swapped then c.d.addSequence e (c.px + 1) (c.py + 1) .common
      else c.d.addSequence e (c.py + 1) (c.px + 1) .common
    pure { px := c.px + 1, py := c.py + 1, d := { d with lcs := d.lcs ++ [e] } }

def recordTo : Nat → Point → Cursor Elem → Outcome (Cursor Elem)
  | fuel, v, c =>
    if c.px < v.x ∨ c.py < v.y then
      match fuel with
      | 0 => .error .diverged
      | fuel + 1 => do
        let c ← recordStep v c
        recordTo fuel v c
    else pure c

def recordSequence (d : Diff Elem) (v : List Point) : Outcome (Bool × Diff Elem) := do
  if v.isEmpty then .error .dangling
  else
    let c ← v.reverse.foldlM (fun c v =>
      recordTo ((v.x - c.px).toNat + (v.y - c.py).toNat) v c) { d := d }
    let d := c.d
    if c.px + 1 > d.a.length ∧ c.py + 1 > d.b.length then pure (true, d)
    else do
      let a ← dropAt d.a c.px
      let b ← dropAt d.b c.py
      pure (false, { d with
        a := a
        b := b
        delta := b.length - a.length
        offset := a.length + 1
        fp := List.replicate (a.length + b.length + 3) (-1)
        path := List.replicate d.path.length (-1) })

end Record

variable [DecidableEq Elem]

/-- `compose` from `ONP` on. When there are too many coordinates, what has been found is
recorded, and the search starts anew with what is left. -/
def composeFrom : Nat → Diff Elem → Outcome (Diff Elem)
  | 0, _ => .error .diverged
  | fuel + 1, d => do
    let (p, d) ← onp (d.a.length + 1) (-1) d
    let d := { d with editDistance := d.editDistance + (d.delta + 2 * p) }
    let r ← readAt d.path (d.delta + d.offset)
    let epc ← trace d.pathCordinates d.pathCordinates.length r []
    let (complete, d) ← d.recordSequence epc
    if complete then pure d else composeFrom fuel { d with pathCordinates := [] }

def compose (d : Diff Elem) : Outcome (Diff Elem) :=
  composeFrom (d.a.length + d.b.length + 1) { d with
    fp := List.replicate (d.a.length + d.b.length + 3) (-1)
    path := List.replicate (d.a.length + d.b.length + 3) (-1) }

/-- `patch`, with the items before the iterator and those from it on. -/
def patchFrom : List (SesElem Elem) → List Elem → List Elem → Outcome (List Elem)
  | [], done, rest => pure (done ++ rest)
  | (e, info) :: ses, done, rest =>
    match info.type, rest with
    | .add, _ => patchFrom ses (done ++ [e]) rest
    | .delete, _ :: rest => patchFrom ses done rest
    | .common, x :: rest => patchFrom ses (done ++ [x]) rest
    | .delete, [] | .common, [] => .error .dangling

def patch (d : Diff Elem) (seq : List Elem) : Outcome (List Elem) := patchFrom d.ses [] seq

end Diff

end Firestr.Dtl
