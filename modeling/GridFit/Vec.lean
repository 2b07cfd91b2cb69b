import GridFit.Fixed

/-!
# Points and unit vectors

A `Point` is a pair of 26.6 coordinates (or of font units, before scaling). A `Vec` is a direction
whose components are 2.14 numbers.
-/

namespace GridFit

inductive Axis where
  | x
  | y
deriving DecidableEq, Repr

/-- A pair of coordinates. -/
structure Point where
  x : Int32 := 0
  y : Int32 := 0
deriving DecidableEq, Repr, Inhabited

namespace Point

instance : Add Point := ⟨fun p q => ⟨p.x + q.x, p.y + q.y⟩⟩

instance : Sub Point := ⟨fun p q => ⟨p.x - q.x, p.y - q.y⟩⟩

def coord (p : Point) : Axis → Int32
  | .x => p.x
  | .y => p.y

def withCoord (p : Point) (a : Axis) (v : Int32) : Point :=
  match a with
  | .x => { p with x := v }
  | .y => { p with y := v }

end Point

/-- A direction, in 2.14. -/
structure Vec where
  x : Int32
  y : Int32
deriving DecidableEq, Repr, Inhabited

namespace Vec

def xAxis : Vec := ⟨0x4000, 0⟩

def yAxis : Vec := ⟨0, 0x4000⟩

def ofAxis : Axis → Vec
  | .x => xAxis
  | .y => yAxis

def dot (v : Vec) (p : Point) : Int32 := Fixed.dot14 p.x p.y v.x v.y

def along (v : Vec) (d : Int32) : Point := ⟨Fixed.mul14 d v.x, Fixed.mul14 d v.y⟩

/-- The length of `(p, q)`. The larger magnitude is factored out, so that no square overflows. -/
def length (p q : Float) : Float :=
  let p := p.abs
  let q := q.abs
  let big := if p < q then q else p
  let small := if p < q then p else q
  if big == 0 then 0
  else
    let r := small / big
    big * Float.sqrt (1 + r * r)

/-- The integer nearest to `f`, with halves away from zero. -/
def nearest (f : Float) : Int32 := (if f ≥ 0 then f + 0.5 else f - 0.5).toInt32

/-- The unit vector in the direction of `(x, y)`. The zero vector gives the x axis. -/
def normalize (x y : Int32) : Vec :=
  if x = 0 ∧ y = 0 then xAxis
  else
    let fx := x.toFloat
    let fy := y.toFloat
    let l := 0x4000 / length fx fy
    ⟨nearest (fx * l), nearest (fy * l)⟩

/-- The unit vector from `a` to `b`, turned by 90 degrees counter-clockwise if `perpendicular`.
Coincident points give the x axis. -/
def ofLine (a b : Point) (perpendicular : Bool) : Vec :=
  let d := b - a
  if d.x = 0 ∧ d.y = 0 then xAxis
  else if perpendicular then normalize (-d.y) d.x
  else normalize d.x d.y

end Vec

end GridFit
