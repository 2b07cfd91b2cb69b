import GridFit.Graphics

/-!
# Moving points

How a point of a zone moves under a graphics state. With backward compatibility points do not move
horizontally, and not at all once the outline is frozen.
-/

namespace GridFit.ZoneM

/-- Moves a point by `d`, along the axes in which the freedom vector points, and marks it if
`mark`. -/
def shift (g : Graphics) (i : Nat) (d : Point) (mark : Bool) : ZoneM Unit := do
  check i
  if g.fv.x ≠ 0 then
    if !g.backwardCompatible then modifyPoint i fun p => { p with x := p.x + d.x }
    if mark then touch i .touchedX
  if g.fv.y ≠ 0 then
    if !g.isFrozen then modifyPoint i fun p => { p with y := p.y + d.y }
    if mark then touch i .touchedY

/-- Moves a point along the freedom vector so that its projection changes by `distance`, and marks
it. -/
def move (g : Graphics) (i : Nat) (distance : Int32) : ZoneM Unit :=
  shift g i (g.displacement distance) true

/-- Moves the scaled position of a point like `move`, without a mark. -/
def moveScaled (g : Graphics) (i : Nat) (distance : Int32) : ZoneM Unit := do
  let _ ← scaled i
  let d := g.displacement distance
  if g.fv.x ≠ 0 then modifyScaled i fun p => { p with x := p.x + d.x }
  if g.fv.y ≠ 0 then modifyScaled i fun p => { p with y := p.y + d.y }

/-- Puts the hinted position of a point at its scaled position. -/
def resetPoint (i : Nat) : ZoneM Unit := do
  let p ← scaledAt i
  modifyPoint i fun _ => p

def place (i : Nat) (p : Point) : ZoneM Unit := do
  modifyScaled i fun _ => p
  modifyPoint i fun _ => p

end GridFit.ZoneM
