import GridFit.Instruction
import GridFit.Machine.Measurement

/-!
# Placing points

Instructions that move a point to a place: to a rounded position, to a control value, to a distance
from a reference point, onto a line, or between two others.
-/

namespace GridFit.Exec

def setAbsoluteReferences (p : Nat) : Exec Unit :=
  modifyGraphics fun g => { g with rp0 := p, rp1 := p }

/-- Sets the reference points after a move relative to reference point 0. -/
def setRelativeReferences (p : Nat) (setsReference : Bool) : Exec Unit :=
  modifyGraphics fun g =>
    { g with rp0 := if setsReference then p else g.rp0, rp1 := g.rp0, rp2 := p }

/-- Pops a point and touches it, after rounding its projection if `rounds`. -/
def moveDirectAbsolute (rounds : Bool) : Exec Unit := do
  let p ← popIndex
  let g ← graphics
  onZone g.zp0 do
    let cur := g.pv.dot (← ZoneM.point p)
    ZoneM.move g p (if rounds then g.round.round cur - cur else 0)
  setAbsoluteReferences p

/-- Pops a control value index and a point, and moves the point to the control value. If `rounds`, a
value too far from the current projection is ignored and the result is rounded. -/
def moveIndirectAbsolute (rounds : Bool) : Exec Unit := do
  let n ← popIndex
  let p ← popIndex
  let v ← controlValue n
  let g ← graphics
  onZone g.zp0 do
    ZoneM.check p
    if g.zp0 = .twilight then ZoneM.place p (g.fv.along v)
    let cur := g.pv.dot (← ZoneM.pointAt p)
    let near := if g.cutIn < Fixed.magnitude (v - cur) then cur else v
    ZoneM.move g p ((if rounds then g.round.round near else v) - cur)
  setAbsoluteReferences p

/-- The distance at which a relative move puts a point, from its distance before rounding. -/
def finalDistance (g : Graphics) (m : RelativeMove) (unhinted distance : Int32) : Int32 :=
  let distance := if m.rounds then g.round.round distance else distance
  if m.keepsMinimum then g.keepMinimum unhinted distance else distance

/-- Pops a point and moves it to its unhinted distance from reference point 0. -/
def moveDirectRelative (m : RelativeMove) : Exec Unit := do
  let p ← popIndex
  let g ← graphics
  let ref ← onZone g.zp0 (ZoneM.point g.rp0)
  let c ← onZone g.zp1 (ZoneM.point p)
  let unhinted := g.snapToSingleWidth (← unhintedDistance g.zp1 p g.zp0 g.rp0)
  onZone g.zp1 (ZoneM.move g p (finalDistance g m unhinted unhinted - g.project c ref))
  setRelativeReferences p m.setsReference

/-- The control value at `n`, where -1 stands for the distance zero. -/
def controlDistance (n : Int32) : Exec Int32 :=
  if n = -1 then pure 0 else controlValue n.toInt

/-- The control distance that a relative move aims at. Its sign follows the unhinted distance if the
state says so; a rounded distance too far from the unhinted one gives way to it, unless the points
are in different zones. -/
def aimedDistance (g : Graphics) (m : RelativeMove) (unhinted control : Int32) : Int32 :=
  let control := if g.autoFlip ∧ unhinted ^^^ control < 0 then -control else control
  if m.rounds ∧ g.zp0 = g.zp1 ∧ g.cutIn < Fixed.magnitude (control - unhinted) then unhinted
  else control

/-- Pops a control value index and a point, and moves the point to that distance from reference
point 0. -/
def moveIndirectRelative (m : RelativeMove) : Exec Unit := do
  let n ← pop
  let p ← popIndex
  let g ← graphics
  let control := g.snapToSingleWidth (← controlDistance n)
  onZone g.zp0 (ZoneM.check g.rp0)
  onZone g.zp1 (ZoneM.check p)
  if g.zp1 = .twilight then
    let ref ← onZone g.zp0 (ZoneM.scaledAt g.rp0)
    onZone g.zp1 (ZoneM.place p (ref + g.fv.along control))
  let unhinted := g.dualProject (← onZone g.zp1 (ZoneM.scaledAt p))
    (← onZone g.zp0 (ZoneM.scaledAt g.rp0))
  let current := g.project (← onZone g.zp1 (ZoneM.pointAt p)) (← onZone g.zp0 (ZoneM.pointAt g.rp0))
  let distance := finalDistance g m unhinted (aimedDistance g m unhinted control)
  onZone g.zp1 (ZoneM.move g p (distance - current))
  setRelativeReferences p m.setsReference

/-- Pops a distance and a point, and moves the point to that distance from reference point 0. -/
def moveStackRelative (setsReference : Bool) : Exec Unit := do
  let d ← pop
  let p ← popIndex
  let g ← graphics
  let ref ← onZone g.zp0 (ZoneM.point g.rp0)
  onZone g.zp1 (ZoneM.check p)
  if g.zp1 = .twilight then
    let o ← onZone g.zp0 (ZoneM.scaledAt g.rp0)
    onZone g.zp1 do
      ZoneM.modifyScaled p fun _ => o
      ZoneM.moveScaled g p d
      ZoneM.resetPoint p
  onZone g.zp1 do
    let c ← ZoneM.pointAt p
    ZoneM.move g p (d - g.project c ref)
  setRelativeReferences p setsReference

/-- Moves points to the projection of reference point 0. -/
def alignToReference : Exec Unit := do
  let g ← graphics
  let ref ← onZone g.zp0 (ZoneM.point g.rp0)
  forLoop fun p => onZone g.zp1 do
    let c ← ZoneM.point p
    ZoneM.move g p (-g.project c ref)

/-- Pops two points and moves both to the middle of their projections. -/
def alignPoints : Exec Unit := do
  let p2 ← popIndex
  let p1 ← popIndex
  let g ← graphics
  let a ← onZone g.zp0 (ZoneM.point p2)
  let b ← onZone g.zp1 (ZoneM.point p1)
  let d := g.project a b / 2
  onZone g.zp1 (ZoneM.move g p1 d)
  onZone g.zp0 (ZoneM.move g p2 (-d))

/-- The cross product of two displacements, up to a factor. -/
def cross (a b : Point) : Int32 := Fixed.mulDiv a.x (-b.y) 0x40 + Fixed.mulDiv a.y b.x 0x40

/-- The dot product of two displacements, up to a factor. -/
def inner (a b : Point) : Int32 := Fixed.mulDiv a.x b.x 0x40 + Fixed.mulDiv a.y b.y 0x40

/-- Whether two directions meet at an angle large enough, about three degrees, to intersect. -/
def meetsClearly (a b : Point) : Bool :=
  Fixed.magnitude (inner a b) < 19 * Fixed.magnitude (cross a b)

/-- The intersection of the lines through `a0`, `a1` and through `b0`, `b1`, or the middle of the
four points if the lines are nearly parallel. -/
def intersection (a0 a1 b0 b1 : Point) : Point :=
  let a := a1 - a0
  let b := b1 - b0
  if meetsClearly a b then
    let d := cross a b
    let v := cross (b0 - a0) b
    ⟨a0.x + Fixed.mulDiv v a.x d, a0.y + Fixed.mulDiv v a.y d⟩
  else ⟨(a0.x + a1.x + b0.x + b1.x) / 4, (a0.y + a1.y + b0.y + b1.y) / 4⟩

/-- Pops two lines and a point and moves the point to their intersection. -/
def moveToIntersection : Exec Unit := do
  let b1 ← popIndex
  let b0 ← popIndex
  let a1 ← popIndex
  let a0 ← popIndex
  let p ← popIndex
  let g ← graphics
  onZone g.zp2 (ZoneM.check p)
  let a0 ← onZone g.zp1 (ZoneM.point a0)
  let a1 ← onZone g.zp1 (ZoneM.point a1)
  let b0 ← onZone g.zp0 (ZoneM.point b0)
  let b1 ← onZone g.zp0 (ZoneM.point b1)
  onZone g.zp2 do
    ZoneM.modifyPoint p fun _ => intersection a0 a1 b0 b1
    ZoneM.touch p .touchedBoth

/-- The unhinted and the current distance from reference point 1 to reference point 2, or zero if
there is no such point. -/
def referenceRange (g : Graphics) (base : Point) : Exec (Int32 × Int32) := do
  match ← onZone g.zp1 (do return (← get).points[g.rp2]?) with
  | some c => return (← unhintedDistance g.zp1 g.rp2 g.zp0 g.rp1, g.project c base)
  | none => return (0, 0)

/-- The distance from a reference point that keeps the proportion of an unhinted distance to a
range. -/
def proportional (unhinted oldRange curRange : Int32) : Int32 :=
  if unhinted = 0 then 0
  else if oldRange = 0 then unhinted
  else Fixed.mulDiv unhinted curRange oldRange

/-- Moves points so that they lie between reference points 1 and 2 as they did before hinting. -/
def interpolatePoints : Exec Unit := do
  let g ← graphics
  let base ← onZone g.zp0 (ZoneM.point g.rp1)
  let (oldRange, curRange) ← referenceRange g base
  forLoop fun p => do
    let c ← onZone g.zp2 (ZoneM.point p)
    let unhinted ← unhintedDistance g.zp2 p g.zp0 g.rp1
    onZone g.zp2 (ZoneM.move g p (proportional unhinted oldRange curRange - g.project c base))

end GridFit.Exec
