import GridFit.Instruction
import GridFit.Interpolation
import GridFit.Machine.Measurement

/-!
# Shifting, marking and interpolating points

Instructions that move points by a displacement, that change the flags of points, that apply
exceptions at certain sizes, and that interpolate untouched points.
-/

namespace GridFit.Exec

/-- The displacement of a reference point from its scaled position. -/
structure Displacement where
  zone : ZonePointer
  point : Nat
  offset : Point

/-- How far a reference point has moved, along the freedom vector: reference point 1 in zone 0, or
reference point 2 in zone 1. -/
def displacement (first : Bool) : Exec Displacement := do
  let g ← graphics
  let z := if first then g.zp0 else g.zp1
  let ref := if first then g.rp1 else g.rp2
  let c ← onZone z (ZoneM.point ref)
  let o ← onZone z (ZoneM.scaled ref)
  return ⟨z, ref, g.displacement (g.project c o)⟩

def shiftPoints (first : Bool) : Exec Unit := do
  let d ← displacement first
  let g ← graphics
  forLoop fun p => onZone g.zp2 (ZoneM.shift g p d.offset true)

/-- Shifts the points from `first` to just before `stop`, other than the reference point. -/
def shiftRange (d : Displacement) (first stop : Nat) : Exec Unit := do
  let g ← graphics
  onZone g.zp2 <| (List.range' first (stop - first)).forM fun i => do
    if ¬(d.zone = g.zp2 ∧ i = d.point) then ZoneM.shift g i d.offset false

/-- Pops a contour and shifts its points with a reference point. -/
def shiftContour (first : Bool) : Exec Unit := do
  let d ← displacement first
  let c ← popIndex
  let (start, last) ← onZone (← graphics).zp2 (ZoneM.contour c)
  shiftRange d start (last + 1)

/-- The number of points that a shift of the whole zone moves: all points of the twilight zone, and
the points up to the end of the last contour of the glyph zone. -/
def shiftLimit (z : ZonePointer) : ZoneM Nat := do
  let zone ← get
  match z with
  | .twilight => return zone.points.size
  | .glyph =>
    let limit := match zone.contours.back? with
      | some last => last.toNat + 1
      | none => 0
    if zone.points.size < limit then throw .invalidContour
    return limit

/-- Pops a zone and shifts the points of zone 2 with a reference point. -/
def shiftZone (first : Bool) : Exec Unit := do
  let d ← displacement first
  if (ZonePointer.ofOperand? (← pop)).isNone then throw .invalidZone
  let z := (← graphics).zp2
  let limit ← onZone z (shiftLimit z)
  shiftRange d 0 limit

/-- Whether an exception may move a point under backward compatibility: it is touched vertically, or
belongs to a composite glyph and moves vertically, and the outline is not frozen. -/
def allowsException (g : Graphics) (p : Nat) : ZoneM Bool := do
  if g.isFrozen then return false
  if g.composite ∧ g.fv.y ≠ 0 then return true
  return (← ZoneM.flagsAt p).meets .touchedY

/-- Pops an amount and shifts points by it along the freedom vector. -/
def shiftByPixels : Exec Unit := do
  let amount ← pop
  let g ← graphics
  let d := g.fv.along amount
  let inTwilight : Bool := g.zp0 = .twilight ∧ g.zp1 = .twilight ∧ g.zp2 = .twilight
  forLoop fun p => onZone g.zp2 do
    ZoneM.check p
    if !g.backwardCompatible then ZoneM.shift g p d true
    else if inTwilight then ZoneM.shift g p { d with x := 0 } true
    else if ← allowsException g p then ZoneM.shift g p { d with x := 0 } true

/-- Pops a point and removes its marks for the axes in which the freedom vector points. -/
def untouch : Exec Unit := do
  let p ← popIndex
  let g ← graphics
  let x : PointFlags := if g.fv.x ≠ 0 then .touchedX else {}
  let y : PointFlags := if g.fv.y ≠ 0 then .touchedY else {}
  onZone g.zp0 do
    ZoneM.check p
    ZoneM.modifyFlags p (·.diff (x.union y))

def flipPoints : Exec Unit := do
  let g ← graphics
  forLoop fun p => onZone g.zp0 do
    ZoneM.check p
    if !g.isFrozen then ZoneM.modifyFlags p (·.flipOnCurve)

/-- Pops the ends of a range of points and puts the points on or off the curve. -/
def flipRange (on : Bool) : Exec Unit := do
  let hi ← popIndex
  let lo ← popIndex
  let g ← graphics
  if !g.isFrozen then
    onZone g.zp0 do
      if hi < lo ∨ (← get).points.size ≤ hi then throw .invalidPointRange
      ZoneM.forPoints lo hi fun i => ZoneM.modifyFlags i (·.setOnCurve on)

def deltaStart (range : Fin 3) : Int32 :=
  match range with
  | 0 => 0
  | 1 => 16
  | 2 => 32

def popCount : Exec Nat := do
  let n ← pop
  if n < 0 then throw .invalidStackValue
  return n.toNatClampNeg

/-- Pops `n` exceptions and moves their points. -/
def deltaPoints (start : Int32) : Nat → Exec Unit
  | 0 => pure ()
  | n + 1 => do
    let p ← popIndex
    let arg ← pop
    let g ← graphics
    onZone g.zp0 do
      ZoneM.check p
      match g.deltaAmount? arg start with
      | none => pure ()
      | some d =>
        let allowed ← if g.backwardCompatible then allowsException g p else pure true
        if allowed then
          ZoneM.move g p d
          ZoneM.touch p .hasDelta
    deltaPoints start n

/-- Pops `n` exceptions and changes their control values. -/
def deltaControlValues (start : Int32) : Nat → Exec Unit
  | 0 => pure ()
  | n + 1 => do
    let i ← popIndex
    let arg ← pop
    match (← graphics).deltaAmount? arg start with
    | none => pure ()
    | some d => setControlValue i ((← controlValue i) + d)
    deltaControlValues start n

/-- Interpolates the untouched points of the glyph zone along an axis, unless the outline is
frozen. -/
def interpolateUntouched (a : Axis) : Exec Unit := do
  let g ← graphics
  if !g.isFrozen then
    if g.backwardCompatible then modifyGraphics (·.withInterpolated a)
    onZone .glyph (ZoneM.interpolateUntouched a)

end GridFit.Exec
