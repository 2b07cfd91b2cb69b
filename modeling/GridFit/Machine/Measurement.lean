import GridFit.Machine.Basic
import GridFit.Movement

/-!
# Tables and measurements

Instructions that read and write the storage area and the control values, and that measure points.
-/

namespace GridFit.Exec

/-- Pops an index and pushes the stored value. -/
def readStore : Exec Unit := do push (← stored (← popIndex))

def writeStore : Exec Unit := do
  let v ← pop
  setStored (← popIndex) v

/-- Pops an index and pushes the control value. -/
def readControlValue : Exec Unit := do push (← controlValue (← popIndex))

/-- Pops a value and an index and writes a control value, which is scaled if it is in font units. -/
def writeControlValue (inUnits : Bool) : Exec Unit := do
  let v ← pop
  let i ← popIndex
  let scale := (← graphics).scale
  setControlValue i (if inUnits then Fixed.mulFix v scale else v)

/-- Pops a point and pushes its projection: of its scaled position on the dual projection vector,
or of its current one on the projection vector. -/
def getCoordinate (unhinted : Bool) : Exec Unit := do
  let p ← popIndex
  let g ← graphics
  if unhinted then push (g.dv.dot (← onZone g.zp2 (ZoneM.scaled p)))
  else push (g.pv.dot (← onZone g.zp2 (ZoneM.point p)))

/-- Pops a projection and a point and moves the point there. A twilight point moves for good. -/
def setCoordinate : Exec Unit := do
  let k ← pop
  let p ← popIndex
  let g ← graphics
  onZone g.zp2 do
    let c ← ZoneM.point p
    ZoneM.move g p (k - g.pv.dot c)
    if g.zp2 = .twilight then
      let c ← ZoneM.pointAt p
      ZoneM.modifyScaled p fun _ => c

def hasUnits (z : ZonePointer) : Exec Bool := onZone z do return !(← get).unscaled.isEmpty

/-- The distance from point `b` to point `a` before hinting, along the dual projection
vector. Glyph points are measured in font units if they have any, and then scaled. -/
def unhintedDistance (za : ZonePointer) (a : Nat) (zb : ZonePointer) (b : Nat) : Exec Int32 := do
  let g ← graphics
  let units ← hasUnits .glyph
  if za = .glyph ∧ zb = .glyph ∧ units then
    let pa ← onZone za (ZoneM.unscaled a)
    let pb ← onZone zb (ZoneM.unscaled b)
    return Fixed.mulFix (g.dualProject pa pb) g.scale
  else
    let pa ← onZone za (ZoneM.scaled a)
    let pb ← onZone zb (ZoneM.scaled b)
    return g.dualProject pa pb

/-- Pops two points and pushes their distance. -/
def measureDistance (current : Bool) : Exec Unit := do
  let k ← popIndex
  let l ← popIndex
  let g ← graphics
  if current then
    let a ← onZone g.zp0 (ZoneM.point l)
    let b ← onZone g.zp1 (ZoneM.point k)
    push (g.project a b)
  else push (← unhintedDistance g.zp0 l g.zp1 k)

end GridFit.Exec
