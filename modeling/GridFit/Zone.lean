import GridFit.Bytes
import GridFit.Fault
import GridFit.Vec

/-!
# Zones of points

A zone holds points in three forms: in font units, scaled, and hinted. Its flags classify the points
and mark those that the programs have touched. The glyph zone has contours; the twilight zone has
neither contours nor points in font units.
-/

namespace GridFit

/-- The classification and the marks of a point. -/
structure PointFlags where
  bits : UInt8 := 0
deriving DecidableEq, Repr, Inhabited

namespace PointFlags

def onCurve : PointFlags := ⟨0x01⟩

/-- The point is a control point of a cubic curve. -/
def offCurveCubic : PointFlags := ⟨0x02⟩

def touchedX : PointFlags := ⟨0x04⟩

def touchedY : PointFlags := ⟨0x08⟩

def hasDelta : PointFlags := ⟨0x10⟩

def curveMask : PointFlags := ⟨0x03⟩

def touchedBoth : PointFlags := ⟨0x0c⟩

def hintingMask : PointFlags := ⟨0x7c⟩

def union (f g : PointFlags) : PointFlags := ⟨f.bits ||| g.bits⟩

def diff (f g : PointFlags) : PointFlags := ⟨f.bits &&& ~~~g.bits⟩

/-- Whether `f` and `g` have a flag in common. -/
def meets (f g : PointFlags) : Bool := f.bits &&& g.bits != 0

def isOnCurve (f : PointFlags) : Bool := f.meets onCurve

/-- Whether the point is a control point of a quadratic curve. -/
def isOffCurveQuad (f : PointFlags) : Bool := !f.meets curveMask

/-- Whether the point is a control point of a cubic curve. -/
def isOffCurveCubic (f : PointFlags) : Bool := f.meets offCurveCubic

def flipOnCurve (f : PointFlags) : PointFlags := ⟨f.bits ^^^ onCurve.bits⟩

def setOnCurve (f : PointFlags) (on : Bool) : PointFlags :=
  let f := f.diff curveMask
  if on then f.union onCurve else f

def touched : Axis → PointFlags
  | .x => touchedX
  | .y => touchedY

end PointFlags

/-- One of the two zones. -/
inductive ZonePointer where
  | twilight
  | glyph
deriving DecidableEq, Repr, Inhabited

namespace ZonePointer

def code : ZonePointer → Nat
  | .twilight => 0
  | .glyph => 1

def ofOperand? (v : Int32) : Option ZonePointer :=
  if v = 0 then some .twilight else if v = 1 then some .glyph else none

end ZonePointer

/-- A set of points. `contours` holds the index of the last point of each contour. -/
structure Zone where
  unscaled : Array Point := #[]
  scaled : Array Point := #[]
  points : Array Point := #[]
  flags : Array PointFlags := #[]
  contours : Array UInt16 := #[]
deriving DecidableEq, Repr, Inhabited

/-- An operation on a zone. -/
abbrev ZoneM := EStateM Fault Zone

namespace Zone

def blank (n : Nat) : Zone where
  scaled := Array.replicate n {}
  points := Array.replicate n {}
  flags := Array.replicate n {}

def contour (z : Zone) (c : Nat) : Except Fault (Nat × Nat) :=
  if h : c < z.contours.size then
    let first := if c = 0 then 0 else z.contours[c - 1].toNat + 1
    let last := z.contours[c].toNat
    if first ≤ last ∧ last < z.points.size then .ok (first, last) else .error .invalidContour
  else .error .invalidContour

def clearHintingFlags (z : Zone) : Zone :=
  { z with flags := z.flags.map (·.diff .hintingMask) }

end Zone

namespace ZoneM

/-- The element of `a` at `i`, where every index is a point. -/
def checked {α : Type} (a : Array α) (i : Nat) : ZoneM α :=
  if h : i < a.size then pure a[i] else throw .invalidPoint

/-- The element of `a` at `i`, where a check should have come before. -/
def unguarded {α : Type} (a : Array α) (i : Nat) : ZoneM α :=
  if h : i < a.size then pure a[i] else throw .breach

def check (i : Nat) : ZoneM Unit := fun z =>
  if i < z.points.size then .ok () z else .error .invalidPoint z

def point (i : Nat) : ZoneM Point := fun z => checked z.points i z

def scaled (i : Nat) : ZoneM Point := fun z => checked z.scaled i z

def unscaled (i : Nat) : ZoneM Point := fun z => checked z.unscaled i z

def contour (c : Nat) : ZoneM (Nat × Nat) := fun z =>
  match z.contour c with
  | .ok r => .ok r z
  | .error e => .error e z

def pointAt (i : Nat) : ZoneM Point := fun z => unguarded z.points i z

def scaledAt (i : Nat) : ZoneM Point := fun z => unguarded z.scaled i z

def flagsAt (i : Nat) : ZoneM PointFlags := fun z => unguarded z.flags i z

/-- Changes the hinted position of a point that has been checked. -/
def modifyPoint (i : Nat) (f : Point → Point) : ZoneM Unit := fun z =>
  if i < z.points.size then .ok () { z with points := z.points.modify i f } else .error .breach z

/-- Changes the scaled position of a point that has been checked. -/
def modifyScaled (i : Nat) (f : Point → Point) : ZoneM Unit := fun z =>
  if i < z.scaled.size then .ok () { z with scaled := z.scaled.modify i f }
  else .error .breach z

/-- Changes the flags of a point that has been checked. -/
def modifyFlags (i : Nat) (f : PointFlags → PointFlags) : ZoneM Unit := fun z =>
  if i < z.flags.size then .ok () { z with flags := z.flags.modify i f } else .error .breach z

def touch (i : Nat) (f : PointFlags) : ZoneM Unit := modifyFlags i (·.union f)

end ZoneM

end GridFit
