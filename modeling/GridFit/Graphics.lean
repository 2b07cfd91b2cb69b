import GridFit.Rounding
import GridFit.Zone

/-!
# The graphics state

The graphics state steers how points are measured and moved. A part of it is retained: the control
value program sets it up for all glyph programs. The other part has its default values at the start
of every program.
-/

namespace GridFit

/-- The kind of rendering that is hinted for. -/
inductive Target where
  /-- Black and white. Points move in both directions. -/
  | mono
  /-- Anti-aliased. Unless the font opts out, points do not move horizontally. -/
  | smooth
deriving DecidableEq, Repr, Inhabited

/-- The subpixel layout of a display. -/
inductive Lcd where
  | none
  | horizontal
  | vertical
deriving DecidableEq, Repr, Inhabited

structure Mode where
  target : Target := .mono
  lcd : Lcd := .none
  /-- Advance widths are not to be hinted: backward compatibility cannot be left. -/
  linearMetrics : Bool := false
  /-- Reported to the font. -/
  symmetric : Bool := false
deriving DecidableEq, Repr, Inhabited

def Mode.isSmooth (m : Mode) : Bool := m.target = .smooth

namespace InstructControl

/-- Glyph programs are switched off. -/
def disable : UInt8 := 1

/-- Glyph programs start from the default state. -/
def defaultGraphics : UInt8 := 2

/-- The font knows about anti-aliasing and wants no backward compatibility. -/
def nativeClearType : UInt8 := 4

end InstructControl

/-- The part of the graphics state that the control value program sets up for all glyphs. -/
structure Retained where
  autoFlip : Bool := true
  cutIn : Int32 := 68
  deltaBase : Int32 := 9
  deltaShift : Int32 := 3
  instructControl : UInt8 := 0
  minDistance : Int32 := 64
  round : RoundState := {}
  singleWidthCutIn : Int32 := 0
  singleWidth : Int32 := 0
  /-- The 16.16 factor from font units to 26.6 pixels. -/
  scale : Int32
  ppem : Int32
  mode : Mode
  rotated : Bool := false
  stretched : Bool := false
deriving DecidableEq, Repr, Inhabited

namespace Retained

def initial (scale ppem : Int32) (mode : Mode) : Retained := { scale, ppem, mode }

def controls (r : Retained) (bit : UInt8) : Bool := r.instructControl &&& bit != 0

/-- Whether horizontal hints are ignored: in smooth modes, unless the font opts out. -/
def isBackwardCompatible (r : Retained) : Bool :=
  r.mode.isSmooth && !r.controls InstructControl.nativeClearType

end Retained

structure Graphics extends Retained where
  /-- The projection vector, along which distances are measured. -/
  pv : Vec := .xAxis
  /-- The freedom vector, along which points move. -/
  fv : Vec := .xAxis
  /-- The dual projection vector, for distances before hinting. -/
  dv : Vec := .xAxis
  /-- The dot product of the freedom and the projection vector. -/
  fdotp : Int32 := 0x4000
  loop : Int32 := 1
  rp0 : Nat := 0
  rp1 : Nat := 0
  rp2 : Nat := 0
  zp0 : ZonePointer := .glyph
  zp1 : ZonePointer := .glyph
  zp2 : ZonePointer := .glyph
  backwardCompatible : Bool := false
  /-- The untouched points have been interpolated in x direction. -/
  iupX : Bool := false
  /-- The untouched points have been interpolated in y direction. -/
  iupY : Bool := false
  composite : Bool := false
deriving DecidableEq, Repr, Inhabited

namespace Graphics

open Fixed

def start (r : Retained) (composite : Bool) : Graphics :=
  { toRetained := r, backwardCompatible := r.isBackwardCompatible, composite }

/-- The state at the start of the next program. -/
def reset (g : Graphics) : Graphics := start g.toRetained g.composite

/-- The dot product of two vectors, where nearly perpendicular vectors count as parallel. -/
def projectionFactor (fv pv : Vec) : Int32 :=
  let d := dot14 fv.x fv.y pv.x pv.y
  if magnitude d < 0x400 then 0x4000 else d

/-- Brings the dot product up to date after a change of a vector. -/
def updateProjection (g : Graphics) : Graphics :=
  { g with fdotp := projectionFactor g.fv g.pv }

def withProjection (g : Graphics) (v : Vec) : Graphics :=
  { g with pv := v, dv := v }.updateProjection

def withFreedom (g : Graphics) (v : Vec) : Graphics := { g with fv := v }.updateProjection

def withReference (g : Graphics) (k : Fin 3) (p : Nat) : Graphics :=
  match k with
  | 0 => { g with rp0 := p }
  | 1 => { g with rp1 := p }
  | 2 => { g with rp2 := p }

def withZone (g : Graphics) (k : Fin 3) (z : ZonePointer) : Graphics :=
  match k with
  | 0 => { g with zp0 := z }
  | 1 => { g with zp1 := z }
  | 2 => { g with zp2 := z }

/-- Notes that the untouched points have been interpolated along an axis. -/
def withInterpolated (g : Graphics) : Axis → Graphics
  | .x => { g with iupX := true }
  | .y => { g with iupY := true }

/-- Whether backward compatibility has frozen the outline. -/
def isFrozen (g : Graphics) : Bool := g.backwardCompatible && g.iupX && g.iupY

def project (g : Graphics) (a b : Point) : Int32 := g.pv.dot (a - b)

/-- The distance from `b` to `a`, along the dual projection vector. -/
def dualProject (g : Graphics) (a b : Point) : Int32 := g.dv.dot (a - b)

/-- The displacement along the freedom vector that changes a projection by `d`. -/
def displacement (g : Graphics) (d : Int32) : Point :=
  ⟨mulDiv d g.fv.x g.fdotp, mulDiv d g.fv.y g.fdotp⟩

/-- Keeps a rounded distance at least the minimum distance from zero, on the side of the unhinted
distance. -/
def keepMinimum (g : Graphics) (unhinted distance : Int32) : Int32 :=
  if 0 ≤ unhinted then
    if distance < g.minDistance then g.minDistance else distance
  else if -g.minDistance < distance then -g.minDistance
  else distance

/-- Replaces a distance close to the single width by the single width. -/
def snapToSingleWidth (g : Graphics) (d : Int32) : Int32 :=
  if g.singleWidthCutIn ≤ 0 then d
  else if magnitude (d - g.singleWidth) < g.singleWidthCutIn then
    if 0 ≤ d then g.singleWidth else -g.singleWidth
  else d

/-- The distance that the packed argument of a delta instruction stands for, if it applies at the
current size. -/
def deltaAmount? (g : Graphics) (arg base : Int32) : Option Int32 :=
  if ((arg &&& 0xf0) >>> 4) + base + g.deltaBase = g.ppem then
    let b := (arg &&& 0xf) - 8
    let steps := if 0 ≤ b then b + 1 else b
    some (steps * (1 <<< (6 - g.deltaShift)))
  else none

end Graphics

end GridFit
