import GridFit.Instruction
import GridFit.Machine.Control

/-!
# Settings

Instructions that read or change the graphics state.
-/

namespace GridFit.Exec

def vectorsToAxis (a : Axis) : Exec Unit :=
  modifyGraphics fun g =>
    { g with pv := .ofAxis a, dv := .ofAxis a, fv := .ofAxis a }.updateProjection

/-- Pops two points and returns the direction of the line through them. -/
def popLine (perpendicular : Bool) : Exec Vec := do
  let p1 ← popIndex
  let p2 ← popIndex
  let g ← graphics
  let a ← onZone g.zp2 (ZoneM.point p1)
  let b ← onZone g.zp1 (ZoneM.point p2)
  return .ofLine a b perpendicular

def popDirection : Exec Vec := do
  let y ← pop
  let x ← pop
  return .normalize x.toInt16.toInt32 y.toInt16.toInt32

/-- The hinted position of a point, or the origin if there is no such point. -/
def pointOrOrigin (i : Nat) : ZoneM Point := do return (← get).points.getD i {}

/-- Sets the dual projection vector from the scaled positions, and the projection vector from the
current positions, of two points. Coincident points are not turned. -/
def dualProjectionToLine (perpendicular : Bool) : Exec Unit := do
  let p1 ← popIndex
  let p2 ← popIndex
  let g ← graphics
  let oa ← onZone g.zp2 (ZoneM.scaled p1)
  let ob ← onZone g.zp1 (ZoneM.scaled p2)
  let ca ← onZone g.zp2 (pointOrOrigin p1)
  let cb ← onZone g.zp1 (pointOrOrigin p2)
  let turned : Bool := perpendicular ∧ oa ≠ ob
  modifyGraphics fun g =>
    { g with dv := .ofLine oa ob turned, pv := .ofLine ca cb (turned ∧ ca ≠ cb) }.updateProjection

def pushVector (v : Vec) : Exec Unit := do
  push v.x
  push v.y

def popZone : Exec ZonePointer := do
  match ZonePointer.ofOperand? (← pop) with
  | some z => pure z
  | none => throw .invalidZone

/-- Pops the loop counter, which is cut off at 65535. -/
def setLoop : Exec Unit := do
  let n ← pop
  if n < 0 then throw .negativeLoop
  modifyGraphics fun g => { g with loop := if 0xffff < n then 0xffff else n }

def setScalar (s : Scalar) : Exec Unit := do
  let v ← pop
  match s with
  | .minDistance => modifyGraphics fun g => { g with minDistance := v }
  | .cutIn => modifyGraphics fun g => { g with cutIn := v }
  | .singleWidthCutIn => modifyGraphics fun g => { g with singleWidthCutIn := v }
  | .singleWidth => modifyGraphics fun g => { g with singleWidth := Fixed.mulFix v g.scale }
  | .deltaBase => modifyGraphics fun g => { g with deltaBase := v }
  | .deltaShift =>
    if v < 0 ∨ 6 < v then throw .invalidStackValue
    modifyGraphics fun g => { g with deltaShift := v }

/-- Sets the round mode, and keeps the parameters of super rounding. -/
def setRound (mode : RoundMode) : Exec Unit :=
  modifyGraphics fun g => { g with round := { g.round with mode } }

def setSuperRound (diagonal : Bool) : Exec Unit := do
  let v ← pop
  let r := if diagonal then RoundState.ofSelector RoundState.diagonalGrid v .super45
    else RoundState.ofSelector RoundState.squareGrid v .super
  modifyGraphics fun g => { g with round := r }

/-- The version that the machine reports. It is the first that hints for subpixels with backward
compatibility. -/
def version : Int32 := 40

/-- What a font can ask, as triples: the bit of the query, the answer, and whether the answer is
given. -/
def answers (g : Graphics) (axisCount : Nat) : List (Int32 × Int32 × Bool) :=
  let smooth := g.mode.isSmooth
  [(0x1, version, true),
    (0x2, 0x100, g.rotated),
    (0x4, 0x200, g.stretched),
    (0x8, 0x400, 0 < axisCount),
    (0x40, 0x2000, smooth),
    (0x100, 0x8000, smooth && g.mode.lcd = .vertical),
    (0x400, 0x20000, smooth),
    (0x800, 0x40000, smooth && g.mode.symmetric),
    (0x1000, 0x80000, smooth && g.mode.lcd = .none)]

def info (g : Graphics) (axisCount : Nat) (selector : Int32) : Int32 :=
  (answers g axisCount).foldl
    (fun result (bit, answer, given) =>
      if selector &&& bit ≠ 0 ∧ given then result ||| answer else result) 0

def getInfo : Exec Unit := do
  let selector ← pop
  push (info (← graphics) (← get).axisCount selector)

def controlBit? (selector : Int32) : Option UInt8 :=
  if selector = 1 then some InstructControl.disable
  else if selector = 2 then some InstructControl.defaultGraphics
  else if selector = 3 then some InstructControl.nativeClearType
  else none

/-- Sets or clears a bit of the instruct control. Backward compatibility follows the bit that a font
sets to opt out of it. -/
def setControl (g : Graphics) (bit : UInt8) (on : Bool) : Graphics :=
  let cleared := g.instructControl &&& ~~~bit
  let g := { g with instructControl := if on then cleared ||| bit else cleared }
  if bit = InstructControl.nativeClearType then
    { g with backwardCompatible := g.isBackwardCompatible }
  else g

/-- Pops a selector and a value, and sets or clears a bit of the instruct control. Only the control
value program may do so; anything else is ignored. -/
def instructControl : Exec Unit := do
  let selector ← pop
  let value ← pop
  match controlBit? selector with
  | none => pure ()
  | some bit =>
    let isNative := decide (bit = InstructControl.nativeClearType)
    if (← get).flow.initial = .controlValue ∧ (value = 0 ∨ value = Bytes.zeroExtend bit)
        ∧ ¬(isNative ∧ (← graphics).mode.linearMetrics) then
      modifyGraphics fun g => setControl g bit (value ≠ 0)

/-- Does `x` in a font with variations. In any other font the opcode `byte` has no meaning of its
own. -/
def withVariations (byte : UInt8) (x : Exec Unit) : Exec Unit := do
  if (← get).axisCount = 0 then undefined byte else x

def pushCoords : Exec Unit := do
  let m ← get
  (List.range m.axisCount).forM fun i => push (m.coords.getD i 0).toInt32

end GridFit.Exec
