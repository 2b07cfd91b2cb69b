import GridFit.Machine.Arithmetic
import GridFit.Machine.Placement
import GridFit.Machine.Settings
import GridFit.Machine.Shifting

/-!
# Execution

One instruction is read and executed at a time. A run starts a program from its beginning and stops
when nothing is left to execute, at the first instruction that fails, or when it has executed as
many instructions as it may.
-/

namespace GridFit

namespace Exec

/-- Executes an instruction whose opcode has just been read. -/
def execute : Instruction → Exec Unit
  | .svtca a => vectorsToAxis a
  | .spvtca a => modifyGraphics (·.withProjection (.ofAxis a))
  | .sfvtca a => modifyGraphics (·.withFreedom (.ofAxis a))
  | .spvtl perpendicular => do
    let v ← popLine perpendicular
    modifyGraphics (·.withProjection v)
  | .sfvtl perpendicular => do
    let v ← popLine perpendicular
    modifyGraphics (·.withFreedom v)
  | .spvfs => do
    let v ← popDirection
    modifyGraphics (·.withProjection v)
  | .sfvfs => do
    let v ← popDirection
    modifyGraphics (·.withFreedom v)
  | .gpv => do pushVector (← graphics).pv
  | .gfv => do pushVector (← graphics).fv
  | .sfvtpv => modifyGraphics fun g => g.withFreedom g.pv
  | .isect => moveToIntersection
  | .srp k => do
    let p ← popIndex
    modifyGraphics (·.withReference k p)
  | .szp k => do
    let z ← popZone
    modifyGraphics (·.withZone k z)
  | .szps => do
    let z ← popZone
    modifyGraphics fun g => { g with zp0 := z, zp1 := z, zp2 := z }
  | .sloop => setLoop
  | .setRound mode => setRound mode
  | .sround diagonal => setSuperRound diagonal
  | .setScalar s => setScalar s
  | .autoFlip on => modifyGraphics fun g => { g with autoFlip := on }
  | .elseBranch => elseBranch
  | .ifTest => ifTest
  | .endIf => pure ()
  | .jmpr => jump
  | .jumpIf condition => jumpIf condition
  | .dup => onStack StackM.dup
  | .pop => discard pop
  | .clear => onStack StackM.clear
  | .swap => onStack StackM.swap
  | .depth => onStack StackM.depth
  | .cindex => onStack StackM.copyIndex
  | .mindex => onStack StackM.moveIndex
  | .roll => onStack StackM.roll
  | .debug => discard pop
  | .sangw => discard pop
  | .aa => discard pop
  | .scanctrl => discard pop
  | .scantype => discard pop
  | .alignpts => alignPoints
  | .utp => untouch
  | .loopcall => loopCall
  | .call => call
  | .fdef => define .function
  | .idef => define .instruction
  | .endf => endDefinition
  | .mdap rounds => moveDirectAbsolute rounds
  | .miap rounds => moveIndirectAbsolute rounds
  | .iup a => interpolateUntouched a
  | .shp first => shiftPoints first
  | .shc first => shiftContour first
  | .shz first => shiftZone first
  | .shpix => shiftByPixels
  | .ip => interpolatePoints
  | .msirp setsReference => moveStackRelative setsReference
  | .alignrp => alignToReference
  | .npushb => pushOperands .npushb
  | .npushw => pushOperands .npushw
  | .pushb extra => pushOperands (.pushb extra)
  | .pushw extra => pushOperands (.pushw extra)
  | .ws => writeStore
  | .rs => readStore
  | .wcvtp => writeControlValue false
  | .wcvtf => writeControlValue true
  | .rcvt => readControlValue
  | .gc unhinted => getCoordinate unhinted
  | .scfs => setCoordinate
  | .md current => measureDistance current
  | .mppem => do push (← graphics).ppem
  | .mps => do push (← graphics).ppem
  | .binary op => binary op
  | .unary op => unary op
  | .deltap range => do deltaPoints (deltaStart range) (← popCount)
  | .deltac range => do deltaControlValues (deltaStart range) (← popCount)
  | .flippt => flipPoints
  | .fliprg on => flipRange on
  | .sdpvtl perpendicular => dualProjectionToLine perpendicular
  | .getinfo => getInfo
  | .instctrl => instructControl
  | .getvar => withVariations 0x91 pushCoords
  | .getdata => withVariations 0x92 (push 17)
  | .mdrp m => moveDirectRelative m
  | .mirp m => moveIndirectRelative m
  | .undefined byte => undefined byte

end Exec

namespace Machine

/-- How many instructions a run may execute. -/
def budget : Nat := 1000000

def restart (m : Machine) (program : Program) : Machine :=
  { m with flow := m.flow.reset program, graphics := m.graphics.reset }

def failure (m : Machine) (pc : Nat) (opcode : UInt8) (fault : Fault) : Failure :=
  { program := m.flow.initial, pc, opcode, fault }

/-- Does `x`, which is part of the instruction at `pc`. -/
def locate {α : Type} (pc : Nat) (opcode : UInt8) (x : Exec α) : EStateM Failure Machine α := fun m =>
  match x m with
  | .ok a m => .ok a m
  | .error e m => .error (m.failure pc opcode e) m

def step : EStateM Failure Machine Unit := do
  let pc := (← get).flow.cursor.pc
  let opcode ← locate pc 0 (Exec.onFlow FlowM.next)
  locate pc opcode (Exec.execute (.ofByte opcode))

def runFrom : Nat → EStateM Failure Machine Unit
  | fuel, m =>
    if m.flow.finished then .ok () m
    else
      match fuel with
      | 0 => .error (m.failure m.flow.cursor.pc 0 .budgetExceeded) m
      | fuel + 1 =>
        match step m with
        | .error f m => .error f m
        | .ok () m => runFrom fuel m

def run (program : Program) : EStateM Failure Machine Unit := fun m =>
  runFrom budget (m.restart program)

end Machine

end GridFit
