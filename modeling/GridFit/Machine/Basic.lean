import GridFit.Flow
import GridFit.Graphics
import GridFit.OperandStack
import GridFit.Table

/-!
# The machine

The machine executes one program over two zones, two tables and the definitions of the font. An
instruction that fails keeps what it has done so far.
-/

namespace GridFit

inductive DefinitionKind where
  | function
  | instruction
deriving DecidableEq, Repr

/-- The state of a program run. -/
structure Machine where
  flow : Flow
  graphics : Graphics
  stack : OperandStack
  controlValues : Table
  storage : Table
  twilight : Zone
  glyph : Zone
  functions : DefinitionTable
  instructions : DefinitionTable
  /-- The variation coordinates, in 2.14. -/
  coords : Array Int16
  axisCount : Nat
deriving Inhabited

/-- An action of the machine. -/
abbrev Exec := EStateM Fault Machine

namespace Machine

def definitions (m : Machine) : DefinitionKind → DefinitionTable
  | .function => m.functions
  | .instruction => m.instructions

def store (m : Machine) (k : DefinitionKind) (slot : Nat) (d : Definition) : Machine :=
  match k with
  | .function => { m with functions := m.functions.store slot d }
  | .instruction => { m with instructions := m.instructions.store slot d }

end Machine

namespace Exec

def onStack {α : Type} (x : StackM α) : Exec α := fun m =>
  let s := m.stack
  let m := { m with stack := default }
  match x s with
  | .ok a s => .ok a { m with stack := s }
  | .error e s => .error e { m with stack := s }

def onFlow {α : Type} (x : FlowM α) : Exec α := fun m =>
  match x m.flow with
  | .ok a f => .ok a { m with flow := f }
  | .error e f => .error e { m with flow := f }

def onZone {α : Type} (z : ZonePointer) (x : ZoneM α) : Exec α := fun m =>
  match z with
  | .twilight =>
    let s := m.twilight
    let m := { m with twilight := {} }
    match x s with
    | .ok a s => .ok a { m with twilight := s }
    | .error e s => .error e { m with twilight := s }
  | .glyph =>
    let s := m.glyph
    let m := { m with glyph := {} }
    match x s with
    | .ok a s => .ok a { m with glyph := s }
    | .error e s => .error e { m with glyph := s }

def push (v : Int32) : Exec Unit := onStack (StackM.push v)

def pop : Exec Int32 := onStack StackM.pop

def popIndex : Exec Nat := onStack StackM.popIndex

def graphics : Exec Graphics := fun m => .ok m.graphics m

def modifyGraphics (f : Graphics → Graphics) : Exec Unit :=
  modify fun m => { m with graphics := f m.graphics }

def controlValue (i : Int) : Exec Int32 := fun m =>
  match m.controlValues.get? i with
  | some v => .ok v m
  | none => .error .invalidControlValue m

def setControlValue (i : Int) (v : Int32) : Exec Unit := fun m =>
  if m.controlValues.contains i then
    let t := m.controlValues
    let m := { m with controlValues := default }
    .ok () { m with controlValues := t.set i v }
  else .error .invalidControlValue m

def stored (i : Int) : Exec Int32 := fun m =>
  match m.storage.get? i with
  | some v => .ok v m
  | none => .error .invalidStorage m

def setStored (i : Int) (v : Int32) : Exec Unit := fun m =>
  if m.storage.contains i then
    let t := m.storage
    let m := { m with storage := default }
    .ok () { m with storage := t.set i v }
  else .error .invalidStorage m

/-- Pops as many points as the loop counter says and does `f` for each, then resets the counter. -/
def forLoop (f : Nat → Exec Unit) : Exec Unit := do
  rounds (← graphics).loop.toNatClampNeg
  modifyGraphics fun g => { g with loop := 1 }
where
  rounds : Nat → Exec Unit
    | 0 => pure ()
    | n + 1 => do
      f (← popIndex)
      modifyGraphics fun g => { g with loop := g.loop - 1 }
      rounds n

end Exec

end GridFit
