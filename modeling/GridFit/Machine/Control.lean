import GridFit.Machine.Basic

/-!
# Control instructions

Tests, jumps, definitions and calls.
-/

namespace GridFit.Exec

/-- Pops a condition and skips to the other branch if it is zero. -/
def ifTest : Exec Unit := do
  if (← pop) = 0 then onFlow (FlowM.skipBranch true)

/-- Skips the other branch of a test whose first branch has been executed. -/
def elseBranch : Exec Unit := onFlow (FlowM.skipBranch false)

def jump : Exec Unit := do onFlow (FlowM.jump (← pop))

/-- Pops a condition and an offset, and jumps if the condition is as given. -/
def jumpIf (condition : Bool) : Exec Unit := do
  let c ← pop
  let offset ← pop
  if decide (c ≠ 0) = condition then onFlow (FlowM.jump offset)

/-- Pops a key and records the definition that starts here. The slot is found before the body is
read, and written after it. -/
def define (k : DefinitionKind) : Exec Unit := do
  let key ← pop
  match ((← get).definitions k).slotFor key with
  | .error e => throw e
  | .ok slot =>
    let d ← onFlow (FlowM.define key)
    modify fun m => m.store k slot d

def endDefinition : Exec Unit := onFlow FlowM.leave

def function (key : Int32) : Exec Definition := do
  match (← get).functions.get? key with
  | some d => pure d
  | none => throw .invalidDefinition

def call : Exec Unit := do
  let d ← function (← pop)
  onFlow (FlowM.enter d 1)

/-- Pops a key and a count and calls the function so many times. -/
def loopCall : Exec Unit := do
  let key ← pop
  let count ← pop
  let d ← function key
  if 0 < count then onFlow (FlowM.enter d count)

/-- Calls the definition of an opcode that has no meaning of its own. -/
def undefined (byte : UInt8) : Exec Unit := do
  match (← get).instructions.get? (Bytes.zeroExtend byte) with
  | some d => onFlow (FlowM.enter d 1)
  | none => throw .unhandledOpcode

end GridFit.Exec
