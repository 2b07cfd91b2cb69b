import GridFit.Cursor
import GridFit.Definitions

/-!
# Flow of control

Which program is executing, where, and on behalf of which calls. Branches and definitions are found
by skipping instructions, so operand bytes are never taken for opcodes.
-/

namespace GridFit

structure Programs where
  font : Bytes := #[]
  controlValue : Bytes := #[]
  glyph : Bytes := #[]
deriving DecidableEq, Repr, Inhabited

def Programs.get (p : Programs) : Program → Bytes
  | .font => p.font
  | .controlValue => p.controlValue
  | .glyph => p.glyph

structure Call where
  caller : Program
  returnPC : Nat
  count : Int32
  body : Definition
deriving DecidableEq, Repr, Inhabited

/-- The state of control. `calls` has the innermost call first. -/
structure Flow where
  programs : Programs
  initial : Program := .font
  cursor : Cursor := {}
  calls : List Call := []
deriving DecidableEq, Repr, Inhabited

/-- An operation on the state of control. -/
abbrev FlowM := EStateM Fault Flow

namespace Flow

/-- How many calls can be in progress. -/
def maxDepth : Nat := 32

def maxDefinition : Nat := 65535

def start (programs : Programs) (program : Program) : Flow where
  programs := programs
  initial := program
  cursor := { program, code := programs.get program }

def reset (f : Flow) (program : Program) : Flow := start f.programs program

/-- Whether the program has ended: nothing is left to read, and no call is in progress. -/
def finished (f : Flow) : Bool := f.cursor.done && f.calls.isEmpty

def cursorAt (f : Flow) (program : Program) (pc : Nat) : Cursor :=
  { program, code := f.programs.get program, pc }

end Flow

namespace FlowM

def onCursor {α : Type} (x : CursorM α) : FlowM α := fun f =>
  match x f.cursor with
  | .ok a c => .ok a { f with cursor := c }
  | .error e c => .error e { f with cursor := c }

def next : FlowM UInt8 := onCursor CursorM.next

def skip : FlowM UInt8 := onCursor CursorM.skip

def enter (d : Definition) (count : Int32) : FlowM Unit := fun f =>
  if f.calls.length < Flow.maxDepth then
    .ok () { f with
      calls := ⟨f.cursor.program, f.cursor.pc, count, d⟩ :: f.calls
      cursor := f.cursorAt d.program d.start }
  else .error .callOverflow f

/-- Ends one round of the innermost call. A call with rounds left starts over; otherwise the caller
resumes after its call instruction. -/
def leave : FlowM Unit := fun f =>
  match f.calls with
  | [] => .error .callUnderflow f
  | c :: rest =>
    if 1 < c.count then
      .ok () { f with
        calls := { c with count := c.count - 1 } :: rest
        cursor := { f.cursor with pc := c.body.start } }
    else .ok () { f with calls := rest, cursor := f.cursorAt c.caller c.returnPC }

/-- Whether a jump may go to `target`: into the body of the innermost call, or anywhere in the
program, its end included, if no call is in progress. -/
def canJump (f : Flow) (target : Int) : Bool :=
  match f.calls with
  | c :: _ => c.body.start ≤ target ∧ target < c.body.stop
  | [] => 0 ≤ target ∧ target ≤ f.cursor.code.size

/-- Jumps by `offset` bytes from the jump instruction, which has just been read. A jump to itself
is refused. -/
def jump (offset : Int32) : FlowM Unit := fun f =>
  let target := f.cursor.pc + (offset.toInt - 1)
  if offset ≠ 0 ∧ canJump f target then
    .ok () { f with cursor := { f.cursor with pc := target.toNat } }
  else .error .invalidJump f

/-- How many further tests are open past an instruction, if `depth` were open before it. Nothing, if
the instruction is the marker that ends the branch. -/
def depthAfter? (stopAtElse : Bool) (depth : Nat) : Instruction → Option Nat
  | .ifTest => some (depth + 1)
  | .elseBranch => if stopAtElse ∧ depth = 0 then none else some depth
  | .endIf => if depth = 0 then none else some (depth - 1)
  | _ => some depth

/-- Skips to just past the marker that ends the branch, where `depth` further tests are open. At
most `fuel` instructions are read; as many bytes as are left are always enough. -/
def skipBranchFrom (stopAtElse : Bool) (depth : Nat) : Nat → FlowM Unit
  | 0 => throw .endOfBytecode
  | fuel + 1 => do
    match depthAfter? stopAtElse depth (.ofByte (← skip)) with
    | none => pure ()
    | some depth => skipBranchFrom stopAtElse depth fuel

/-- Skips to just past the marker that ends the branch which starts here: the end of the test, or,
if `stopAtElse`, its other branch. -/
def skipBranch (stopAtElse : Bool) : FlowM Unit := do
  skipBranchFrom stopAtElse 0 (← get).cursor.remaining

/-- Skips to just past the end of a definition. At most `fuel` instructions are read; as many bytes
as are left are always enough. -/
def skipDefinition : Nat → FlowM Unit
  | 0 => throw .endOfBytecode
  | fuel + 1 => do
    match Instruction.ofByte (← skip) with
    | .fdef => throw .nestedDefinition
    | .idef => throw .nestedDefinition
    | .endf => pure ()
    | _ => skipDefinition fuel

/-- The definition of `key` whose body starts here. Goes to just past its end. -/
def define (key : Int32) : FlowM Definition := do
  let start := (← get).cursor.pc
  skipDefinition (← get).cursor.remaining
  let cursor := (← get).cursor
  if Flow.maxDefinition < cursor.pc - start then throw .definitionTooLarge
  return { program := cursor.program, start, stop := cursor.pc, key }

end FlowM

end GridFit
