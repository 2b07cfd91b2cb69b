import GridFit.Text.Hexadecimal

/-!
# Faults and failures

A `Fault` says why an instruction could not be carried out. A `Failure` adds where that happened:
the program that was started, the glyph, the offset and the opcode of the instruction.
-/

namespace GridFit

inductive Program where
  | font
  | controlValue
  | glyph
deriving DecidableEq, Repr, Inhabited

namespace Program

def code : Program → Nat
  | .font => 0
  | .controlValue => 1
  | .glyph => 2

def nameOf : Nat → String
  | 0 => "font"
  | 1 => "control value"
  | 2 => "glyph"
  | _ => "unknown"

end Program

/-- Why an instruction could not be carried out. `breach` stands for an access outside a buffer that
no check guards; it is the only fault without a number of its own. -/
inductive Fault where
  | endOfBytecode
  | unhandledOpcode
  | definitionInGlyphProgram
  | nestedDefinition
  | definitionTooLarge
  | tooManyDefinitions
  | invalidDefinition
  | stackOverflow
  | stackUnderflow
  | callOverflow
  | callUnderflow
  | invalidStackValue
  | invalidPoint
  | invalidPointRange
  | invalidContour
  | invalidControlValue
  | invalidStorage
  | divisionByZero
  | invalidZone
  | negativeLoop
  | invalidJump
  | budgetExceeded
  | insufficientScratch
  | breach
deriving DecidableEq, Repr, Inhabited

namespace Fault

def code : Fault → Nat
  | .endOfBytecode => 1
  | .unhandledOpcode => 2
  | .definitionInGlyphProgram => 3
  | .nestedDefinition => 4
  | .definitionTooLarge => 5
  | .tooManyDefinitions => 6
  | .invalidDefinition => 7
  | .stackOverflow => 8
  | .stackUnderflow => 9
  | .callOverflow => 10
  | .callUnderflow => 11
  | .invalidStackValue => 12
  | .invalidPoint => 13
  | .invalidPointRange => 14
  | .invalidContour => 15
  | .invalidControlValue => 16
  | .invalidStorage => 17
  | .divisionByZero => 18
  | .invalidZone => 19
  | .negativeLoop => 20
  | .invalidJump => 21
  | .budgetExceeded => 22
  | .insufficientScratch => 23
  | .breach => 0

/-- What a fault number means in words, for the numbers that mean something. -/
def textOf? : Int → Option String
  | 1 => some "unexpected end of bytecode"
  | 2 => some "unhandled opcode"
  | 3 => some "definition in glyph program"
  | 4 => some "nested definition"
  | 5 => some "definition too large"
  | 6 => some "too many definitions"
  | 7 => some "invalid definition"
  | 8 => some "stack overflow"
  | 9 => some "stack underflow"
  | 10 => some "call stack overflow"
  | 11 => some "call stack underflow"
  | 12 => some "invalid stack value"
  | 13 => some "invalid point index"
  | 14 => some "invalid point range"
  | 15 => some "invalid contour index"
  | 16 => some "invalid CVT index"
  | 17 => some "invalid storage index"
  | 18 => some "division by zero"
  | 19 => some "invalid zone index"
  | 20 => some "negative loop counter"
  | 21 => some "invalid jump"
  | 22 => some "too many instructions"
  | 23 => some "insufficient scratch memory"
  | _ => none

def messageOf (code : Int) : String :=
  match textOf? code with
  | some text => "hinting: " ++ text
  | none => "hinting: error " ++ toString code

def message (f : Fault) : String := messageOf f.code

end Fault

/-- The numbers of a failure report. Any number can stand for the program and the fault. -/
structure FailureRecord where
  program : Nat
  glyph : UInt32
  pc : Int
  opcode : UInt8
  fault : Int
deriving DecidableEq, Repr

namespace FailureRecord

/-- The message of a failure report. Only the glyph program names its glyph. -/
def message (r : FailureRecord) : String :=
  let glyph := if r.program = 2 then s!"glyph {r.glyph.toNat}, " else ""
  let program := Program.nameOf r.program
  let opcode := Hexadecimal.text 2 r.opcode.toNat
  let fault := Fault.messageOf r.fault
  s!"{fault} ({glyph}{program} program, pc {r.pc}, opcode 0x{opcode})"

end FailureRecord

/-- Where and why a run failed. `program` is the program that was started, also when the instruction
belongs to a function of another one. -/
structure Failure where
  program : Program
  glyph : UInt32 := 0
  pc : Nat := 0
  opcode : UInt8 := 0
  fault : Fault
deriving DecidableEq, Repr

namespace Failure

def record (f : Failure) : FailureRecord where
  program := f.program.code
  glyph := f.glyph
  pc := f.pc
  opcode := f.opcode
  fault := f.fault.code

def message (f : Failure) : String := f.record.message

end Failure

end GridFit
