import GridFit.Bytes
import GridFit.Fault
import GridFit.Instruction

/-!
# A position in a program

A cursor reads instructions and the operands that follow push opcodes. Reading and skipping agree on
where an instruction ends. A read that fails leaves the cursor where it got to.
-/

namespace GridFit

/-- A position in the byte code of a program. -/
structure Cursor where
  program : Program := .font
  code : Bytes := #[]
  pc : Nat := 0
deriving DecidableEq, Repr, Inhabited

/-- An operation that reads at a cursor and advances it. -/
abbrev CursorM := EStateM Fault Cursor

/-- The bytes that follow a push opcode. -/
structure Operands where
  data : List UInt8 := []
  wide : Bool := false
deriving DecidableEq, Repr, Inhabited

namespace Cursor

def done (c : Cursor) : Bool := c.code.size ≤ c.pc

def remaining (c : Cursor) : Nat := c.code.size - c.pc

end Cursor

namespace CursorM

def next : CursorM UInt8 := fun c =>
  if h : c.pc < c.code.size then .ok c.code[c.pc] { c with pc := c.pc + 1 }
  else .error .endOfBytecode c

def take (n : Nat) : CursorM (List UInt8) := fun c =>
  if c.pc + n ≤ c.code.size then
    .ok (c.code.extract c.pc (c.pc + n)).toList { c with pc := c.pc + n }
  else .error .endOfBytecode c

/-- Reads the operands of an instruction whose opcode has just been read. -/
def operands (i : Instruction) : CursorM Operands :=
  match i.pushForm? with
  | none => pure {}
  | some ⟨count?, wide⟩ => do
    let n ← match count? with
      | some n => pure n
      | none => UInt8.toNat <$> next
    return { data := ← take (if wide then 2 * n else n), wide }

/-- Reads past an instruction and its operands, and returns the opcode. -/
def skip : CursorM UInt8 := do
  let b ← next
  let _ ← operands (.ofByte b)
  return b

end CursorM

end GridFit
