import GridFit.Bytes
import GridFit.Font.Error

/-!
# Reading tables

Big-endian numbers at an offset of a table. A read past the end is a breach: the caller should have
checked.
-/

namespace GridFit

/-- The element of `a` at `i`, where a check should have come before. -/
def FontM.elementAt {α : Type} (a : Array α) (i : Nat) : FontM α :=
  if h : i < a.size then .ok a[i] else .error .breach

namespace Bytes

def u8At (b : Bytes) (i : Nat) : FontM UInt8 := FontM.elementAt b i

def u16At (b : Bytes) (i : Nat) : FontM UInt16 :=
  if h : i + 1 < b.size then .ok (word b[i] b[i + 1]) else .error .breach

def i16At (b : Bytes) (i : Nat) : FontM Int32 := do return signExtend (← b.u16At i)

def u32At (b : Bytes) (i : Nat) : FontM UInt32 := do
  return (← b.u16At i).toUInt32 <<< 16 ||| (← b.u16At (i + 2)).toUInt32

def slice (b : Bytes) (i j : Nat) : FontM Bytes :=
  if i ≤ j ∧ j ≤ b.size then .ok (b.extract i j) else .error .breach

def u16sAt (b : Bytes) (i n : Nat) : FontM (Array UInt16) :=
  return (← (List.range n).mapM fun k => b.u16At (i + 2 * k)).toArray

end Bytes

end GridFit
