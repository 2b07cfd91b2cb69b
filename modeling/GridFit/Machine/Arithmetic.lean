import GridFit.Instruction
import GridFit.Machine.Basic

/-!
# Arithmetic and logic

Operations on the topmost values of the stack. Truth values are 0 and 1.
-/

namespace GridFit

def ofBool (b : Bool) : Int32 := if b then 1 else 0

def BinaryOp.eval : BinaryOp → Int32 → Int32 → Except Fault Int32
  | .lt, a, b => .ok (ofBool (a < b))
  | .lteq, a, b => .ok (ofBool (a ≤ b))
  | .gt, a, b => .ok (ofBool (b < a))
  | .gteq, a, b => .ok (ofBool (b ≤ a))
  | .eq, a, b => .ok (ofBool (a = b))
  | .neq, a, b => .ok (ofBool (a ≠ b))
  | .and, a, b => .ok (ofBool (a ≠ 0 ∧ b ≠ 0))
  | .or, a, b => .ok (ofBool (a ≠ 0 ∨ b ≠ 0))
  | .add, a, b => .ok (a + b)
  | .sub, a, b => .ok (a - b)
  | .div, a, b => if b = 0 then .error .divisionByZero else .ok (Fixed.mulDivTrunc a 64 b)
  | .mul, a, b => .ok (Fixed.mulDiv a b 64)
  | .max, a, b => .ok (if a < b then b else a)
  | .min, a, b => .ok (if b < a then b else a)

def UnaryOp.eval (r : RoundState) : UnaryOp → Int32 → Int32
  | .odd, v => ofBool (r.round v &&& 127 = 64)
  | .even, v => ofBool (r.round v &&& 127 = 0)
  | .not, v => ofBool (v = 0)
  | .abs, v => Fixed.magnitude v
  | .neg, v => -v
  | .floor, v => Fixed.floor v
  | .ceiling, v => Fixed.ceil v
  | .round _, v => r.round v
  | .nround _, v => v

namespace Exec

def binary (op : BinaryOp) : Exec Unit := onStack (StackM.apply2 op.eval)

def unary (op : UnaryOp) : Exec Unit := do
  let r := (← graphics).round
  onStack (StackM.apply1 fun v => .ok (op.eval r v))

def pushOperands (i : Instruction) : Exec Unit := do
  let o ← onFlow (FlowM.onCursor (CursorM.operands i))
  onStack (if o.wide then StackM.pushWords o.data else StackM.pushBytes o.data)

end Exec

end GridFit
