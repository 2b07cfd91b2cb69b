import GridFit.Bytes
import GridFit.Fault

/-!
# The operand stack

A stack of bounded depth that lives in a buffer it is given. The words below `top` are live; those
above it are left over from earlier use and no operation reads them. An operation that fails keeps
the stack as far as it got: a failed copy or move has removed its argument.
-/

namespace GridFit

/-- A buffer of words of which the first `top` are on the stack. -/
structure OperandStack where
  words : Array Int32
  top : Nat
  top_le : top ≤ words.size

/-- An operation on the stack. -/
abbrev StackM := EStateM Fault OperandStack

namespace OperandStack

def ofBuffer (words : Array Int32) : OperandStack where
  words := words
  top := 0
  top_le := Nat.zero_le _

instance : Inhabited OperandStack := ⟨ofBuffer #[]⟩

def toList (s : OperandStack) : List Int32 := s.words.toList.take s.top

def clear (s : OperandStack) : OperandStack := { s with top := 0, top_le := Nat.zero_le _ }

/-- The number an operand stands for as an index. A negative operand becomes an index that no table
holds. -/
def toIndex (v : Int32) : Nat := if v < 0 then 2147483647 else v.toNatClampNeg

/-- Moves the word at `i` up by `n` places, and the words it passes down by one. -/
def rotate (words : Array Int32) (i n : Nat) (h : i + n < words.size) : Array Int32 :=
  match n, h with
  | 0, _ => words
  | n + 1, h => rotate (words.swap i (i + 1)) (i + 1) n (by simp; omega)

theorem size_rotate (words : Array Int32) (i n : Nat) (h : i + n < words.size) :
    (rotate words i n h).size = words.size := by
  induction n generalizing words i with
  | zero => rfl
  | succ n ih => simp [rotate, ih]

end OperandStack

namespace StackM

open OperandStack

def push (v : Int32) : StackM Unit := fun ⟨words, top, _⟩ =>
  if h : top < words.size then
    .ok () ⟨words.set top v, top + 1, by simpa using Nat.succ_le_of_lt h⟩
  else .error .stackOverflow ⟨words, top, by omega⟩

def pop : StackM Int32 := fun ⟨words, top, h⟩ =>
  if h0 : 0 < top then .ok words[top - 1] ⟨words, top - 1, by omega⟩
  else .error .stackUnderflow ⟨words, top, h⟩

def popIndex : StackM Nat := toIndex <$> pop

def peek : StackM Int32 := fun ⟨words, top, h⟩ =>
  if h0 : 0 < top then .ok words[top - 1] ⟨words, top, h⟩
  else .error .stackUnderflow ⟨words, top, h⟩

def size : StackM Nat := fun s => .ok s.top s

/-- Puts all of `vs` on the stack, or none of them if there is no room. -/
def pushAll (vs : List Int32) : StackM Unit := do
  let s ← get
  if s.words.size < s.top + vs.length then throw .stackOverflow
  vs.forM push

def pushBytes (data : List UInt8) : StackM Unit := pushAll (data.map Bytes.zeroExtend)

def pushWords (data : List UInt8) : StackM Unit :=
  pushAll ((Bytes.toWords data).map Bytes.signExtend)

def dup : StackM Unit := do push (← peek)

def swap : StackM Unit := fun ⟨words, top, h⟩ =>
  if h2 : top < 2 then .error .stackUnderflow ⟨words, top, h⟩
  else .ok () ⟨words.swap (top - 1) (top - 2), top, by simpa using h⟩

def clear : StackM Unit := modify OperandStack.clear

def depth : StackM Unit := do push (Int32.ofNat (← size))

/-- The `k`-th value counted from the top, which is the first. -/
def nth (k : Int32) : StackM Int32 := fun ⟨words, top, h⟩ =>
  let n := k.toInt
  if hn : 0 < n ∧ n ≤ top then
    .ok words[top - n.toNat] ⟨words, top, h⟩
  else .error .invalidStackValue ⟨words, top, h⟩

/-- Pops `k` and pushes a copy of the `k`-th value below it. -/
def copyIndex : StackM Unit := do push (← nth (← pop))

def move (k : Int) : StackM Unit := fun ⟨words, top, h⟩ =>
  if hk : 0 < k ∧ k ≤ top then
    .ok () ⟨rotate words (top - k.toNat) (k.toNat - 1) (by omega), top,
      by simpa [size_rotate] using h⟩
  else .error .stackUnderflow ⟨words, top, h⟩

/-- Pops `k` and moves the `k`-th value below it to the top. -/
def moveIndex : StackM Unit := do
  let k ← pop
  let _ ← nth k
  move k.toInt

/-- Brings the third value from the top to the top. -/
def roll : StackM Unit := move 3

/-- Replaces the top `v` by `f v`. The stack stays as it is if `f` fails. -/
def apply1 (f : Int32 → Except Fault Int32) : StackM Unit := fun ⟨words, top, h⟩ =>
  if h0 : 0 < top then
    match f words[top - 1] with
    | .ok v => .ok () ⟨words.set (top - 1) v, top, by simpa using h⟩
    | .error e => .error e ⟨words, top, h⟩
  else .error .stackUnderflow ⟨words, top, h⟩

/-- Replaces the two topmost values `a` and `b` by `f a b`. The stack stays as it is if `f`
fails. -/
def apply2 (f : Int32 → Int32 → Except Fault Int32) : StackM Unit := fun ⟨words, top, h⟩ =>
  if h1 : 1 < top then
    match f words[top - 2] words[top - 1] with
    | .ok v => .ok () ⟨words.set (top - 2) v, top - 1, by simp; omega⟩
    | .error e => .error e ⟨words, top, h⟩
  else .error .stackUnderflow ⟨words, top, h⟩

end StackM

end GridFit
