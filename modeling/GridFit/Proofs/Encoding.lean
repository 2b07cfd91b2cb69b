import GridFit.Flow
import GridFit.Proofs.Action
import GridFit.Proofs.Opcode

/-!
# Encoded instructions

An encoded instruction is an opcode together with exactly the bytes that its form requires after it.
Where one stands ahead of a cursor, reading it, reading past it and reading its operands all go to
its last byte and no further (`Cursor.Ahead.skip`, `Cursor.Ahead.operands`).
-/

namespace GridFit

/-- The numbers that operands stand for. -/
def Operands.values (o : Operands) : List Int32 :=
  if o.wide then (Bytes.toWords o.data).map Bytes.signExtend else o.data.map Bytes.zeroExtend

namespace Instruction

/-- Whether `bytes` are what the form of the instruction requires after the opcode. -/
def requires (i : Instruction) (bytes : List UInt8) : Bool :=
  match i.pushForm?, bytes with
  | none, bytes => bytes.isEmpty
  | some ⟨some n, wide⟩, bytes => bytes.length = if wide then 2 * n else n
  | some ⟨none, _⟩, [] => false
  | some ⟨none, wide⟩, n :: data => data.length = if wide then 2 * n.toNat else n.toNat

end Instruction

/-- An instruction in byte code. -/
structure Encoded where
  opcode : UInt8
  trailing : List UInt8 := []
  complete : (Instruction.ofByte opcode).requires trailing

namespace Encoded

def instruction (e : Encoded) : Instruction := .ofByte e.opcode

def bytes (e : Encoded) : List UInt8 := e.opcode :: e.trailing

/-- The operands, without the byte that counts them. -/
def operands (e : Encoded) : Operands :=
  match e.instruction.pushForm? with
  | none => {}
  | some ⟨some _, wide⟩ => { data := e.trailing, wide }
  | some ⟨none, wide⟩ => { data := e.trailing.tail, wide }

theorem length_bytes (e : Encoded) : e.bytes.length = 1 + e.trailing.length := by
  rw [bytes, List.length_cons, Nat.add_comm]

theorem trailing_eq_nil {e : Encoded} (h : e.instruction.pushForm? = none) : e.trailing = [] := by
  have hc := e.complete
  rw [instruction] at h
  simpa [Instruction.requires, h] using hc

end Encoded

namespace Cursor

variable {c : Cursor} {b : UInt8} {l l' : List UInt8}

/-- The cursor `n` bytes further on. -/
def advance (c : Cursor) (n : Nat) : Cursor := { c with pc := c.pc + n }

/-- The bytes `l` are the next ones. -/
def Ahead (c : Cursor) (l : List UInt8) : Prop := l <+: c.code.toList.drop c.pc

theorem advance_advance (c : Cursor) (n k : Nat) : (c.advance n).advance k = c.advance (n + k) := by
  simp only [advance, Nat.add_assoc]

namespace Ahead

theorem left (h : c.Ahead (l ++ l')) : c.Ahead l := (List.prefix_append l l').trans h

theorem right (h : c.Ahead (l ++ l')) : (c.advance l.length).Ahead l' := by
  obtain ⟨rest, hr⟩ := h
  have hd := congrArg (List.drop l.length) hr
  rw [List.append_assoc, List.drop_left, List.drop_drop] at hd
  exact ⟨rest, hd⟩

theorem tail (h : c.Ahead (b :: l)) : (c.advance 1).Ahead l := right (l := [b]) h

theorem le_remaining (h : c.Ahead l) : l.length ≤ c.remaining := by
  have hl := h.length_le
  rwa [List.length_drop, Array.length_toList] at hl

theorem inside (h : c.Ahead (b :: l)) : c.pc < c.code.size := by
  have hl := h.le_remaining
  rw [List.length_cons, remaining] at hl
  omega

theorem next (h : c.Ahead (b :: l)) : CursorM.next c = .ok b (c.advance 1) := by
  have hpc := h.inside
  have hb : b = c.code[c.pc] := by
    rw [Ahead, List.drop_eq_getElem_cons hpc, List.cons_prefix_cons] at h
    exact h.1
  rw [CursorM.next, dif_pos hpc, hb, advance]

theorem take (h : c.Ahead l) (hpc : c.pc ≤ c.code.size) :
    CursorM.take l.length c = .ok l (c.advance l.length) := by
  have hl : c.pc + l.length ≤ c.code.size := by
    have hr := h.le_remaining
    rw [remaining] at hr
    omega
  have he : (c.code.extract c.pc (c.pc + l.length)).toList = l := by
    rw [Array.toList_extract, List.extract_eq_take_drop, Nat.add_sub_cancel_left]
    exact (List.prefix_iff_eq_take.1 h).symm
  rw [CursorM.take, if_pos hl, he, advance]

variable {e : Encoded}

theorem operands (h : c.Ahead e.trailing) (hpc : c.pc ≤ c.code.size) :
    CursorM.operands e.instruction c = .ok e.operands (c.advance e.trailing.length) := by
  have hc := e.complete
  rw [← Encoded.instruction] at hc
  rw [CursorM.operands, Encoded.operands]
  match hf : e.instruction.pushForm? with
  | none =>
    rw [Encoded.trailing_eq_nil hf]
    rfl
  | some ⟨some n, wide⟩ =>
    have hn : e.trailing.length = if wide then 2 * n else n := by
      simpa [Instruction.requires, hf] using hc
    dsimp only
    rw [bind_of_ok (x := pure n) rfl, ← hn, bind_of_ok (h.take hpc)]
    rfl
  | some ⟨none, wide⟩ =>
    cases ht : e.trailing with
    | nil =>
      simp [Instruction.requires, hf, ht] at hc
    | cons n data =>
      have hn : data.length = if wide then 2 * n.toNat else n.toNat := by
        simpa [Instruction.requires, hf, ht] using hc
      rw [ht] at h
      have hd := h.tail.take (Nat.succ_le_of_lt h.inside)
      dsimp only
      rw [bind_of_ok (map_of_ok h.next), ← hn, bind_of_ok hd, advance_advance, Nat.add_comm]
      rfl

theorem skip (h : c.Ahead e.bytes) : CursorM.skip c = .ok e.opcode (c.advance e.bytes.length) := by
  have ho := h.tail.operands (Nat.succ_le_of_lt h.inside)
  rw [advance_advance, ← Encoded.length_bytes, Encoded.instruction] at ho
  rw [CursorM.skip, bind_of_ok h.next, bind_of_ok ho]
  rfl

end Ahead

end Cursor

/-! ### The flow of control at an instruction -/

/-- The flow of control `n` bytes further on. -/
def Flow.advance (f : Flow) (n : Nat) : Flow := { f with cursor := f.cursor.advance n }

theorem Flow.advance_advance (f : Flow) (n k : Nat) : (f.advance n).advance k = f.advance (n + k) := by
  simp only [advance, Cursor.advance_advance]

namespace FlowM

variable {f : Flow} {b : UInt8} {l : List UInt8} {e : Encoded}

theorem next_of_ahead (h : f.cursor.Ahead (b :: l)) : next f = .ok b (f.advance 1) := by
  rw [next, onCursor, h.next, Flow.advance]

theorem skip_of_ahead (h : f.cursor.Ahead e.bytes) :
    skip f = .ok e.opcode (f.advance e.bytes.length) := by
  rw [skip, onCursor, h.skip, Flow.advance]

theorem operands_of_ahead (h : f.cursor.Ahead e.trailing) (hpc : f.cursor.pc ≤ f.cursor.code.size) :
    onCursor (CursorM.operands e.instruction) f = .ok e.operands (f.advance e.trailing.length) := by
  rw [onCursor, h.operands hpc, Flow.advance]

end FlowM

end GridFit
