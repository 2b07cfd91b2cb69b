import GridFit.Instruction

/-!
# Opcodes

What holds of all instructions that have an opcode is checked in one pass over the table of
instructions (`Instruction.forall_ofByte`).
-/

namespace GridFit

/-- A round mode that has no parameters. -/
def RoundMode.isSimple : RoundMode → Bool
  | .super | .super45 => false
  | _ => true

namespace Instruction

theorem length_opcodes : (lowOpcodes ++ highOpcodes).length = 256 := by decide +kernel

theorem getElem?_eq_getD {l : List Instruction} {n : Nat} (h : n < l.length) (i : Instruction) :
    l[n]? = some (l.toArray.getD n i) := by
  simp [h]

/-- The instruction of a byte stands at its place in the table. -/
theorem getElem?_opcodes (b : UInt8) : (lowOpcodes ++ highOpcodes)[b.toNat]? = some (ofByte b) := by
  unfold ofByte
  exact getElem?_eq_getD (Nat.lt_of_lt_of_eq b.toNat_lt length_opcodes.symm) _

theorem ofByte_eq {b : UInt8} {i : Instruction}
    (h : (lowOpcodes ++ highOpcodes)[b.toNat]? = some i) : ofByte b = i :=
  Option.some.inj ((getElem?_opcodes b).symm.trans h)

/-- What holds of every place in the table holds of every byte. -/
theorem forall_ofByte {P : UInt8 → Instruction → Bool}
    (h : (lowOpcodes ++ highOpcodes).zipIdx.all fun (i, n) => P n.toUInt8 i) (b : UInt8) :
    P b (ofByte b) := by
  have hm : (ofByte b, b.toNat) ∈ (lowOpcodes ++ highOpcodes).zipIdx := by
    rw [List.mem_zipIdx_iff_getElem?]
    exact getElem?_opcodes b
  have hb := List.all_eq_true.1 h _ hm
  simpa using hb

/-- Only one byte ends a definition. -/
theorem eq_of_ofByte_endf {b : UInt8} (h : ofByte b = .endf) : b = 0x2d := by
  have hb := forall_ofByte (P := fun b i => match i with | .endf => b == 0x2d | _ => true)
    (by decide +kernel) b
  rw [h] at hb
  exact eq_of_beq hb

/-- Whether the instruction, if it sets a round mode, sets one that has no parameters. -/
def roundsSimply : Instruction → Bool
  | .setRound mode => mode.isSimple
  | _ => true

theorem roundsSimply_ofByte (b : UInt8) : (ofByte b).roundsSimply :=
  forall_ofByte (P := fun _ i => i.roundsSimply) (by decide +kernel) b

end Instruction

end GridFit
