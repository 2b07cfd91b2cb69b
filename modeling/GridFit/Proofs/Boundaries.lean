import GridFit.Proofs.Structured

/-!
# Instruction boundaries

Byte code is read in three ways: past an instruction, as when a branch is skipped, with its
operands, and by executing it. All three find the same instructions.

Reading past a program and reading it with its operands both come to each of its instructions in
turn, and to its end (`CursorM.visit_program`). An instruction that falls through is executed up to
where reading past it would have come (`Machine.skip_of_execute`).
-/

namespace GridFit

/-- The operands of the instruction with opcode `b`, by number. -/
def PushForm.ofOpcode? (b : UInt8) : Option PushForm :=
  if b = 0x40 then some ⟨none, false⟩
  else if b = 0x41 then some ⟨none, true⟩
  else if 0xb0 ≤ b ∧ b ≤ 0xb7 then some ⟨some (b.toNat - 0xb0 + 1), false⟩
  else if 0xb8 ≤ b ∧ b ≤ 0xbf then some ⟨some (b.toNat - 0xb8 + 1), true⟩
  else none

namespace Instruction

theorem pushForm_ofByte (b : UInt8) : (ofByte b).pushForm? = PushForm.ofOpcode? b := by
  have hb := forall_ofByte (P := fun b i => i.pushForm? == PushForm.ofOpcode? b)
    (by decide +kernel) b
  exact eq_of_beq hb

/-- Whether execution goes on behind the instruction, in a font with `axes` variation axes. -/
def fallsThrough (axes : Nat) (i : Instruction) : Bool := i = .endIf || i.isStraight axes

theorem fallsThrough_cases {i : Instruction} {axes : Nat} (h : i.fallsThrough axes) :
    i.isPlain ∨ i.isPush ∨ (i = .getvar ∨ i = .getdata) ∧ axes ≠ 0 := by
  rcases Bool.or_eq_true_iff.1 h with he | hs
  · rw [of_decide_eq_true he]
    exact .inl rfl
  · exact straight_cases hs

end Instruction

/-! ### Reading a whole program -/

/-- The instructions of a program with their positions, the first at `pc`. -/
def Encoded.placed (pc : Nat) : List Encoded → List (Nat × Encoded)
  | [] => []
  | e :: l => (pc, e) :: placed (pc + e.bytes.length) l

theorem Encoded.length_le_flatMap (l : List Encoded) :
    l.length ≤ (l.flatMap Encoded.bytes).length := by
  induction l with
  | nil => exact Nat.le_refl 0
  | cons e l ih =>
    rw [List.flatMap_cons, List.length_append, length_bytes, List.length_cons]
    omega

namespace CursorM

variable {α : Type}

/-- Reads an opcode and its operands. -/
def decode : CursorM (UInt8 × Operands) := do
  let b ← next
  return (b, ← operands (.ofByte b))

/-- Does `x` until nothing is left to read, at most `fuel` times, and notes where it started. -/
def visitFrom (x : CursorM α) : Nat → CursorM (List (Nat × α))
  | 0 => pure []
  | fuel + 1 => do
    let c ← get
    if c.done then return []
    let a ← x
    return (c.pc, a) :: (← visitFrom x fuel)

/-- Does `x` until nothing is left to read. -/
def visit (x : CursorM α) : CursorM (List (Nat × α)) := do
  visitFrom x (← get).remaining

theorem decode_of_ahead {c : Cursor} {e : Encoded} (h : c.Ahead e.bytes) :
    decode c = .ok (e.opcode, e.operands) (c.advance e.bytes.length) := by
  have ho := h.tail.operands (Nat.succ_le_of_lt h.inside)
  rw [Cursor.advance_advance, ← Encoded.length_bytes, Encoded.instruction] at ho
  rw [decode, bind_of_ok h.next, bind_of_ok ho]
  rfl

section Visit

variable {x : CursorM α} {f : Encoded → α}

theorem visitFrom_done {c : Cursor} (h : c.done) (fuel : Nat) : visitFrom x fuel c = .ok [] c := by
  cases fuel with
  | zero => rfl
  | succ fuel =>
    rw [visitFrom, bind_of_ok (x := get) rfl, if_pos h]
    rfl

/-- An operation that reads one instruction at a time reads a program as its instructions. -/
theorem visitFrom_program
    (hx : ∀ (c : Cursor) (e : Encoded), c.Ahead e.bytes →
      x c = .ok (f e) (c.advance e.bytes.length))
    {l : List Encoded} {c : Cursor} {fuel : Nat} (hpc : c.pc ≤ c.code.size)
    (hl : c.code.toList.drop c.pc = l.flatMap Encoded.bytes) (hf : l.length ≤ fuel) :
    visitFrom x fuel c = .ok ((Encoded.placed c.pc l).map fun p => (p.1, f p.2))
      { c with pc := c.code.size } := by
  induction l generalizing c fuel with
  | nil =>
    have hsize : c.code.size ≤ c.pc := by
      have hd := List.drop_eq_nil_iff.1 hl
      rwa [Array.length_toList] at hd
    have hend : c.pc = c.code.size := Nat.le_antisymm hpc hsize
    rw [visitFrom_done (decide_eq_true hsize), ← hend]
    rfl
  | cons e l ih =>
    obtain ⟨fuel, rfl⟩ : ∃ n, fuel = n + 1 := ⟨fuel - 1, by rw [List.length_cons] at hf; omega⟩
    rw [List.flatMap_cons] at hl
    have ha : c.Ahead (e.bytes ++ l.flatMap Encoded.bytes) := by
      rw [← hl]
      exact List.prefix_rfl
    have hlen := ha.left.le_remaining
    have hpos := Encoded.length_bytes e
    rw [Cursor.remaining] at hlen
    have hnd : ¬c.done := by
      intro hd
      have hd := of_decide_eq_true hd
      omega
    have hrest : (c.advance e.bytes.length).code.toList.drop (c.advance e.bytes.length).pc =
        l.flatMap Encoded.bytes := by
      show c.code.toList.drop (c.pc + e.bytes.length) = _
      rw [← List.drop_drop, hl, List.drop_left]
    have hin : (c.advance e.bytes.length).pc ≤ (c.advance e.bytes.length).code.size := by
      show c.pc + e.bytes.length ≤ c.code.size
      omega
    have hv := ih hin hrest (Nat.le_of_succ_le_succ hf)
    rw [visitFrom, bind_of_ok (x := get) rfl, if_neg hnd, bind_of_ok (hx c e ha.left),
      bind_of_ok hv]
    rfl

theorem visit_program
    (hx : ∀ (c : Cursor) (e : Encoded), c.Ahead e.bytes →
      x c = .ok (f e) (c.advance e.bytes.length))
    (p : Program) (l : List Encoded) :
    visit x { program := p, code := (l.flatMap Encoded.bytes).toArray } =
      .ok ((Encoded.placed 0 l).map fun q => (q.1, f q.2))
        { program := p, code := (l.flatMap Encoded.bytes).toArray
          pc := (l.flatMap Encoded.bytes).length } :=
  visitFrom_program hx (Nat.zero_le _) rfl (Encoded.length_le_flatMap l)

end Visit

end CursorM

/-! ### Executing -/

namespace FlowM

variable {f f₁ f₂ : Flow} {b : UInt8}

theorem skip_of_operands {o : Operands} (hn : next f = .ok b f₁)
    (ho : onCursor (CursorM.operands (.ofByte b)) f₁ = .ok o f₂) : skip f = .ok b f₂ := by
  obtain ⟨hb, hf₁⟩ := onCursor_ok hn
  obtain ⟨hd, hf₂⟩ := onCursor_ok ho
  have hs : CursorM.skip f.cursor = .ok b f₂.cursor := by
    rw [CursorM.skip, bind_of_ok hb, bind_of_ok hd]
    rfl
  rw [skip, onCursor, hs, hf₂, hf₁]

end FlowM

namespace Machine

variable {m m₁ m₂ : Machine} {b : UInt8}

theorem operands_of_pushOperands {i : Instruction} (h : Exec.pushOperands i m₁ = .ok () m₂) :
    ∃ o, FlowM.onCursor (CursorM.operands i) m₁.flow = .ok o m₂.flow := by
  obtain ⟨o, m', ho, hp⟩ := exists_of_bind_ok h
  have hplain : Plain (Exec.onStack (StackM.pushAll o.values)) := .stack (Refines.pushAll _).agrees
  have hsame : m₂.flow = m'.flow := by
    refine (hplain.unchanged_ok (a := ()) ?_).flow
    rw [← hp, Operands.values]
    cases o.wide <;> rfl
  rw [hsame]
  exact ⟨o, (onFlow_ok ho).1⟩

/-- An instruction that falls through leaves the flow of control where reading past it would. -/
theorem skip_of_execute (hn : Exec.onFlow FlowM.next m = .ok b m₁)
    (hx : Exec.execute (.ofByte b) m₁ = .ok () m₂)
    (hf : (Instruction.ofByte b).fallsThrough m.axisCount) : FlowM.skip m.flow = .ok b m₂.flow := by
  obtain ⟨hnext, hm₁⟩ := onFlow_ok hn
  -- without operands, it is enough that the instruction leaves control alone
  have hplain {x : Exec Unit} (hp : Plain x) (hx : x m₁ = .ok () m₂)
      (hnone : (Instruction.ofByte b).pushForm? = none) : FlowM.skip m.flow = .ok b m₂.flow := by
    rw [(hp.unchanged_ok hx).flow]
    refine FlowM.skip_of_operands (o := {}) hnext ?_
    rw [FlowM.onCursor, CursorM.operands, hnone]
    rfl
  have hvar {byte : UInt8} {x : Exec Unit} (hv : m.axisCount ≠ 0) :
      Exec.withVariations byte x m₁ = x m₁ := by
    refine execute_variations ?_
    rw [hm₁]
    exact hv
  rcases Instruction.fallsThrough_cases hf with hp | hp | ⟨hp | hp, hv⟩
  · exact hplain (Plain.execute hp) hx (Instruction.pushForm_of_isPlain hp)
  · rw [Instruction.execute_push hp] at hx
    obtain ⟨o, ho⟩ := operands_of_pushOperands hx
    exact FlowM.skip_of_operands hnext ho
  · rw [hp, Exec.execute, hvar hv] at hx
    exact hplain Plain.pushCoords hx (by rw [hp]; rfl)
  · rw [hp, Exec.execute, hvar hv] at hx
    exact hplain (Plain.push 17) hx (by rw [hp]; rfl)

end Machine

/-- Reading past instructions, reading them with their operands and executing them agree on where
instructions start and end. Which opcodes have operands, and how many, is given by number. -/
theorem Encoded.boundaries_agree :
    (∀ b : UInt8, (Instruction.ofByte b).pushForm? = PushForm.ofOpcode? b) ∧
    (∀ (p : Program) (l : List Encoded),
      let c : Cursor := { program := p, code := (l.flatMap Encoded.bytes).toArray }
      let stop : Cursor := { c with pc := c.code.size }
      CursorM.visit CursorM.skip c = .ok ((placed 0 l).map fun q => (q.1, q.2.opcode)) stop ∧
      CursorM.visit CursorM.decode c =
        .ok ((placed 0 l).map fun q => (q.1, q.2.opcode, q.2.operands)) stop) ∧
    ∀ (m m₁ m₂ : Machine) (b : UInt8), Exec.onFlow FlowM.next m = .ok b m₁ →
      Exec.execute (.ofByte b) m₁ = .ok () m₂ →
      (Instruction.ofByte b).fallsThrough m.axisCount → FlowM.skip m.flow = .ok b m₂.flow := by
  refine ⟨Instruction.pushForm_ofByte, fun p l => ⟨?_, ?_⟩, fun m m₁ m₂ b hn hx hf => ?_⟩
  · exact CursorM.visit_program (fun c e h => h.skip) p l
  · exact CursorM.visit_program (fun c e h => CursorM.decode_of_ahead h) p l
  · exact Machine.skip_of_execute hn hx hf

end GridFit
