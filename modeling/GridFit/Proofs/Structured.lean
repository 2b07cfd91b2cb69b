import GridFit.Proofs.Encoding
import GridFit.Proofs.Execution
import GridFit.Proofs.Plain

/-!
# Structured control flow

A block is a tree of instructions, sequences and tests. In byte code the branches of a test are found
at run time, by a scan for the marker that ends them. The scan reads past whole instructions and
counts the tests that open and close, so it passes over an encoded block at any depth
(`Block.skip_encode`). A machine that stands at an encoded block therefore does what the tree says
(`Block.performs`).
-/

namespace GridFit

/-- Whether the instruction belongs to no control structure, in a font with `axes` variation axes. A
font without variations may define the instructions that ask for them. -/
def Instruction.isStraight (axes : Nat) : Instruction → Bool
  | .elseBranch | .ifTest | .endIf | .jmpr | .jumpIf _ | .loopcall | .call => false
  | .fdef | .idef | .endf | .undefined _ => false
  | .getvar | .getdata => axes ≠ 0
  | _ => true

namespace Instruction

variable {i : Instruction} {axes : Nat}

theorem straight_cases (h : i.isStraight axes) :
    i.isPlain ∨ i.isPush ∨ (i = .getvar ∨ i = .getdata) ∧ axes ≠ 0 := by
  cases i
  case getvar => exact .inr (.inr ⟨.inl rfl, of_decide_eq_true h⟩)
  case getdata => exact .inr (.inr ⟨.inr rfl, of_decide_eq_true h⟩)
  all_goals first | exact .inl rfl | exact .inr (.inl rfl) | cases h

theorem pushForm_of_isPlain (h : i.isPlain) : i.pushForm? = none := by
  cases i <;> first | (cases h; done) | rfl

theorem execute_push (h : i.isPush) : Exec.execute i = Exec.pushOperands i := by
  cases i <;> first | (cases h; done) | rfl

end Instruction

namespace Encoded

/-- The start of a test. -/
def ifTest : Encoded := ⟨0x58, [], by decide +kernel⟩

/-- The start of the other branch of a test. -/
def elseBranch : Encoded := ⟨0x1b, [], by decide +kernel⟩

/-- The end of a test. -/
def endIf : Encoded := ⟨0x59, [], by decide +kernel⟩

theorem instruction_ifTest : ifTest.instruction = .ifTest := Instruction.ofByte_eq rfl

theorem instruction_elseBranch : elseBranch.instruction = .elseBranch := Instruction.ofByte_eq rfl

theorem instruction_endIf : endIf.instruction = .endIf := Instruction.ofByte_eq rfl

/-- What a straight instruction does, once it has been read with its operands. -/
def perform (e : Encoded) : Exec Unit :=
  match e.instruction with
  | .getvar => Exec.pushCoords
  | .getdata => Exec.push 17
  | i => if i.isPush then Exec.onStack (StackM.pushAll e.operands.values) else Exec.execute i

end Encoded

/-- A program of straight instructions and tests, for a font with `axes` variation axes. -/
inductive Block (axes : Nat)
  | empty
  | instr (e : Encoded) (h : e.instruction.isStraight axes)
  | seq (first second : Block axes)
  | ifThen (body : Block axes)
  | ifElse (body other : Block axes)

namespace Block

variable {axes : Nat}

/-- The byte code of a block. -/
def encode : Block axes → List UInt8
  | empty => []
  | instr e _ => e.bytes
  | seq a b => a.encode ++ b.encode
  | ifThen a => Encoded.ifTest.bytes ++ (a.encode ++ Encoded.endIf.bytes)
  | ifElse a b =>
    Encoded.ifTest.bytes ++ (a.encode ++
      (Encoded.elseBranch.bytes ++ (b.encode ++ Encoded.endIf.bytes)))

/-- How many instructions the byte code has. -/
def count : Block axes → Nat
  | empty => 0
  | instr _ _ => 1
  | seq a b => a.count + b.count
  | ifThen a => 1 + a.count + 1
  | ifElse a b => 1 + a.count + 1 + b.count + 1

/-- What a block does. It is not read from a program: `pc`, where its byte code is taken to start, is
only used to say which instruction failed. -/
def eval : Block axes → Nat → EStateM Failure Machine Unit
  | empty, _ => pure ()
  | instr e _, pc => Machine.locate pc e.opcode e.perform
  | seq a b, pc => do
    a.eval pc
    b.eval (pc + a.encode.length)
  | ifThen a, pc => do
    if (← Machine.locate pc Encoded.ifTest.opcode Exec.pop) ≠ 0 then a.eval (pc + 1)
  | ifElse a b, pc => do
    if (← Machine.locate pc Encoded.ifTest.opcode Exec.pop) ≠ 0 then a.eval (pc + 1)
    else b.eval (pc + 1 + a.encode.length + 1)

end Block

/-! ### Scanning -/

namespace Block

variable {axes : Nat} {f : Flow} {e : Encoded} {stopAtElse : Bool} {depth fuel : Nat}

theorem count_le (t : Block axes) : t.count ≤ t.encode.length := by
  induction t with
  | empty => exact Nat.le_refl 0
  | instr e h => simp only [count, encode, Encoded.length_bytes]; omega
  | seq a b iha ihb => simp only [count, encode, List.length_append]; omega
  | ifThen a ih => simp only [count, encode, List.length_append, Encoded.length_bytes]; omega
  | ifElse a b iha ihb => simp only [count, encode, List.length_append, Encoded.length_bytes]; omega

theorem depthAfter_straight {i : Instruction} (h : i.isStraight axes) (stopAtElse : Bool)
    (depth : Nat) : FlowM.depthAfter? stopAtElse depth i = some depth := by
  cases i <;> first | (cases h; done) | rfl

theorem depthAfter_ifTest (stopAtElse : Bool) (depth : Nat) :
    FlowM.depthAfter? stopAtElse depth Encoded.ifTest.instruction = some (depth + 1) := by
  rw [Encoded.instruction_ifTest, FlowM.depthAfter?]

theorem depthAfter_elseBranch (stopAtElse : Bool) (depth : Nat) :
    FlowM.depthAfter? stopAtElse (depth + 1) Encoded.elseBranch.instruction = some (depth + 1) := by
  rw [Encoded.instruction_elseBranch, FlowM.depthAfter?, if_neg (by omega)]

theorem depthAfter_endIf (stopAtElse : Bool) (depth : Nat) :
    FlowM.depthAfter? stopAtElse (depth + 1) Encoded.endIf.instruction = some depth := by
  rw [Encoded.instruction_endIf, FlowM.depthAfter?, if_neg (by omega), Nat.add_sub_cancel]

/-- An instruction that does not end the branch is passed over. -/
theorem skip_one {d : Nat} (hd : FlowM.depthAfter? stopAtElse depth e.instruction = some d)
    (h : f.cursor.Ahead e.bytes) : FlowM.skipBranchFrom stopAtElse depth (fuel + 1) f =
      FlowM.skipBranchFrom stopAtElse d fuel (f.advance e.bytes.length) := by
  rw [Encoded.instruction] at hd
  rw [FlowM.skipBranchFrom, bind_of_ok (FlowM.skip_of_ahead h), hd]

/-- The scan passes over an encoded block, whatever the depth. -/
theorem skip_encode (t : Block axes) (stopAtElse : Bool) (depth fuel : Nat) {f : Flow}
    (h : f.cursor.Ahead t.encode) : FlowM.skipBranchFrom stopAtElse depth (t.count + fuel) f =
      FlowM.skipBranchFrom stopAtElse depth fuel (f.advance t.encode.length) := by
  induction t generalizing depth fuel f with
  | empty => rw [count, Nat.zero_add]; rfl
  | instr e hs =>
    rw [count, Nat.add_comm]
    exact skip_one (depthAfter_straight hs stopAtElse depth) h
  | seq a b iha ihb =>
    rw [count, Nat.add_assoc, iha depth _ h.left, ihb depth _ h.right, Flow.advance_advance, encode,
      List.length_append]
  | ifThen a ih =>
    have hb := h.right
    have he : 1 + a.count + 1 + fuel = a.count + (fuel + 1) + 1 := by omega
    rw [count, he, skip_one (depthAfter_ifTest _ _) h.left, ih _ _ hb.left,
      skip_one (depthAfter_endIf _ _) hb.right]
    simp only [Flow.advance_advance, encode, List.length_append, Nat.add_assoc]
  | ifElse a b iha ihb =>
    have hb := h.right
    have ho := hb.right.right
    have he : 1 + a.count + 1 + b.count + 1 + fuel = a.count + (b.count + (fuel + 1) + 1) + 1 := by
      omega
    rw [count, he, skip_one (depthAfter_ifTest _ _) h.left, iha _ _ hb.left,
      skip_one (depthAfter_elseBranch _ _) hb.right.left, ihb _ _ ho.left,
      skip_one (depthAfter_endIf _ _) ho.right]
    simp only [Flow.advance_advance, encode, List.length_append, Nat.add_assoc]

/-- From the start of a branch the scan goes to just past the marker that ends it. -/
theorem skipBranch_encode (t : Block axes) {stopAtElse : Bool} {e : Encoded} {f : Flow}
    (he : FlowM.depthAfter? stopAtElse 0 e.instruction = none)
    (h : f.cursor.Ahead (t.encode ++ e.bytes)) :
    FlowM.skipBranch stopAtElse f = .ok () (f.advance (t.encode.length + e.bytes.length)) := by
  obtain ⟨fuel, hf⟩ : ∃ fuel, f.cursor.remaining = t.count + (fuel + 1) := by
    have hr := h.le_remaining
    have hc := t.count_le
    rw [List.length_append, Encoded.length_bytes] at hr
    exact ⟨f.cursor.remaining - t.count - 1, by omega⟩
  rw [Encoded.instruction] at he
  have hg : (get : FlowM Flow) f = .ok f f := rfl
  rw [FlowM.skipBranch, bind_of_ok hg, hf, t.skip_encode stopAtElse 0 _ h.left,
    FlowM.skipBranchFrom, bind_of_ok (FlowM.skip_of_ahead h.right), he, Flow.advance_advance]
  rfl

end Block

/-! ### Straight instructions -/

namespace Machine

variable {m m' : Machine}

/-- The machine `n` bytes further on in the program. -/
def advance (m : Machine) (n : Nat) : Machine := { m with flow := m.flow.advance n }

theorem advance_advance (m : Machine) (n k : Nat) : (m.advance n).advance k = m.advance (n + k) := by
  simp only [advance, Flow.advance_advance]

theorem SameControl.cursor_advance (h : m.SameControl m') (n : Nat) :
    (m'.advance n).flow.cursor = m.flow.cursor.advance n := by
  rw [← h.flow]
  rfl

theorem SameControl.withControl_advance (h : m.SameControl m') (n : Nat) :
    m'.withControl (m.flow.advance n) m.functions m.instructions = m'.advance n := by
  rw [← h.flow, ← h.functions, ← h.instructions]
  rfl

/-- `m₁` is `m₂` further on, and control is as in `m` up to that. -/
def Further (m : Machine) (n : Nat) (m₁ m₂ : Machine) : Prop := m₁ = m₂.advance n ∧ m.SameControl m₂

end Machine

/-- A plain action does the same further on in the program. -/
theorem Plain.advance {α : Type} {x : Exec α} (h : Plain x) {m₀ m : Machine} (hm : m₀.SameControl m)
    (n : Nat) : SameOutcome (m₀.Further n) (x (m.advance n)) (x m) := by
  have hw := h.withControl m (m.flow.advance n) m.functions m.instructions rfl
  rw [(Machine.SameControl.refl m).withControl_advance] at hw
  rcases hw.cases with ⟨a, m₁, m₂, hx, hx', rfl, -⟩ | ⟨e, m₁, m₂, hx, hx', rfl, -⟩
  · have hc := h.unchanged_ok hx'
    rw [hx, hx']
    exact ⟨rfl, hc.withControl_advance n, hm.trans hc⟩
  · have hc := h.unchanged_error hx'
    rw [hx, hx']
    exact ⟨rfl, hc.withControl_advance n, hm.trans hc⟩

namespace Plain

variable {α : Type} {x : Exec α} {a : α} {e : Fault} {m m' : Machine}

theorem advance_ok (h : Plain x) (hx : x m = .ok a m') (n : Nat) :
    x (m.advance n) = .ok a (m'.advance n) := by
  have hs := h.advance (.refl m) n
  rw [hx] at hs
  rcases hs.cases with ⟨_, m₁, m₂, h₁, h₂, rfl, -⟩ | ⟨_, _, _, -, h₂, -⟩
  · cases h₂
    exact h₁
  · cases h₂

theorem advance_error (h : Plain x) (hx : x m = .error e m') (n : Nat) :
    x (m.advance n) = .error e (m'.advance n) := by
  have hs := h.advance (.refl m) n
  rw [hx] at hs
  rcases hs.cases with ⟨_, _, _, -, h₂, -⟩ | ⟨_, m₁, m₂, h₁, h₂, rfl, -⟩
  · cases h₂
  · cases h₂
    exact h₁

end Plain

namespace Machine

variable {m₀ m : Machine}

theorem Further.locate {α : Type} {x : Exec α} {n : Nat} (pc : Nat) (opcode : UInt8)
    (h : SameOutcome (m₀.Further n) (x (m.advance n)) (x m)) : SameOutcome (m₀.Further n)
      (locate pc opcode x (m.advance n)) (locate pc opcode x m) := by
  rcases h.cases with ⟨a, m₁, m₂, hx, hx', hf⟩ | ⟨e, m₁, m₂, hx, hx', hf⟩
  · rw [locate_of_ok _ _ hx, locate_of_ok _ _ hx']
    exact ⟨rfl, hf⟩
  · rw [locate_of_error _ _ hx, locate_of_error _ _ hx']
    obtain ⟨rfl, hc⟩ := hf
    exact ⟨rfl, rfl, hc⟩

/-- The machine at an encoded instruction executes it. -/
theorem step_encoded {e : Encoded} (h : m.flow.cursor.Ahead e.bytes) :
    step m = locate m.flow.cursor.pc e.opcode (Exec.execute e.instruction) (m.advance 1) := by
  have hn : Exec.onFlow FlowM.next m = .ok e.opcode (m.advance 1) := by
    rw [Exec.onFlow, FlowM.next_of_ahead h, advance]
  exact step_read hn

end Machine

namespace Encoded

variable {e : Encoded} {axes : Nat}

theorem perform_plain (h : e.instruction.isPlain) : e.perform = Exec.execute e.instruction := by
  unfold perform
  generalize e.instruction = i at h
  cases i <;> first | (cases h; done) | rfl

theorem perform_push (h : e.instruction.isPush) :
    e.perform = Exec.onStack (StackM.pushAll e.operands.values) := by
  unfold perform
  generalize e.instruction = i at h
  cases i <;> first | (cases h; done) | rfl

theorem perform_getvar (h : e.instruction = .getvar) : e.perform = Exec.pushCoords := by
  rw [perform, h]

theorem perform_getdata (h : e.instruction = .getdata) : e.perform = Exec.push 17 := by
  rw [perform, h]

theorem plain_perform (h : e.instruction.isStraight axes) : Plain e.perform := by
  rcases Instruction.straight_cases h with hp | hp | ⟨hp | hp, -⟩
  · rw [perform_plain hp]
    exact Plain.execute hp
  · rw [perform_push hp]
    exact .stack (Refines.pushAll _).agrees
  · rw [perform_getvar hp]
    exact Plain.pushCoords
  · rw [perform_getdata hp]
    exact Plain.push 17

end Encoded

namespace Machine

variable {m : Machine} {e : Encoded}

theorem locate_congr {α : Type} {x y : Exec α} {m' : Machine} (pc : Nat) (opcode : UInt8)
    (h : x m = y m') : locate pc opcode x m = locate pc opcode y m' := by
  rw [locate, locate, h]

theorem execute_variations {byte : UInt8} {x : Exec Unit} (hv : m.axisCount ≠ 0) :
    Exec.withVariations byte x m = x m := by
  have hg : (get : Exec Machine) m = .ok m m := rfl
  rw [Exec.withVariations, bind_of_ok hg, if_neg hv]

theorem execute_operands (hp : e.instruction.isPush) (h : m.flow.cursor.Ahead e.bytes) :
    Exec.pushOperands e.instruction (m.advance 1) = e.perform (m.advance e.bytes.length) := by
  have ho := FlowM.operands_of_ahead (f := m.flow.advance 1) h.tail (Nat.succ_le_of_lt h.inside)
  have hf : Exec.onFlow (FlowM.onCursor (CursorM.operands e.instruction)) (m.advance 1) =
      .ok e.operands (m.advance e.bytes.length) := by
    rw [Exec.onFlow, advance, ho, Flow.advance_advance, ← Encoded.length_bytes]
    rfl
  rw [Exec.pushOperands, bind_of_ok hf, Encoded.perform_push hp, Operands.values]
  cases e.operands.wide <;> rfl

/-- The machine at a straight instruction does what the instruction does, and goes on behind it. -/
theorem step_straight (hs : e.instruction.isStraight m.axisCount) (h : m.flow.cursor.Ahead e.bytes) :
    step m = locate m.flow.cursor.pc e.opcode e.perform (m.advance e.bytes.length) := by
  rw [step_encoded h]
  refine locate_congr _ _ ?_
  have hlen (hn : e.instruction.pushForm? = none) : e.bytes.length = 1 := by
    rw [Encoded.length_bytes, Encoded.trailing_eq_nil hn]
    rfl
  rcases Instruction.straight_cases hs with hp | hp | ⟨hp | hp, hv⟩
  · rw [Encoded.perform_plain hp, hlen (Instruction.pushForm_of_isPlain hp)]
  · rw [Instruction.execute_push hp, execute_operands hp h]
  · rw [Encoded.perform_getvar hp, hlen (by rw [hp]; rfl), hp]
    exact execute_variations hv
  · rw [Encoded.perform_getdata hp, hlen (by rw [hp]; rfl), hp]
    exact execute_variations hv

end Machine

/-! ### Tests -/

namespace Block

variable {axes : Nat} {m₀ m m' : Machine}

theorem further_pop (hm : m₀.SameControl m) (n pc : Nat) : SameOutcome (m₀.Further n)
    (Machine.locate pc Encoded.ifTest.opcode Exec.pop (m.advance n))
    (Machine.locate pc Encoded.ifTest.opcode Exec.pop m) :=
  Machine.Further.locate pc _ (Plain.pop.advance hm n)

/-- A block does the same wherever the machine stands, and leaves control alone. -/
theorem eval_advance (t : Block axes) (hm : m₀.SameControl m) (n pc : Nat) :
    SameOutcome (m₀.Further n) (t.eval pc (m.advance n)) (t.eval pc m) := by
  induction t generalizing m pc with
  | empty => exact ⟨rfl, rfl, hm⟩
  | instr e h => exact Machine.Further.locate pc _ ((Encoded.plain_perform h).advance hm n)
  | seq a b iha ihb =>
    refine (iha hm pc).bind (fun _ _ h => h) ?_
    rintro _ _ m₂ ⟨rfl, hc⟩
    exact ihb hc _
  | ifThen a ih =>
    refine (further_pop hm n pc).bind (fun _ _ h => h) ?_
    rintro c _ m₂ ⟨rfl, hc⟩
    by_cases hz : c ≠ 0
    · rw [if_pos hz]
      exact ih hc _
    · rw [if_neg hz]
      exact ⟨rfl, rfl, hc⟩
  | ifElse a b iha ihb =>
    refine (further_pop hm n pc).bind (fun _ _ h => h) ?_
    rintro c _ m₂ ⟨rfl, hc⟩
    by_cases hz : c ≠ 0
    · rw [if_pos hz]
      exact iha hc _
    · rw [if_neg hz]
      exact ihb hc _

theorem sameControl_of_eval {t : Block axes} {pc : Nat} (h : t.eval pc m = .ok () m') :
    m.SameControl m' := by
  have hs := t.eval_advance (.refl m) 0 pc
  rw [h] at hs
  rcases hs.cases with ⟨_, _, m₂, -, h₂, -, hc⟩ | ⟨_, _, _, -, h₂, -⟩
  · cases h₂
    exact hc
  · cases h₂

end Block

namespace Machine

variable {m m₁ m' : Machine}

/-- The scan from the start of a branch, as part of an instruction. -/
theorem onFlow_skipBranch {axes : Nat} (t : Block axes) {stopAtElse : Bool} {e : Encoded}
    (he : FlowM.depthAfter? stopAtElse 0 e.instruction = none)
    (h : m.flow.cursor.Ahead (t.encode ++ e.bytes)) :
    Exec.onFlow (FlowM.skipBranch stopAtElse) m =
      .ok () (m.advance (t.encode.length + e.bytes.length)) := by
  rw [Exec.onFlow, t.skipBranch_encode he h, advance]

theorem step_endIf (h : m.flow.cursor.Ahead Encoded.endIf.bytes) :
    step m = .ok () (m.advance Encoded.endIf.bytes.length) := by
  rw [step_encoded h, Encoded.instruction_endIf]
  rfl

theorem step_elseBranch {axes : Nat} (t : Block axes)
    (h : m.flow.cursor.Ahead (Encoded.elseBranch.bytes ++ (t.encode ++ Encoded.endIf.bytes))) :
    step m = .ok () (m.advance
      (Encoded.elseBranch.bytes ++ (t.encode ++ Encoded.endIf.bytes)).length) := by
  have he : FlowM.depthAfter? false 0 Encoded.endIf.instruction = none := by
    rw [Encoded.instruction_endIf]
    rfl
  have hs := onFlow_skipBranch (m := m.advance 1) t he h.right
  rw [step_encoded h.left, Encoded.instruction_elseBranch]
  rw [advance_advance] at hs
  rw [List.length_append, List.length_append]
  exact locate_of_ok _ _ hs

variable {c : Int32}

theorem step_ifTest_error {e : Fault} (h : m.flow.cursor.Ahead Encoded.ifTest.bytes)
    (hp : Exec.pop m = .error e m') :
    step m = .error (m'.failure m.flow.cursor.pc Encoded.ifTest.opcode e) (m'.advance 1) := by
  rw [step_encoded h, Encoded.instruction_ifTest]
  exact locate_of_error _ _ (bind_of_error (Plain.pop.advance_error hp 1))

theorem step_ifTest_true (h : m.flow.cursor.Ahead Encoded.ifTest.bytes) (hp : Exec.pop m = .ok c m')
    (hc : c ≠ 0) : step m = .ok () (m'.advance 1) := by
  rw [step_encoded h, Encoded.instruction_ifTest]
  refine locate_of_ok _ _ ((bind_of_ok (Plain.pop.advance_ok hp 1)).trans ?_)
  rw [if_neg hc]
  rfl

theorem step_ifTest_false {axes : Nat} (t : Block axes) {e : Encoded}
    (he : FlowM.depthAfter? true 0 e.instruction = none)
    (h : m.flow.cursor.Ahead (Encoded.ifTest.bytes ++ (t.encode ++ e.bytes)))
    (hp : Exec.pop m = .ok c m') (hc : c = 0) :
    step m = .ok () (m'.advance (Encoded.ifTest.bytes ++ (t.encode ++ e.bytes)).length) := by
  have ha : (m'.advance 1).flow.cursor.Ahead (t.encode ++ e.bytes) := by
    rw [(Plain.pop.unchanged_ok hp).cursor_advance]
    exact h.right
  have hs := onFlow_skipBranch t he ha
  rw [step_encoded h.left, Encoded.instruction_ifTest, List.length_append, List.length_append]
  rw [advance_advance] at hs
  refine locate_of_ok _ _ ((bind_of_ok (Plain.pop.advance_ok hp 1)).trans ?_)
  rw [if_pos hc]
  exact hs

end Machine

/-! ### Blocks -/

namespace Machine

variable {m m₀ m₁ m' : Machine} {size : Nat} {r r' : EStateM.Result Failure Machine Unit}

/-- Executing instructions from `m` on comes to the outcome `r`, except for where the cursor is then:
`size` bytes further on after a success. -/
def Performs (m : Machine) (size : Nat) : EStateM.Result Failure Machine Unit → Prop
  | .ok () m' => ∃ n, steps n m = .ok () (m'.advance size)
  | .error f m' => ∃ n m₁ k, steps n m = .ok () m₁ ∧ ¬m₁.flow.finished ∧
      step m₁ = .error f (m'.advance k)

namespace Performs

theorem prepend {n : Nat} (hs : steps n m = .ok () m₁) (h : m₁.Performs size r) :
    m.Performs size r := by
  match r, h with
  | .ok () m', ⟨k, hk⟩ => exact ⟨n + k, (steps_add k hs).trans hk⟩
  | .error f m', ⟨k, m₂, j, hk, hf⟩ => exact ⟨n + k, m₂, j, (steps_add k hs).trans hk, hf⟩

/-- A last instruction that only moves the cursor. -/
theorem append {size' : Nat} (h : m.Performs size r)
    (hs : ∀ m', r = .ok () m' → step (m'.advance size) = .ok () (m'.advance size')) :
    m.Performs size' r := by
  match r, h with
  | .ok () m', ⟨n, hn⟩ =>
    refine ⟨n + 1, ?_⟩
    rw [steps_add 1 hn, steps_one]
    exact hs m' rfl
  | .error f m', h => exact h

/-- The outcome can be taken without the distance to where the instructions start. -/
theorem shift {n : Nat} (h : m.Performs size r) (hr : SameOutcome (m₀.Further n) r r') :
    m.Performs (n + size) r' := by
  rcases hr.cases with ⟨_, m₁, m₂, rfl, rfl, rfl, -⟩ | ⟨f, m₁, m₂, rfl, rfl, rfl, -⟩
  · obtain ⟨k, hk⟩ := h
    rw [advance_advance] at hk
    exact ⟨k, hk⟩
  · obtain ⟨k, m₃, j, hk, hf, hs⟩ := h
    rw [advance_advance] at hs
    exact ⟨k, m₃, n + j, hk, hf, hs⟩

end Performs

end Machine

namespace Block

/-- A machine that stands at the byte code of the block does what the block does. -/
def Faithful {axes : Nat} (t : Block axes) : Prop :=
  ∀ m : Machine, m.axisCount = axes → m.flow.cursor.Ahead t.encode →
    m.Performs t.encode.length (t.eval m.flow.cursor.pc m)

namespace Faithful

variable {axes n : Nat} {t a b : Block axes} {m m' : Machine}

/-- The block stands `n` bytes ahead of where the machine was when control was last changed. -/
theorem further (ht : t.Faithful) (ha : m.axisCount = axes) (hc : m.SameControl m')
    (h : (m.flow.cursor.advance n).Ahead t.encode) :
    (m'.advance n).Performs (n + t.encode.length) (t.eval (m.flow.cursor.pc + n) m') := by
  have hm := hc.cursor_advance n
  have hp := ht (m'.advance n) (hc.axisCount.trans ha) (by rw [hm]; exact h)
  rw [hm] at hp
  exact hp.shift (t.eval_advance hc n _)

theorem instr {e : Encoded} (hs : e.instruction.isStraight axes) : (Block.instr e hs).Faithful := by
  intro m ha h
  have hstep := Machine.step_straight (ha ▸ hs) h
  have hx := (Encoded.plain_perform hs).advance (.refl m) e.bytes.length
  have hl := Machine.Further.locate m.flow.cursor.pc e.opcode hx
  rw [eval]
  rcases hl.cases with ⟨_, m₁, m₂, h₁, h₂, rfl, -⟩ | ⟨f, m₁, m₂, h₁, h₂, rfl, -⟩
  · rw [h₂]
    exact ⟨1, (Machine.steps_one m).trans (hstep.trans h₁)⟩
  · rw [h₂]
    exact ⟨0, m, _, rfl, Machine.not_finished_of_lt h.inside, hstep.trans h₁⟩

theorem seq (iha : a.Faithful) (ihb : b.Faithful) : (Block.seq a b).Faithful := by
  intro m ha h
  have hfirst := iha m ha h.left
  rw [eval]
  cases hx : a.eval m.flow.cursor.pc m with
  | error f m' =>
    rw [hx] at hfirst
    rw [bind_of_error hx]
    exact hfirst
  | ok u m' =>
    rw [hx] at hfirst
    obtain ⟨n, hn⟩ := hfirst
    rw [bind_of_ok hx, encode, List.length_append]
    exact (ihb.further ha (sameControl_of_eval hx) h.right).prepend hn

/-- The branch of a test that is executed, with the instruction at its end. -/
theorem branch {rest : List UInt8} (ih : a.Faithful) (ha : m.axisCount = axes) (hc : m.SameControl m')
    (h : (m.flow.cursor.advance n).Ahead (a.encode ++ rest))
    (hs : ∀ m₁ : Machine, m₁.flow.cursor.Ahead rest →
      Machine.step m₁ = .ok () (m₁.advance rest.length)) :
    (m'.advance n).Performs (n + (a.encode ++ rest).length) (a.eval (m.flow.cursor.pc + n) m') := by
  refine (ih.further ha hc h.left).append fun m₁ hm₁ => ?_
  have hc₁ := hc.trans (sameControl_of_eval hm₁)
  have hr := h.right
  rw [Cursor.advance_advance, ← hc₁.cursor_advance] at hr
  rw [hs _ hr, Machine.advance_advance, List.length_append, Nat.add_assoc]

theorem ifThen (ih : a.Faithful) : (Block.ifThen a).Faithful := by
  intro m ha h
  rw [eval]
  cases hp : Exec.pop m with
  | error e m' =>
    rw [bind_of_error (Machine.locate_of_error _ _ hp)]
    exact ⟨0, m, 1, rfl, Machine.not_finished_of_lt h.left.inside, Machine.step_ifTest_error h.left hp⟩
  | ok c m' =>
    have hc := Plain.pop.unchanged_ok hp
    rw [bind_of_ok (Machine.locate_of_ok _ _ hp)]
    by_cases hz : c ≠ 0
    · rw [if_pos hz, encode, List.length_append]
      have hs := (Machine.steps_one m).trans (Machine.step_ifTest_true h.left hp hz)
      exact (ih.branch ha hc h.right fun _ => Machine.step_endIf).prepend hs
    · rw [if_neg hz]
      have he : FlowM.depthAfter? true 0 Encoded.endIf.instruction = none := by
        rw [Encoded.instruction_endIf]
        rfl
      exact ⟨1, (Machine.steps_one m).trans
        (Machine.step_ifTest_false a he h hp (Decidable.of_not_not hz))⟩

theorem ifElse (iha : a.Faithful) (ihb : b.Faithful) : (Block.ifElse a b).Faithful := by
  intro m ha h
  rw [eval]
  cases hp : Exec.pop m with
  | error e m' =>
    rw [bind_of_error (Machine.locate_of_error _ _ hp)]
    exact ⟨0, m, 1, rfl, Machine.not_finished_of_lt h.left.inside, Machine.step_ifTest_error h.left hp⟩
  | ok c m' =>
    have hc := Plain.pop.unchanged_ok hp
    rw [bind_of_ok (Machine.locate_of_ok _ _ hp)]
    by_cases hz : c ≠ 0
    · rw [if_pos hz, encode, List.length_append]
      have hs := (Machine.steps_one m).trans (Machine.step_ifTest_true h.left hp hz)
      exact (iha.branch ha hc h.right fun _ => Machine.step_elseBranch b).prepend hs
    · rw [if_neg hz]
      have he : FlowM.depthAfter? true 0 Encoded.elseBranch.instruction = none := by
        rw [Encoded.instruction_elseBranch]
        rfl
      -- Up to the other branch, the byte code is what the scan passes over.
      have h' : m.flow.cursor.Ahead
          ((Encoded.ifTest.bytes ++ (a.encode ++ Encoded.elseBranch.bytes)) ++
            (b.encode ++ Encoded.endIf.bytes)) := by
        simpa only [encode, List.append_assoc] using h
      have hs := (Machine.steps_one m).trans
        (Machine.step_ifTest_false a he h'.left hp (Decidable.of_not_not hz))
      have hb := (ihb.branch ha hc h'.right fun _ => Machine.step_endIf).prepend hs
      have hpc : m.flow.cursor.pc +
          (Encoded.ifTest.bytes ++ (a.encode ++ Encoded.elseBranch.bytes)).length =
            m.flow.cursor.pc + 1 + a.encode.length + 1 := by
        rw [List.length_append, List.length_append, ← Nat.add_assoc, ← Nat.add_assoc]
        rfl
      rw [hpc, ← List.length_append] at hb
      simpa only [encode, List.append_assoc] using hb

end Faithful

theorem faithful {axes : Nat} (t : Block axes) : t.Faithful := by
  induction t with
  | empty => exact fun m _ _ => ⟨0, rfl⟩
  | instr e hs => exact .instr hs
  | seq a b iha ihb => exact .seq iha ihb
  | ifThen a ih => exact .ifThen ih
  | ifElse a b iha ihb => exact .ifElse iha ihb

open Machine in
/-- A machine that stands at an encoded block, whatever follows it, does what the block does and then
stands just past it. If an instruction of the block fails, the machine fails at that instruction and
with the same fault. -/
theorem run_encode {axes : Nat} (t : Block axes) {m : Machine} (ha : m.axisCount = axes)
    (h : m.flow.cursor.Ahead t.encode) :
    match t.eval m.flow.cursor.pc m with
    | .ok () m' => ∃ n, steps n m = .ok () (m'.advance t.encode.length) ∧
        ∀ fuel, runFrom (n + fuel) m = runFrom fuel (m'.advance t.encode.length)
    | .error f m' => ∃ n k, steps (n + 1) m = .error f (m'.advance k) ∧
        ∀ fuel, runFrom (n + 1 + fuel) m = .error f (m'.advance k) := by
  have hp := t.faithful m ha h
  cases hx : t.eval m.flow.cursor.pc m with
  | ok u m' =>
    rw [hx] at hp
    obtain ⟨n, hn⟩ := hp
    exact ⟨n, hn, fun fuel => runFrom_steps fuel hn⟩
  | error f m' =>
    rw [hx] at hp
    obtain ⟨n, m₁, k, hn, hf, hs⟩ := hp
    refine ⟨n, k, ?_, fun fuel => ?_⟩
    · rw [steps_add 1 hn, steps_one, hs]
    · rw [Nat.add_assoc, Nat.add_comm 1, runFrom_steps _ hn, runFrom_error hf hs]

/-- Pushes one byte. -/
def pushByte (v : UInt8) : Block 0 :=
  .instr ⟨0xb0, [v], by rw [Instruction.ofByte_eq (b := 0xb0) rfl]; rfl⟩ (by
    rw [Encoded.instruction, Instruction.ofByte_eq (b := 0xb0) rfl]; rfl)

/-- A branch that is not taken, with bytes that look like markers, and a test in the other branch. -/
def nested : Block 0 :=
  .seq (pushByte 0) <|
    .ifElse (.instr ⟨0x40, [3, 0x1b, 0x59, 0x58], by decide +kernel⟩ (by decide +kernel)) <|
      .seq (pushByte 1) (.ifThen (pushByte 0x59))

/-- A machine at the start of `nested`, with more to come. -/
def nestedMachine : Machine :=
  Machine.restart (({ fontProgram := (nested.encode ++ [0x1b, 0x59]).toArray } : Source).machine
    65536 16 default #[]) .font

open Machine in
theorem run_encode_nested :
    nestedMachine.axisCount = 0 ∧ nestedMachine.flow.cursor.Ahead nested.encode ∧
    match nested.eval nestedMachine.flow.cursor.pc nestedMachine with
    | .ok () m' => ∃ n, steps n nestedMachine = .ok () (m'.advance nested.encode.length) ∧
        ∀ fuel, runFrom (n + fuel) nestedMachine = runFrom fuel (m'.advance nested.encode.length)
    | .error f m' => ∃ n k, steps (n + 1) nestedMachine = .error f (m'.advance k) ∧
        ∀ fuel, runFrom (n + 1 + fuel) nestedMachine = .error f (m'.advance k) :=
  have h : nestedMachine.flow.cursor.Ahead nested.encode := ⟨[0x1b, 0x59], rfl⟩
  ⟨rfl, h, run_encode nested rfl h⟩

end Block

end GridFit
