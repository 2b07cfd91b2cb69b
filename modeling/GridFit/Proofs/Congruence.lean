import GridFit.Proofs.Execution
import GridFit.Proofs.Plain

/-!
# What instructions see of the flow of control

Instructions read the flow of control in a few ways: through the cursor, to check a jump, to enter a
call and to end one. Flows that look alike in all of these but the last (`Flow.Congruence`) stay
alike under every operation that ends no call. If machines with such flows also agree in all that
plain actions see (`Machine.Congruence`), every instruction but the end of a definition does the
same on both (`Machine.Congruence.execute`).
-/

namespace GridFit

structure Flow.Congruence (r : Flow → Flow → Prop) : Prop where
  initial : ∀ f f', r f f' → f.initial = f'.initial
  cursor : ∀ f f', r f f' → f.cursor = f'.cursor
  withCursor : ∀ f f' c, r f f' → r { f with cursor := c } { f' with cursor := c }
  canJump : ∀ f f', r f f' → FlowM.canJump f = FlowM.canJump f'
  enter : ∀ d count, Agrees r (FlowM.enter d count)

theorem Agrees.refl {ε σ α : Type} (x : EStateM ε σ α) : Agrees Eq x := by
  rintro s _ rfl
  cases x s <;> exact ⟨rfl, rfl⟩

theorem Flow.congruence_eq : Flow.Congruence Eq where
  initial _ _ h := congrArg Flow.initial h
  cursor _ _ h := congrArg Flow.cursor h
  withCursor _ _ c h := congrArg (fun f : Flow => { f with cursor := c }) h
  canJump _ _ h := congrArg FlowM.canJump h
  enter _ _ := .refl _

namespace Flow.Congruence

variable {α : Type} {r : Flow → Flow → Prop}

theorem onCursor (h : Congruence r) (x : CursorM α) : Agrees r (FlowM.onCursor x) := by
  intro f f' hf
  unfold FlowM.onCursor
  rw [h.cursor f f' hf]
  cases x f'.cursor <;> exact ⟨rfl, h.withCursor f f' _ hf⟩

theorem skip (h : Congruence r) : Agrees r FlowM.skip := h.onCursor _

theorem skipBranchFrom (h : Congruence r) (stopAtElse : Bool) (depth fuel : Nat) :
    Agrees r (FlowM.skipBranchFrom stopAtElse depth fuel) := by
  induction fuel generalizing depth with
  | zero => exact .throw _
  | succ fuel ih =>
    rw [FlowM.skipBranchFrom]
    refine h.skip.bind fun b => ?_
    cases FlowM.depthAfter? stopAtElse depth (.ofByte b) with
    | none => exact .pure ()
    | some depth => exact ih depth

theorem skipBranch (h : Congruence r) (stopAtElse : Bool) :
    Agrees r (FlowM.skipBranch stopAtElse) :=
  .get (fun f f' hf => by rw [h.cursor f f' hf]) fun _ => h.skipBranchFrom _ _ _

theorem skipDefinition (h : Congruence r) (fuel : Nat) : Agrees r (FlowM.skipDefinition fuel) := by
  induction fuel with
  | zero => exact .throw _
  | succ fuel ih =>
    rw [FlowM.skipDefinition]
    refine h.skip.bind fun b => ?_
    generalize Instruction.ofByte b = i
    cases i
    case fdef => exact .throw _
    case idef => exact .throw _
    case endf => exact .pure ()
    all_goals exact ih

theorem define (h : Congruence r) (key : Int32) : Agrees r (FlowM.define key) := by
  refine .get (fun f f' hf => by rw [h.cursor f f' hf]) fun f => ?_
  refine .get (fun f f' hf => by rw [h.cursor f f' hf]) fun f => ?_
  refine (h.skipDefinition _).bind fun _ => ?_
  refine .get (fun f f' hf => by rw [h.cursor f f' hf]) fun f => ?_
  exact .ite (Agrees.bind (.throw _) fun _ => .pure _) (.pure _)

theorem jump (h : Congruence r) (offset : Int32) : Agrees r (FlowM.jump offset) := by
  intro f f' hf
  unfold FlowM.jump
  rw [h.cursor f f' hf, h.canJump f f' hf]
  dsimp only
  split
  · exact ⟨rfl, h.withCursor f f' _ hf⟩
  · exact ⟨rfl, hf⟩

end Flow.Congruence

/-- Machines related by `r` have flows related by `rf`, and agree in everything else that
instructions see. -/
structure Machine.Congruence (rf : Flow → Flow → Prop) (r : Machine → Machine → Prop) : Prop where
  flows : Flow.Congruence rf
  plain : ∀ {α : Type} {x : Exec α}, Plain x → Agrees r x
  flow : ∀ m m', r m m' → rf m.flow m'.flow
  withFlow : ∀ m m' f f', r m m' → rf f f' → r { m with flow := f } { m' with flow := f' }
  definitions : ∀ m m' k, r m m' → m.definitions k = m'.definitions k
  store : ∀ m m' k slot d, r m m' → r (m.store k slot d) (m'.store k slot d)
  axisCount : ∀ m m', r m m' → m.axisCount = m'.axisCount

namespace Machine.Congruence

variable {α : Type} {rf : Flow → Flow → Prop} {r : Machine → Machine → Prop} {m m' : Machine}

theorem onFlow (h : Congruence rf r) {x : FlowM α} (hx : Agrees rf x) :
    Agrees r (Exec.onFlow x) := by
  intro m m' hm
  unfold Exec.onFlow
  rcases (hx _ _ (h.flow m m' hm)).cases with ⟨a, f, f', hr, hr', hf⟩ | ⟨e, f, f', hr, hr', hf⟩
  · rw [hr, hr']
    exact ⟨rfl, h.withFlow m m' f f' hm hf⟩
  · rw [hr, hr']
    exact ⟨rfl, h.withFlow m m' f f' hm hf⟩

theorem next (h : Congruence rf r) : Agrees r (Exec.onFlow FlowM.next) :=
  h.onFlow (h.flows.onCursor _)

theorem pop (h : Congruence rf r) : Agrees r Exec.pop := h.plain Plain.pop

theorem ifTest (h : Congruence rf r) : Agrees r Exec.ifTest :=
  h.pop.bind fun _ => .ite (h.onFlow (h.flows.skipBranch true)) (.pure ())

theorem jump (h : Congruence rf r) : Agrees r Exec.jump :=
  h.pop.bind fun offset => h.onFlow (h.flows.jump offset)

theorem jumpIf (h : Congruence rf r) (condition : Bool) : Agrees r (Exec.jumpIf condition) :=
  h.pop.bind fun _ => h.pop.bind fun offset => .ite (h.onFlow (h.flows.jump offset)) (.pure ())

theorem define (h : Congruence rf r) (k : DefinitionKind) : Agrees r (Exec.define k) := by
  refine h.pop.bind fun key => .get (fun m m' hm => by rw [h.definitions m m' k hm]) fun m => ?_
  cases (m.definitions k).slotFor key with
  | error e => exact .throw e
  | ok slot =>
    exact (h.onFlow (h.flows.define key)).bind fun d => .modify fun m m' => h.store m m' k slot d

theorem function (h : Congruence rf r) (key : Int32) : Agrees r (Exec.function key) := by
  refine .get (fun m m' hm => ?_) fun m => ?_
  · have hd : m.functions = m'.functions := h.definitions m m' .function hm
    rw [hd]
  · cases m.functions.get? key with
    | some d => exact .pure d
    | none => exact .throw _

theorem enter (h : Congruence rf r) (d : Definition) (count : Int32) :
    Agrees r (Exec.onFlow (FlowM.enter d count)) :=
  h.onFlow (h.flows.enter d count)

theorem call (h : Congruence rf r) : Agrees r Exec.call :=
  h.pop.bind fun key => (h.function key).bind fun d => h.enter d 1

theorem loopCall (h : Congruence rf r) : Agrees r Exec.loopCall :=
  h.pop.bind fun key => h.pop.bind fun count => (h.function key).bind fun d =>
    .ite (h.enter d count) (.pure ())

theorem undefined (h : Congruence rf r) (byte : UInt8) : Agrees r (Exec.undefined byte) := by
  refine .get (fun m m' hm => ?_) fun m => ?_
  · have hd : m.instructions = m'.instructions := h.definitions m m' .instruction hm
    rw [hd]
  · cases m.instructions.get? (Bytes.zeroExtend byte) with
    | some d => exact h.enter d 1
    | none => exact .throw _

theorem withVariations (h : Congruence rf r) {x : Exec Unit} (byte : UInt8) (hx : Plain x) :
    Agrees r (Exec.withVariations byte x) :=
  .get (fun m m' hm => by rw [h.axisCount m m' hm]) fun _ => .ite (h.undefined byte) (h.plain hx)

theorem pushOperands (h : Congruence rf r) (i : Instruction) : Agrees r (Exec.pushOperands i) := by
  refine (h.onFlow (h.flows.onCursor _)).bind fun o => h.plain ?_
  cases o.wide with
  | true => exact .stack (Refines.pushWords _).agrees
  | false => exact .stack (Refines.pushBytes _).agrees

/-- An instruction does the same on related machines, unless it ends a call. -/
theorem execute (h : Congruence rf r) {i : Instruction} (hi : i = .endf → Agrees rf FlowM.leave) :
    Agrees r (Exec.execute i) := by
  by_cases hp : i.isPlain
  · exact h.plain (Plain.execute hp)
  cases i <;> first | exact absurd rfl hp | rw [Exec.execute]
  case elseBranch => exact h.onFlow (h.flows.skipBranch false)
  case ifTest => exact h.ifTest
  case jmpr => exact h.jump
  case jumpIf condition => exact h.jumpIf condition
  case loopcall => exact h.loopCall
  case call => exact h.call
  case fdef => exact h.define .function
  case idef => exact h.define .instruction
  case endf => exact h.onFlow (hi rfl)
  case npushb => exact h.pushOperands _
  case npushw => exact h.pushOperands _
  case pushb extra => exact h.pushOperands _
  case pushw extra => exact h.pushOperands _
  case getvar => exact h.withVariations _ Plain.pushCoords
  case getdata => exact h.withVariations _ (Plain.push 17)
  case undefined byte => exact h.undefined byte

theorem locate (h : Congruence rf r) {x : Exec α} (pc : Nat) (opcode : UInt8)
    (hx : SameOutcome r (x m) (x m')) :
    SameOutcome r (Machine.locate pc opcode x m) (Machine.locate pc opcode x m') := by
  rcases hx.cases with ⟨a, m₁, m₁', hr, hr', hm⟩ | ⟨e, m₁, m₁', hr, hr', hm⟩
  · rw [locate_of_ok pc opcode hr, locate_of_ok pc opcode hr']
    exact ⟨rfl, hm⟩
  · rw [locate_of_error pc opcode hr, locate_of_error pc opcode hr']
    refine ⟨?_, hm⟩
    rw [failure, failure, h.flows.initial _ _ (h.flow m₁ m₁' hm)]

/-- A step does the same on related machines if the instruction that is read does. -/
theorem step (h : Congruence rf r) (hm : r m m')
    (hx : ∀ b m₁ m₁', Exec.onFlow FlowM.next m = .ok b m₁ → r m₁ m₁' →
      SameOutcome r (Exec.execute (.ofByte b) m₁) (Exec.execute (.ofByte b) m₁')) :
    SameOutcome r (Machine.step m) (Machine.step m') := by
  have hpc : m.flow.cursor.pc = m'.flow.cursor.pc := by
    rw [h.flows.cursor _ _ (h.flow m m' hm)]
  rcases (h.next m m' hm).cases with ⟨b, m₁, m₁', hr, hr', h₁⟩ | ⟨e, m₁, m₁', hr, hr', h₁⟩
  · rw [step_read hr, step_read hr', hpc]
    exact h.locate _ b (hx b m₁ m₁' hr h₁)
  · rw [step_unread hr, step_unread hr', hpc]
    refine ⟨?_, h₁⟩
    rw [failure, failure, h.flows.initial _ _ (h.flow m₁ m₁' h₁)]

end Machine.Congruence

end GridFit
