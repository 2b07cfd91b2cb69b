import GridFit.Proofs.Faults
import GridFit.Proofs.Plain

/-!
# Control

What the flow of control can do in one operation is a `Flow.Transfer`: the cursor moves on in its
program, a call is entered, starts over or returns, or a jump is made. A property of the flow that
survives transfers, and a property of the machine that is made of such a property and of what
control instructions leave alone (`Control`), is kept by every instruction that is not plain
(`Control.execute`).
-/

namespace GridFit

/-- `c'` is further on than `c` in the same program, and inside of it if `c` is. -/
structure Cursor.Moves (c c' : Cursor) : Prop where
  program : c'.program = c.program
  code : c'.code = c.code
  le : c.pc ≤ c'.pc
  inside : c.pc ≤ c.code.size → c'.pc ≤ c.code.size

namespace Cursor.Moves

variable {c c' c'' : Cursor}

theorem refl (c : Cursor) : c.Moves c := ⟨rfl, rfl, Nat.le_refl _, id⟩

theorem trans (h : c.Moves c') (h' : c'.Moves c'') : c.Moves c'' where
  program := h'.program.trans h.program
  code := h'.code.trans h.code
  le := Nat.le_trans h.le h'.le
  inside hc := by
    have hin := h'.inside
    rw [h.code] at hin
    exact hin (h.inside hc)

end Cursor.Moves

namespace CursorM

variable {c₀ : Cursor}

theorem keeps_next : Keeps c₀.Moves next Anything := by
  intro c hc
  by_cases h : c.pc < c.code.size
  · simp only [next, dif_pos h]
    rw [hc.code] at h
    exact ⟨trivial, hc.program, hc.code, Nat.le_succ_of_le hc.le, fun _ => h⟩
  · simp only [next, dif_neg h]
    exact ⟨nofun, hc⟩

theorem keeps_take (n : Nat) : Keeps c₀.Moves (take n) Anything := by
  intro c hc
  by_cases h : c.pc + n ≤ c.code.size
  · simp only [take, if_pos h]
    rw [hc.code] at h
    exact ⟨trivial, hc.program, hc.code, Nat.le_add_right_of_le hc.le, fun _ => h⟩
  · simp only [take, if_neg h]
    exact ⟨nofun, hc⟩

theorem keeps_operands (i : Instruction) : Keeps c₀.Moves (operands i) Anything := by
  unfold operands
  match i.pushForm? with
  | none => exact .pure trivial
  | some ⟨some n, wide⟩ => exact (keeps_take _).bind fun _ _ => .pure trivial
  | some ⟨none, wide⟩ =>
    have hn : Keeps c₀.Moves (UInt8.toNat <$> next) Anything := keeps_next.map fun _ _ => trivial
    exact hn.bind fun _ _ => (keeps_take _).bind fun _ _ => .pure trivial

theorem keeps_skip : Keeps c₀.Moves skip Anything :=
  keeps_next.bind fun _ _ => (keeps_operands _).bind fun _ _ => .pure trivial

end CursorM

/-- What one operation can do to the flow of control. Only definitions with `valid` are called. -/
inductive Flow.Transfer (valid : Definition → Prop) (f : Flow) : Flow → Prop
  | move {c : Cursor} : f.cursor.Moves c → Transfer valid f { f with cursor := c }
  | enter {d : Definition} {count : Int32} : valid d → 0 < count → f.calls.length < maxDepth →
      Transfer valid f { f with
        calls := ⟨f.cursor.program, f.cursor.pc, count, d⟩ :: f.calls
        cursor := f.cursorAt d.program d.start }
  | again {c : Call} {rest : List Call} : f.calls = c :: rest → 1 < c.count →
      Transfer valid f { f with
        calls := { c with count := c.count - 1 } :: rest
        cursor := { f.cursor with pc := c.body.start } }
  | back {c : Call} {rest : List Call} : f.calls = c :: rest → ¬1 < c.count →
      Transfer valid f { f with calls := rest, cursor := f.cursorAt c.caller c.returnPC }
  | jump {target : Int} : FlowM.canJump f target →
      Transfer valid f { f with cursor := { f.cursor with pc := target.toNat } }

/-- The property survives what operations do to the flow of control. -/
def Flow.Survives (valid : Definition → Prop) (inv : Flow → Prop) : Prop :=
  ∀ f f', inv f → Transfer valid f f' → inv f'

theorem Flow.survives_initial (valid : Definition → Prop) (p : Program) :
    Survives valid fun f => f.initial = p := by
  intro f f' hf ht
  cases ht <;> exact hf

namespace FlowM

variable {valid : Definition → Prop} {inv : Flow → Prop}

theorem keeps_onCursor {α : Type} {x : CursorM α} {q : α → Prop} (hi : Flow.Survives valid inv)
    (h : ∀ c : Cursor, Keeps c.Moves x q) : Keeps inv (onCursor x) q := by
  intro f hf
  have hx := h f.cursor f.cursor (.refl _)
  unfold onCursor
  cases hr : x f.cursor with
  | ok a c =>
    rw [hr] at hx
    exact ⟨hx.1, hi _ _ hf (.move hx.2)⟩
  | error e c =>
    rw [hr] at hx
    exact ⟨hx.1, hi _ _ hf (.move hx.2)⟩

theorem keeps_next (hi : Flow.Survives valid inv) : Keeps inv next Anything :=
  keeps_onCursor hi fun _ => CursorM.keeps_next

theorem keeps_skip (hi : Flow.Survives valid inv) : Keeps inv skip Anything :=
  keeps_onCursor hi fun _ => CursorM.keeps_skip

theorem keeps_operands (hi : Flow.Survives valid inv) (i : Instruction) :
    Keeps inv (onCursor (CursorM.operands i)) Anything :=
  keeps_onCursor hi fun _ => CursorM.keeps_operands i

theorem keeps_skipBranchFrom (hi : Flow.Survives valid inv) (stopAtElse : Bool) : ∀ depth fuel : Nat,
    Keeps inv (skipBranchFrom stopAtElse depth fuel) Anything := by
  intro depth fuel
  induction fuel generalizing depth with
  | zero => exact .throw nofun
  | succ fuel ih =>
    rw [skipBranchFrom]
    refine (keeps_skip hi).bind fun b _ => ?_
    generalize depthAfter? stopAtElse depth (Instruction.ofByte b) = d
    cases d with
    | none => exact .pure trivial
    | some depth => exact ih depth

theorem keeps_skipBranch (hi : Flow.Survives valid inv) (stopAtElse : Bool) :
    Keeps inv (skipBranch stopAtElse) Anything :=
  Keeps.get.bind fun _ _ => keeps_skipBranchFrom hi stopAtElse 0 _

theorem keeps_skipDefinition (hi : Flow.Survives valid inv) (fuel : Nat) :
    Keeps inv (skipDefinition fuel) Anything := by
  induction fuel with
  | zero => exact .throw nofun
  | succ fuel ih =>
    rw [skipDefinition]
    refine (keeps_skip hi).bind fun b _ => ?_
    generalize Instruction.ofByte b = i
    cases i
    case fdef => exact .throw nofun
    case idef => exact .throw nofun
    case endf => exact .pure trivial
    all_goals exact ih

theorem keeps_define (hi : Flow.Survives valid inv) (key : Int32) : Keeps inv (define key) Anything :=
  Keeps.get.bind fun _ _ => Keeps.get.bind fun _ _ => (keeps_skipDefinition hi _).bind fun _ _ =>
    Keeps.get.bind fun _ _ => .whenever (fun _ => .throw nofun) fun _ => .pure trivial

theorem keeps_enter (hi : Flow.Survives valid inv) {d : Definition} {count : Int32} (hd : valid d)
    (hc : 0 < count) : Keeps inv (enter d count) Anything := by
  intro f hf
  unfold enter
  by_cases h : f.calls.length < Flow.maxDepth
  · rw [if_pos h]
    exact ⟨trivial, hi _ _ hf (.enter hd hc h)⟩
  · rw [if_neg h]
    exact ⟨nofun, hf⟩

theorem keeps_leave (hi : Flow.Survives valid inv) : Keeps inv leave Anything := by
  intro f hf
  unfold leave
  cases hc : f.calls with
  | nil => exact ⟨nofun, hf⟩
  | cons c rest =>
    dsimp only
    by_cases h : 1 < c.count
    · rw [if_pos h]
      exact ⟨trivial, hi _ _ hf (.again hc h)⟩
    · rw [if_neg h]
      exact ⟨trivial, hi _ _ hf (.back hc h)⟩

theorem keeps_jump (hi : Flow.Survives valid inv) (offset : Int32) :
    Keeps inv (jump offset) Anything := by
  intro f hf
  unfold jump
  by_cases h : offset ≠ 0 ∧ canJump f (f.cursor.pc + (offset.toInt - 1))
  · rw [if_pos h]
    exact ⟨trivial, hi _ _ hf (.jump h.2)⟩
  · rw [if_neg h]
    exact ⟨nofun, hf⟩

end FlowM

/-! ### Control instructions -/

theorem DefinitionTable.mem_of_get? {t : DefinitionTable} {key : Int32} {d : Definition}
    (h : t.get? key = some d) : some d ∈ t.slots := by
  have hscan (h : get?.scan t key = some d) : some d ∈ t.slots :=
    Array.mem_of_find?_eq_some (Option.join_eq_some_iff.1 h)
  unfold get? at h
  split at h
  · rename_i d' hd
    split at h
    · cases h
      unfold direct? at hd
      split at hd
      · exact Array.mem_of_getElem? hd
      · cases hd
    · exact hscan h
  · exact hscan h

/-- A property of the machine that says `flowInv` of the flow of control and `valid` of the
definitions, and survives what control instructions do. -/
structure Control (valid : Definition → Prop) (flowInv : Flow → Prop) (inv : Machine → Prop) :
    Prop where
  survives : Flow.Survives valid flowInv
  flow : ∀ m, inv m → flowInv m.flow
  withFlow : ∀ m f, inv m → flowInv f → inv { m with flow := f }
  withStack : ∀ m s, inv m → inv { m with stack := s }
  definitions : ∀ m k d, inv m → some d ∈ (m.definitions k).slots → valid d
  store : ∀ m k key slot d f, inv m → (m.definitions k).slotFor key = .ok slot →
    FlowM.define key m.flow = .ok d f → inv (Machine.store { m with flow := f } k slot d)

namespace Control

variable {α : Type} {valid : Definition → Prop} {flowInv : Flow → Prop} {inv : Machine → Prop}

theorem onStack (h : Control valid flowInv inv) {x : StackM α} {q : α → Prop}
    (hx : Keeps Anything x q) : Keeps inv (Exec.onStack x) q := by
  intro m hm
  have hs := hx m.stack trivial
  unfold Exec.onStack
  dsimp only
  cases hr : x m.stack with
  | ok a s =>
    rw [hr] at hs
    exact ⟨hs.1, h.withStack m s hm⟩
  | error e s =>
    rw [hr] at hs
    exact ⟨hs.1, h.withStack m s hm⟩

theorem onFlow (h : Control valid flowInv inv) {x : FlowM α} {q : α → Prop}
    (hx : Keeps flowInv x q) : Keeps inv (Exec.onFlow x) q := by
  intro m hm
  have hf := hx m.flow (h.flow m hm)
  unfold Exec.onFlow
  cases hr : x m.flow with
  | ok a f =>
    rw [hr] at hf
    exact ⟨hf.1, h.withFlow m f hm hf.2⟩
  | error e f =>
    rw [hr] at hf
    exact ⟨hf.1, h.withFlow m f hm hf.2⟩

theorem next (h : Control valid flowInv inv) : Keeps inv (Exec.onFlow FlowM.next) Anything :=
  h.onFlow (FlowM.keeps_next h.survives)

theorem push (h : Control valid flowInv inv) (v : Int32) : Keeps inv (Exec.push v) Anything :=
  h.onStack (StackM.keeps_push v)

theorem pop (h : Control valid flowInv inv) : Keeps inv Exec.pop Anything :=
  h.onStack StackM.keeps_pop

theorem ifTest (h : Control valid flowInv inv) : Keeps inv Exec.ifTest Anything :=
  h.pop.bind fun _ _ => .ite (fun _ => h.onFlow (FlowM.keeps_skipBranch h.survives true))
    fun _ => .pure trivial

theorem jump (h : Control valid flowInv inv) : Keeps inv Exec.jump Anything :=
  h.pop.bind fun offset _ => h.onFlow (FlowM.keeps_jump h.survives offset)

theorem jumpIf (h : Control valid flowInv inv) (condition : Bool) :
    Keeps inv (Exec.jumpIf condition) Anything :=
  h.pop.bind fun _ _ => h.pop.bind fun offset _ =>
    .ite (fun _ => h.onFlow (FlowM.keeps_jump h.survives offset)) fun _ => .pure trivial

theorem define (h : Control valid flowInv inv) (k : DefinitionKind) :
    Keeps inv (Exec.define k) Anything := by
  refine h.pop.bind fun key _ => ?_
  intro m hm
  rw [bind_of_ok (x := get) rfl]
  cases hs : (m.definitions k).slotFor key with
  | error e => exact ⟨DefinitionTable.not_foreign_of_slotFor hs, hm⟩
  | ok slot =>
    dsimp only
    cases hd : FlowM.define key m.flow with
    | ok d f =>
      have hf : Exec.onFlow (FlowM.define key) m = .ok d { m with flow := f } := by
        rw [Exec.onFlow, hd]
      rw [bind_of_ok hf]
      exact ⟨trivial, h.store m k key slot d f hm hs hd⟩
    | error e f =>
      have hf : Exec.onFlow (FlowM.define key) m = .error e { m with flow := f } := by
        rw [Exec.onFlow, hd]
      rw [bind_of_error hf]
      exact (h.onFlow (FlowM.keeps_define h.survives key)).error hm hf

theorem function (h : Control valid flowInv inv) (key : Int32) :
    Keeps inv (Exec.function key) valid := by
  refine Keeps.get.bind fun m hm => ?_
  cases hd : m.functions.get? key with
  | some d => exact .pure (h.definitions m .function d hm (DefinitionTable.mem_of_get? hd))
  | none => exact .throw nofun

theorem call (h : Control valid flowInv inv) : Keeps inv Exec.call Anything :=
  h.pop.bind fun key _ => (h.function key).bind fun _ hd =>
    h.onFlow (FlowM.keeps_enter h.survives hd (by decide))

theorem loopCall (h : Control valid flowInv inv) : Keeps inv Exec.loopCall Anything :=
  h.pop.bind fun key _ => h.pop.bind fun _ _ => (h.function key).bind fun _ hd =>
    .ite (fun hc => h.onFlow (FlowM.keeps_enter h.survives hd hc)) fun _ => .pure trivial

theorem undefined (h : Control valid flowInv inv) (byte : UInt8) :
    Keeps inv (Exec.undefined byte) Anything := by
  refine Keeps.get.bind fun m hm => ?_
  cases hd : m.instructions.get? (Bytes.zeroExtend byte) with
  | some d =>
    have hv := h.definitions m .instruction d hm (DefinitionTable.mem_of_get? hd)
    exact h.onFlow (FlowM.keeps_enter h.survives hv (by decide))
  | none => exact .throw nofun

theorem withVariations (h : Control valid flowInv inv) {x : Exec Unit} (byte : UInt8)
    (hx : Keeps inv x Anything) : Keeps inv (Exec.withVariations byte x) Anything :=
  Keeps.get.bind fun _ _ => .ite (fun _ => h.undefined byte) fun _ => hx

theorem pushCoords (h : Control valid flowInv inv) : Keeps inv Exec.pushCoords Anything :=
  Keeps.get.bind fun _ _ => .forM fun _ _ => h.push _

theorem pushOperands (h : Control valid flowInv inv) (i : Instruction) :
    Keeps inv (Exec.pushOperands i) Anything := by
  refine (h.onFlow (FlowM.keeps_operands h.survives i)).bind fun o _ => h.onStack ?_
  exact .ite (fun _ => StackM.keeps_pushAll _) fun _ => StackM.keeps_pushAll _

/-- Instructions that are not plain keep what survives control. -/
theorem execute (h : Control valid flowInv inv) {i : Instruction} (hi : ¬i.isPlain) :
    Keeps inv (Exec.execute i) Anything := by
  cases i <;> first | exact absurd rfl hi | rw [Exec.execute]
  case elseBranch => exact h.onFlow (FlowM.keeps_skipBranch h.survives false)
  case ifTest => exact h.ifTest
  case jmpr => exact h.jump
  case jumpIf condition => exact h.jumpIf condition
  case loopcall => exact h.loopCall
  case call => exact h.call
  case fdef => exact h.define .function
  case idef => exact h.define .instruction
  case endf => exact h.onFlow (FlowM.keeps_leave h.survives)
  case npushb => exact h.pushOperands _
  case npushw => exact h.pushOperands _
  case pushb extra => exact h.pushOperands _
  case pushw extra => exact h.pushOperands _
  case getvar => exact h.withVariations _ h.pushCoords
  case getdata => exact h.withVariations _ (h.push 17)
  case undefined byte => exact h.undefined byte

end Control

end GridFit
