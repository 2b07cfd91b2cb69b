import GridFit.Proofs.Boundaries
import GridFit.Proofs.Linkage

/-!
# How control goes on

Whatever an instruction does, the cursor first comes to just behind it and its operands. From there
control goes on in one of six ways (`Flow.Continues`): past the instruction, to another branch, by a
jump, into a call, out of one, or to the end of a definition. This is true of every instruction
(`Machine.continues_of_execute`), so what a step does to the flow of control is known by cases over
these.
-/

namespace GridFit

namespace FlowM

variable {d : Definition} {f f' : Flow}

theorem jump_inv {offset : Int32} (h : jump offset f = .ok () f') :
    ∃ target, f' = { f with cursor := { f.cursor with pc := target } } := by
  unfold jump at h
  dsimp only at h
  split at h
  · cases h
    exact ⟨_, rfl⟩
  · cases h

theorem enter_inv {count : Int32} (h : enter d count f = .ok () f') : f' = { f with
    calls := ⟨f.cursor.program, f.cursor.pc, count, d⟩ :: f.calls
    cursor := f.cursorAt d.program d.start } := by
  unfold enter at h
  split at h
  · cases h
    rfl
  · cases h

theorem leave_inv {c : Call} {rest : List Call} (hf : f.calls = c :: rest)
    (h : leave f = .ok () f') :
    f' = { f with
      calls := { c with count := c.count - 1 } :: rest
      cursor := { f.cursor with pc := c.body.start } } ∨
    f' = { f with calls := rest, cursor := f.cursorAt c.caller c.returnPC } := by
  rw [leave, hf] at h
  dsimp only at h
  split at h
  · cases h
    exact .inl rfl
  · cases h
    exact .inr rfl

end FlowM

namespace Instruction

def isBranch : Instruction → Bool
  | .ifTest | .elseBranch => true
  | _ => false

def isJump : Instruction → Bool
  | .jmpr | .jumpIf _ => true
  | _ => false

/-- Whether an instruction starts or ends a definition. -/
def delimits : Instruction → Bool
  | .fdef | .idef | .endf => true
  | _ => false

end Instruction

/-- How control goes on from `f`, just behind the instruction `i`. Only definitions with `valid` are
called. -/
inductive Flow.Continues (valid : Definition → Prop) (i : Instruction) (f : Flow) : Flow → Prop
  | past : i ≠ .endf → Continues valid i f f
  | branch {f' : Flow} (stopAtElse : Bool) : i.isBranch → FlowM.skipBranch stopAtElse f = .ok () f' →
      Continues valid i f f'
  | jump {f' : Flow} (offset : Int32) : i.isJump → FlowM.jump offset f = .ok () f' →
      Continues valid i f f'
  | enter {f' : Flow} {d : Definition} (count : Int32) : i ≠ .endf → valid d →
      FlowM.enter d count f = .ok () f' → Continues valid i f f'
  | leave {f' : Flow} : i = .endf → FlowM.leave f = .ok () f' → Continues valid i f f'
  | define {f' : Flow} {d : Definition} (key : Int32) : i.delimits → i ≠ .endf →
      FlowM.define key f = .ok d f' → Continues valid i f f'

namespace Machine

variable {m m₁ m₂ : Machine} {b : UInt8}

def Defines (m : Machine) (d : Definition) : Prop := ∃ k, some d ∈ (m.definitions k).slots

theorem SameControl.defines {d : Definition} (h : m.SameControl m₁) (hd : m₁.Defines d) :
    m.Defines d := by
  obtain ⟨k, hk⟩ := hd
  cases k with
  | function => exact ⟨.function, by rw [definitions, ← h.functions]; exact hk⟩
  | instruction => exact ⟨.instruction, by rw [definitions, ← h.instructions]; exact hk⟩

theorem pop_ok {v : Int32} (h : Exec.pop m = .ok v m₁) : m.SameControl m₁ :=
  Plain.pop.unchanged_ok h

theorem function_ok {key : Int32} {d : Definition} (h : Exec.function key m = .ok d m₁) :
    m₁ = m ∧ m.Defines d := by
  obtain ⟨m', m'', hg, h⟩ := exists_of_bind_ok h
  cases hg
  cases hd : m.functions.get? key with
  | none =>
    rw [hd] at h
    cases h
  | some d' =>
    rw [hd] at h
    cases h
    exact ⟨rfl, .function, DefinitionTable.mem_of_get? hd⟩

theorem undefined_ok {byte : UInt8} (h : Exec.undefined byte m = .ok () m₁) :
    ∃ d, m.Defines d ∧ FlowM.enter d 1 m.flow = .ok () m₁.flow := by
  obtain ⟨m', m'', hg, h⟩ := exists_of_bind_ok h
  cases hg
  cases hd : m.instructions.get? (Bytes.zeroExtend byte) with
  | none =>
    rw [hd] at h
    cases h
  | some d =>
    rw [hd] at h
    exact ⟨d, ⟨.instruction, DefinitionTable.mem_of_get? hd⟩, (onFlow_ok h).1⟩

theorem withVariations_ok {byte : UInt8} {x : Exec Unit} (hv : ¬m.axisCount ≠ 0)
    (h : Exec.withVariations byte x m = .ok () m₁) :
    ∃ d, m.Defines d ∧ FlowM.enter d 1 m.flow = .ok () m₁.flow := by
  obtain ⟨m', m'', hg, h⟩ := exists_of_bind_ok h
  cases hg
  rw [if_pos (Decidable.not_not.1 hv)] at h
  exact undefined_ok h

theorem define_ok {k : DefinitionKind} (h : Exec.define k m = .ok () m₁) :
    ∃ key d, FlowM.define key m.flow = .ok d m₁.flow := by
  obtain ⟨key, m', hp, h⟩ := exists_of_bind_ok h
  obtain ⟨m'', m₃, hg, h⟩ := exists_of_bind_ok h
  cases hg
  cases hs : (m'.definitions k).slotFor key with
  | error e =>
    rw [hs] at h
    cases h
  | ok slot =>
    rw [hs] at h
    obtain ⟨d, m₃, hd, h⟩ := exists_of_bind_ok h
    cases h
    refine ⟨key, d, ?_⟩
    rw [← (pop_ok hp).flow, (onFlow_ok hd).1]
    cases k <;> rfl

/-- An instruction that does not fall through has no operands. -/
theorem pushForm_of_not_fallsThrough {i : Instruction} {axes : Nat} (h : ¬i.fallsThrough axes) :
    i.pushForm? = none := by
  cases i <;> first | rfl | exact absurd rfl h

theorem continues_of_transfer {i : Instruction} (hf : ¬i.fallsThrough m.axisCount)
    (hx : Exec.execute i m = .ok () m₂) : m.flow.Continues m.Defines i m₂.flow := by
  cases i <;> try exact absurd rfl hf
  case elseBranch => exact .branch false rfl (onFlow_ok hx).1
  case ifTest =>
    obtain ⟨v, m', hp, hx⟩ := exists_of_bind_ok hx
    rw [← (pop_ok hp).flow]
    by_cases hv : v = 0
    · rw [if_pos hv] at hx
      exact .branch true rfl (onFlow_ok hx).1
    · rw [if_neg hv] at hx
      cases hx
      exact .past nofun
  case jmpr =>
    obtain ⟨offset, m', hp, hx⟩ := exists_of_bind_ok hx
    rw [← (pop_ok hp).flow]
    exact .jump offset rfl (onFlow_ok hx).1
  case jumpIf condition =>
    obtain ⟨v, m', hp, hx⟩ := exists_of_bind_ok hx
    obtain ⟨offset, m'', hp', hx⟩ := exists_of_bind_ok hx
    rw [← ((pop_ok hp).trans (pop_ok hp')).flow]
    by_cases hv : decide (v ≠ 0) = condition
    · rw [if_pos hv] at hx
      exact .jump offset rfl (onFlow_ok hx).1
    · rw [if_neg hv] at hx
      cases hx
      exact .past nofun
  case loopcall =>
    obtain ⟨key, m', hp, hx⟩ := exists_of_bind_ok hx
    obtain ⟨count, m'', hp', hx⟩ := exists_of_bind_ok hx
    obtain ⟨d, m₃, hd, henter⟩ := exists_of_bind_ok hx
    obtain ⟨rfl, hd⟩ := function_ok hd
    have hsame := (pop_ok hp).trans (pop_ok hp')
    rw [← hsame.flow]
    by_cases hc : 0 < count
    · rw [if_pos hc] at henter
      exact .enter count nofun (hsame.defines hd) (onFlow_ok henter).1
    · rw [if_neg hc] at henter
      cases henter
      exact .past nofun
  case call =>
    obtain ⟨key, m', hp, hx⟩ := exists_of_bind_ok hx
    obtain ⟨d, m'', hd, henter⟩ := exists_of_bind_ok hx
    obtain ⟨rfl, hd⟩ := function_ok hd
    rw [← (pop_ok hp).flow]
    exact .enter 1 nofun ((pop_ok hp).defines hd) (onFlow_ok henter).1
  case fdef =>
    obtain ⟨key, d, hd⟩ := define_ok hx
    exact .define key rfl nofun hd
  case idef =>
    obtain ⟨key, d, hd⟩ := define_ok hx
    exact .define key rfl nofun hd
  case endf => exact .leave rfl (onFlow_ok hx).1
  case getvar =>
    obtain ⟨d, hd, he⟩ := withVariations_ok (hf ∘ decide_eq_true) hx
    exact .enter 1 nofun hd he
  case getdata =>
    obtain ⟨d, hd, he⟩ := withVariations_ok (hf ∘ decide_eq_true) hx
    exact .enter 1 nofun hd he
  case undefined byte =>
    obtain ⟨d, hd, he⟩ := undefined_ok hx
    exact .enter 1 nofun hd he

/-- Every instruction is read past, and then control continues. -/
theorem continues_of_execute (hn : Exec.onFlow FlowM.next m = .ok b m₁)
    (hx : Exec.execute (.ofByte b) m₁ = .ok () m₂) :
    ∃ f, FlowM.skip m.flow = .ok b f ∧ f.Continues m.Defines (.ofByte b) m₂.flow := by
  by_cases hf : (Instruction.ofByte b).fallsThrough m.axisCount
  · refine ⟨m₂.flow, skip_of_execute hn hx hf, .past ?_⟩
    intro he
    rw [he] at hf
    cases hf
  · obtain ⟨hnext, hm₁⟩ := onFlow_ok hn
    refine ⟨m₁.flow, FlowM.skip_of_operands (o := {}) hnext ?_, ?_⟩
    · rw [FlowM.onCursor, CursorM.operands, pushForm_of_not_fallsThrough hf]
      rfl
    · have hc := continues_of_transfer (m := m₁) (by rw [hm₁]; exact hf) hx
      rw [hm₁] at hc ⊢
      exact hc

end Machine

end GridFit
