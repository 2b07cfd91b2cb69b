import GridFit.Proofs.Control
import GridFit.Proofs.Execution
import GridFit.Proofs.Opcode

/-!
# Calls are linked

Each call in progress was made from the body of the next outer one, the outermost from the program
that was started, and the cursor reads the program that holds the body of the innermost call. Bodies
lie in the font program or in the control value program and end with their marker. A machine of
which this is true (`Machine.Linked`) stays so whatever it executes, since control is only ever
transferred along the links.

A call that starts over sets nothing but the position. The links say that the cursor is in the right
program by then (`Flow.Linked.restartsInBody`).
-/

namespace GridFit

/-- The definition lies in one of the programs of the font, is not too long and ends with its
marker. -/
structure Definition.Valid (P : Programs) (d : Definition) : Prop where
  program : d.program = .font ∨ d.program = .controlValue
  start : d.start < d.stop
  stop : d.stop ≤ (P.get d.program).size
  length : d.stop - d.start ≤ Flow.maxDefinition
  marker : (P.get d.program)[d.stop - 1]? = some 0x2d

/-- The call was made in the program `outer`, where it can be returned to. -/
structure Call.Linked (P : Programs) (outer : Program) (c : Call) : Prop where
  caller : c.caller = outer
  returnPC : c.returnPC ≤ (P.get c.caller).size
  count : 1 ≤ c.count
  body : c.body.Valid P

namespace Flow

/-- The program in which the innermost call executes, if `p` was started. -/
def running (p : Program) : List Call → Program
  | [] => p
  | c :: _ => c.body.program

/-- Each call was made in the body of the next, the last one in the program `p`. -/
def Chain (P : Programs) (p : Program) : List Call → Prop
  | [] => True
  | c :: rest => c.Linked P (running p rest) ∧ Chain P p rest

/-- The calls are linked to each other and to the cursor, in a run of the program `p` of `P`. -/
structure Linked (P : Programs) (p : Program) (f : Flow) : Prop where
  programs : f.programs = P
  initial : f.initial = p
  depth : f.calls.length ≤ 32
  calls : Chain P p f.calls
  program : f.cursor.program = running p f.calls
  code : f.cursor.code = P.get f.cursor.program
  pc : f.cursor.pc ≤ f.cursor.code.size

/-- If the innermost call has rounds left, the next one starts in the program of its body. -/
def RestartsInBody (f : Flow) : Prop :=
  ∀ c rest, f.calls = c :: rest → 1 < c.count →
    ∃ f', FlowM.leave f = .ok () f' ∧ f'.cursor = f.cursorAt c.body.program c.body.start

end Flow

/-! ### Transfers of control -/

theorem Call.one_le_count {n : Int32} (h : 0 < n) : 1 ≤ n := by
  rw [Int32.lt_iff_toInt_lt] at h
  rw [Int32.le_iff_toInt_le]
  exact h

theorem Call.one_le_count_pred {n : Int32} (h : 1 < n) : 1 ≤ n - 1 := by
  have hn := n.toInt_lt
  rw [Int32.lt_iff_toInt_lt] at h
  rw [Int32.le_iff_toInt_le, Int32.toInt_sub]
  have h1 : (1 : Int32).toInt = 1 := rfl
  rw [h1] at h ⊢
  rw [Int.bmod_eq_of_le (by omega) (by omega)]
  omega

namespace Flow.Linked

variable {P : Programs} {p : Program} {f f' : Flow}

theorem start (P : Programs) (p : Program) : (Flow.start P p).Linked P p :=
  ⟨rfl, rfl, Nat.zero_le _, trivial, rfl, rfl, Nat.zero_le _⟩

theorem move {c : Cursor} (h : f.Linked P p) (hc : f.cursor.Moves c) :
    Linked P p { f with cursor := c } where
  programs := h.programs
  initial := h.initial
  depth := h.depth
  calls := h.calls
  program := hc.program.trans h.program
  code := by
    show c.code = P.get c.program
    rw [hc.code, hc.program, h.code]
  pc := by
    show c.pc ≤ c.code.size
    rw [hc.code]
    exact hc.inside h.pc

theorem enter {d : Definition} {count : Int32} (h : f.Linked P p) (hd : d.Valid P) (hc : 0 < count)
    (hl : f.calls.length < Flow.maxDepth) : Linked P p { f with
      calls := ⟨f.cursor.program, f.cursor.pc, count, d⟩ :: f.calls
      cursor := f.cursorAt d.program d.start } where
  programs := h.programs
  initial := h.initial
  depth := hl
  calls := by
    refine ⟨⟨h.program, ?_, Call.one_le_count hc, hd⟩, h.calls⟩
    have hpc := h.pc
    rwa [h.code] at hpc
  program := rfl
  code := by
    show f.programs.get d.program = P.get d.program
    rw [h.programs]
  pc := by
    have hs := hd.start
    have hs' := hd.stop
    show d.start ≤ (f.programs.get d.program).size
    rw [h.programs]
    omega

theorem again {c : Call} {rest : List Call} (h : f.Linked P p) (hf : f.calls = c :: rest)
    (hc : 1 < c.count) : Linked P p { f with
      calls := { c with count := c.count - 1 } :: rest
      cursor := { f.cursor with pc := c.body.start } } := by
  obtain ⟨hp, hi, hd, hl, hr, hco, hpc⟩ := h
  rw [hf] at hd hl hr
  obtain ⟨hlink, hrest⟩ := hl
  have hbody : c.body.start ≤ f.cursor.code.size := by
    have hs := hlink.body.start
    have hs' := hlink.body.stop
    rw [hco, hr, running]
    omega
  have hcount := Call.one_le_count_pred hc
  exact ⟨hp, hi, hd, ⟨⟨hlink.caller, hlink.returnPC, hcount, hlink.body⟩, hrest⟩, hr, hco, hbody⟩

theorem back {c : Call} {rest : List Call} (h : f.Linked P p) (hf : f.calls = c :: rest) :
    Linked P p { f with calls := rest, cursor := f.cursorAt c.caller c.returnPC } := by
  obtain ⟨hp, hi, hd, hl, hr, hco, hpc⟩ := h
  rw [hf] at hd hl
  obtain ⟨hlink, hrest⟩ := hl
  refine ⟨hp, hi, Nat.le_of_succ_le hd, hrest, hlink.caller, ?_, ?_⟩
  · show f.programs.get c.caller = P.get c.caller
    rw [hp]
  · show c.returnPC ≤ (f.programs.get c.caller).size
    rw [hp]
    exact hlink.returnPC

theorem jump {target : Int} (h : f.Linked P p) (ht : FlowM.canJump f target) :
    Linked P p { f with cursor := { f.cursor with pc := target.toNat } } := by
  refine ⟨h.programs, h.initial, h.depth, h.calls, h.program, h.code, ?_⟩
  show target.toNat ≤ f.cursor.code.size
  have hl := h.calls
  have hr := h.program
  unfold FlowM.canJump at ht
  cases hf : f.calls with
  | nil =>
    rw [hf] at ht
    obtain ⟨-, hle⟩ := of_decide_eq_true ht
    omega
  | cons c rest =>
    rw [hf] at ht hl hr
    obtain ⟨-, hlt⟩ := of_decide_eq_true ht
    have hs := hl.1.body.stop
    rw [h.code, hr, running]
    omega

theorem transfer (h : f.Linked P p) (ht : Transfer (Definition.Valid P) f f') : f'.Linked P p := by
  cases ht with
  | move hc => exact h.move hc
  | enter hd hc hl => exact h.enter hd hc hl
  | again hf hc => exact h.again hf hc
  | back hf _ => exact h.back hf
  | jump ht => exact h.jump ht

end Flow.Linked

/-! ### Definitions -/

theorem CursorM.next_ok {c c' : Cursor} {b : UInt8} (h : next c = .ok b c') :
    c.code[c.pc]? = some b ∧ c' = { c with pc := c.pc + 1 } := by
  unfold next at h
  split at h
  · rename_i hpc
    cases h
    exact ⟨Array.getElem?_eq_getElem hpc, rfl⟩
  · cases h

/-- Reading past an instruction starts with its opcode, and ends there if no operands follow. -/
theorem CursorM.skip_ok {c c' : Cursor} {b : UInt8} (h : skip c = .ok b c') :
    c.code[c.pc]? = some b ∧ c.Moves c' ∧ c.pc < c'.pc ∧
      ((Instruction.ofByte b).pushForm? = none → c'.pc = c.pc + 1) := by
  have hm := (keeps_skip.ok (.refl c) h).2
  obtain ⟨b', c₁, hn, h⟩ := exists_of_bind_ok h
  obtain ⟨o, c₂, ho, h⟩ := exists_of_bind_ok h
  cases h
  obtain ⟨hb, rfl⟩ := next_ok hn
  have hle := ((keeps_operands (.ofByte b)).ok (.refl _) ho).2.le
  refine ⟨hb, hm, hle, fun hp => ?_⟩
  rw [operands, hp] at ho
  cases ho
  rfl

namespace FlowM

theorem skip_ok {f f' : Flow} {b : UInt8} (h : skip f = .ok b f') :
    ∃ c, CursorM.skip f.cursor = .ok b c ∧ f' = { f with cursor := c } :=
  ⟨f'.cursor, onCursor_ok h⟩

/-- The end of a definition is found just past its marker. -/
theorem skipDefinition_ok {fuel : Nat} {f f' : Flow} (h : skipDefinition fuel f = .ok () f') :
    ∃ c, f' = { f with cursor := c } ∧ f.cursor.Moves c ∧ f.cursor.pc < c.pc ∧
      f.cursor.code[c.pc - 1]? = some 0x2d := by
  induction fuel generalizing f with
  | zero => cases h
  | succ fuel ih =>
    rw [skipDefinition] at h
    obtain ⟨b, f₁, hs, h⟩ := exists_of_bind_ok h
    obtain ⟨c, hc, rfl⟩ := skip_ok hs
    obtain ⟨hb, hm, hlt, hnone⟩ := CursorM.skip_ok hc
    have hnext (h : skipDefinition fuel { f with cursor := c } = .ok () f') :
        ∃ c, f' = { f with cursor := c } ∧ f.cursor.Moves c ∧ f.cursor.pc < c.pc ∧
          f.cursor.code[c.pc - 1]? = some 0x2d := by
      obtain ⟨c', rfl, hm', hlt', he⟩ := ih h
      rw [hm.code] at he
      exact ⟨c', rfl, hm.trans hm', Nat.lt_trans hlt hlt', he⟩
    generalize hi : Instruction.ofByte b = i at h hnone
    cases i
    case fdef => cases h
    case idef => cases h
    case endf =>
      cases h
      have hpc := hnone rfl
      rw [Instruction.eq_of_ofByte_endf hi] at hb
      refine ⟨c, rfl, hm, hlt, ?_⟩
      rw [hpc, Nat.add_sub_cancel]
      exact hb
    all_goals exact hnext h

theorem define_inv {key : Int32} {f f' : Flow} {d : Definition} (h : define key f = .ok d f') :
    skipDefinition f.cursor.remaining f = .ok () f' ∧
      f'.cursor.pc - f.cursor.pc ≤ Flow.maxDefinition ∧
      d = { program := f'.cursor.program, start := f.cursor.pc, stop := f'.cursor.pc, key } := by
  rw [define] at h
  obtain ⟨f₁, f₂, hg, h⟩ := exists_of_bind_ok h
  cases hg
  obtain ⟨f₁, f₂, hg, h⟩ := exists_of_bind_ok h
  cases hg
  obtain ⟨u, f₃, hs, h⟩ := exists_of_bind_ok h
  obtain ⟨f₁, f₂, hg, h⟩ := exists_of_bind_ok h
  cases hg
  by_cases hl : Flow.maxDefinition < f₃.cursor.pc - f.cursor.pc
  · rw [if_pos hl] at h
    cases h
  · rw [if_neg hl] at h
    cases h
    exact ⟨hs, Nat.le_of_not_lt hl, rfl⟩

theorem define_ok {key : Int32} {f f' : Flow} {d : Definition} (h : define key f = .ok d f') :
    ∃ c, f' = { f with cursor := c } ∧ f.cursor.Moves c ∧ f.cursor.pc < c.pc ∧
      f.cursor.code[c.pc - 1]? = some 0x2d ∧ c.pc - f.cursor.pc ≤ Flow.maxDefinition ∧
      d = { program := c.program, start := f.cursor.pc, stop := c.pc, key } := by
  obtain ⟨hs, hl, hd⟩ := define_inv h
  obtain ⟨c, rfl, hm, hlt, he⟩ := skipDefinition_ok hs
  exact ⟨c, rfl, hm, hlt, he, hl, hd⟩

end FlowM

namespace Flow.Linked

variable {P : Programs} {p : Program} {f f' : Flow}

theorem survives (P : Programs) (p : Program) : Flow.Survives (Definition.Valid P) (Linked P p) :=
  fun _ _ h ht => h.transfer ht

/-- A run that a glyph did not start never reads the program of a glyph. -/
theorem shared (h : f.Linked P p) (hp : p ≠ .glyph) :
    f.cursor.program = .font ∨ f.cursor.program = .controlValue := by
  have hl := h.calls
  rw [h.program]
  cases hf : f.calls with
  | nil =>
    cases p with
    | font => exact .inl rfl
    | controlValue => exact .inr rfl
    | glyph => exact absurd rfl hp
  | cons c rest =>
    rw [hf] at hl
    exact hl.1.body.program

theorem define {key : Int32} {d : Definition} (h : f.Linked P p) (hp : p ≠ .glyph)
    (hd : FlowM.define key f = .ok d f') : d.Valid P ∧ f'.Linked P p := by
  obtain ⟨c, rfl, hm, hlt, he, hl, rfl⟩ := FlowM.define_ok hd
  have hcode : f.cursor.code = P.get c.program := by rw [h.code, hm.program]
  refine ⟨⟨?_, hlt, ?_, hl, ?_⟩, h.move hm⟩
  · show c.program = .font ∨ c.program = .controlValue
    rw [hm.program]
    exact h.shared hp
  · have hin := hm.inside h.pc
    rwa [hcode] at hin
  · rwa [hcode] at he

theorem restartsInBody (h : f.Linked P p) : f.RestartsInBody := by
  intro c rest hf hc
  have hr := h.program
  rw [hf, running] at hr
  refine ⟨_, by rw [FlowM.leave, hf]; exact if_pos hc, ?_⟩
  rw [cursorAt, ← hr, h.programs, ← h.code]

end Flow.Linked

/-! ### Instructions -/

theorem Definition.Valid.withGlyph {P : Programs} {d : Definition} (h : d.Valid P) (code : Bytes) :
    d.Valid { P with glyph := code } := by
  have hget : Programs.get { P with glyph := code } d.program = P.get d.program := by
    rcases h.program with hp | hp <;> rw [hp] <;> rfl
  exact ⟨h.program, h.start, hget ▸ h.stop, h.length, hget ▸ h.marker⟩

/-- What survives control and does not depend on what plain actions change, every instruction
keeps. -/
theorem Control.steady {valid : Definition → Prop} {flowInv : Flow → Prop} {inv : Machine → Prop}
    (h : Control valid flowInv inv) (hp : ∀ m m', inv m → m.SameControl m' → inv m') :
    Machine.Steady Anything inv := by
  refine ⟨fun m hm => (h.next.ends hm).anything, fun b m hm => ?_⟩
  by_cases hi : (Instruction.ofByte b).isPlain
  · exact (Plain.execute hi).ends fun m' hc => hp m m' hm hc
  · exact ((h.execute hi).ends hm).anything

namespace DefinitionTable

variable {t : DefinitionTable} {key : Int32} {slot : Nat} {d d' : Definition}

theorem writable_of_slotFor (h : t.slotFor key = .ok slot) : t.writable = true := by
  cases hw : t.writable with
  | true => rfl
  | false =>
    rw [slotFor, hw] at h
    cases h

theorem mem_store (h : some d' ∈ (t.store slot d).slots) : some d' ∈ t.slots ∨ d' = d := by
  rcases Array.mem_or_eq_of_mem_setIfInBounds h with h | h
  · exact .inl h
  · exact .inr (Option.some.inj h)

end DefinitionTable

namespace Machine

theorem mem_definitions_store {m : Machine} {k k' : DefinitionKind} {slot : Nat} {d d' : Definition}
    (h : some d' ∈ ((m.store k slot d).definitions k').slots) :
    some d' ∈ (m.definitions k').slots ∨ d' = d := by
  cases k <;> cases k'
  · exact DefinitionTable.mem_store h
  · exact .inl h
  · exact .inl h
  · exact DefinitionTable.mem_store h

/-- The machine has the programs `P` and no definitions but valid ones. -/
structure Prepared (P : Programs) (m : Machine) : Prop where
  programs : m.flow.programs = P
  definitions : ∀ k d, some d ∈ (m.definitions k).slots → d.Valid P

/-- The calls and definitions of a machine on which the program `p` of `P` runs. -/
structure Linked (P : Programs) (p : Program) (m : Machine) : Prop where
  flow : m.flow.Linked P p
  definitions : ∀ k d, some d ∈ (m.definitions k).slots → d.Valid P
  closed : p = .glyph → ∀ k, (m.definitions k).writable = false

namespace Linked

variable {P : Programs} {p : Program} {m m' : Machine}

theorem store {k : DefinitionKind} {key : Int32} {slot : Nat} {d : Definition} {f : Flow}
    (h : m.Linked P p) (hs : (m.definitions k).slotFor key = .ok slot)
    (hd : FlowM.define key m.flow = .ok d f) :
    Linked P p (Machine.store { m with flow := f } k slot d) := by
  have hp : p ≠ .glyph := by
    intro hp
    have hw := h.closed hp k
    rw [DefinitionTable.writable_of_slotFor hs] at hw
    cases hw
  obtain ⟨hv, hf⟩ := h.flow.define hp hd
  refine ⟨?_, fun k' d' hd' => ?_, fun hg => absurd hg hp⟩
  · cases k <;> exact hf
  · rcases mem_definitions_store hd' with hd' | rfl
    · exact h.definitions k' d' hd'
    · exact hv

theorem control (P : Programs) (p : Program) :
    Control (Definition.Valid P) (Flow.Linked P p) (Linked P p) where
  survives := Flow.Linked.survives P p
  flow _ h := h.flow
  withFlow _ _ h hf := ⟨hf, h.definitions, h.closed⟩
  withStack _ _ h := ⟨h.flow, h.definitions, h.closed⟩
  definitions _ k d h := h.definitions k d
  store _ _ _ _ _ _ h hs hd := h.store hs hd

theorem of_sameControl (h : m.Linked P p) (hc : m.SameControl m') : m'.Linked P p := by
  have hd (k : DefinitionKind) : m'.definitions k = m.definitions k := by
    cases k with
    | function => exact hc.functions
    | instruction => exact hc.instructions
  refine ⟨?_, ?_, ?_⟩
  · rw [hc.flow]
    exact h.flow
  · intro k d
    rw [hd k]
    exact h.definitions k d
  · intro hp k
    rw [hd k]
    exact h.closed hp k

/-- No instruction breaks a link. -/
theorem steady (P : Programs) (p : Program) : Steady Anything (Linked P p) :=
  (control P p).steady fun _ _ h hc => h.of_sameControl hc

theorem restart (h : m.Prepared P) (hp : p = .glyph → ∀ k, (m.definitions k).writable = false) :
    (m.restart p).Linked P p where
  flow := by
    show (Flow.start m.flow.programs p).Linked P p
    rw [h.programs]
    exact .start P p
  definitions := h.definitions
  closed := hp

theorem run (P : Programs) (hp : p ≠ .glyph) : RunInvariant Anything p (Prepared P) (Linked P p) where
  steady := steady P p
  budget := trivial
  restart _ h := .restart h fun hg => absurd hg hp
  stop _ h := ⟨h.flow.programs, h.definitions⟩

theorem invariant (P : Programs) : Invariant Anything (Prepared P) (Linked P) where
  font := run P nofun
  controlValue := run P nofun
  refresh _ h := ⟨h.programs, h.definitions⟩

end Linked

end Machine

/-! ### Configuring and hinting -/

namespace Source

variable {src : Source} {scale ppem : Int32} {mode : Mode} {coords : Array Int16} {s : Snapshot}

/-- The programs that run when a glyph with the given program is hinted. There is none while the font
is configured. -/
def programs (src : Source) (glyph : Bytes) : Programs where
  font := src.fontProgram
  controlValue := src.controlValueProgram
  glyph := glyph

theorem prepared_machine (src : Source) (scale ppem : Int32) (mode : Mode) (coords : Array Int16) :
    (src.machine scale ppem mode coords).Prepared (src.programs #[]) where
  programs := rfl
  definitions k d hd := by
    cases k with
    | function => cases Array.eq_of_mem_replicate (n := src.maxima.functions) hd
    | instruction => cases Array.eq_of_mem_replicate (n := src.maxima.instructions) hd

theorem prepared_snapshot (h : src.configure scale ppem mode coords = .ok s) (o : Outline)
    (sc : Scratch) (hf : sc.Fits s.sizes) : (s.machine o sc hf).Prepared (src.programs o.bytecode) := by
  obtain ⟨m, hm, rfl⟩ := (Machine.Linked.invariant (src.programs #[])).configured
    (prepared_machine src scale ppem mode coords) h
  have hp := hm.programs
  refine ⟨?_, fun k d hd => ?_⟩
  · show Programs.mk m.flow.programs.font m.flow.programs.controlValue o.bytecode = _
    rw [hp]
    rfl
  · refine (hm.definitions k d ?_).withGlyph o.bytecode
    cases k <;> exact hd

end Source

/-- While a font is configured, and while a glyph is hinted afterwards, the calls in every state are
linked to each other and to the cursor, and definitions are valid. So a call that starts over does so
in the program of its body. -/
theorem Instance.calls_stay_linked (i : Instance) (src : Source) (scale ppem : Int32) (mode : Mode)
    (coords : Array Int16) :
    (∀ p m, src.Configuring scale ppem mode coords p m →
      m.Linked (src.programs #[]) p ∧ m.flow.RestartsInBody) ∧
    ((i.reconfigure src scale ppem mode coords).1 = none →
      ∀ s ∈ (i.reconfigure src scale ppem mode coords).2.snapshot, ∀ o m, s.Hinting o m →
        m.Linked (src.programs o.bytecode) .glyph ∧ m.flow.RestartsInBody) := by
  refine ⟨fun p m hc => ?_, fun hok s hs o m hh => ?_⟩
  · have hl := (Machine.Linked.invariant (src.programs #[])).configuring
      (Source.prepared_machine src scale ppem mode coords) hc
    exact ⟨hl, hl.flow.restartsInBody⟩
  · have hcfg : src.configure scale ppem mode coords = .ok s := by
      rw [reconfigure] at hok hs
      cases hx : src.configure scale ppem mode coords with
      | error f =>
        rw [hx] at hok
        cases hok
      | ok s' =>
        rw [hx] at hs
        cases hs
        rfl
    obtain ⟨sc, hf, ho⟩ := hh
    have hp := Source.prepared_snapshot hcfg o sc hf
    have hl := (Machine.Linked.steady (src.programs o.bytecode) .glyph).occurs
      (.restart hp fun _ k => by cases k <;> rfl) ho
    exact ⟨hl, hl.flow.restartsInBody⟩

end GridFit
