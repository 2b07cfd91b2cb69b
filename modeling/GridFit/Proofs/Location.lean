import GridFit.Proofs.Budget
import GridFit.Proofs.Containment

/-!
# Where a failure is reported

A run that fails reports the program that was started, and the position and the opcode of the
instruction at which it has failed (`Machine.Fails`). The position is one in the program that is
executed by then. This is the program that was started if no call is in progress or if the innermost
one executes a body in it, as in every run of the font program (`Machine.InFont`). The other programs
can call functions of the font program, and then a report can name a place that does not exist
(`Source.failure_elsewhere`).
-/

namespace GridFit

namespace Machine

variable {P : Programs} {p : Program} {m₀ m m' : Machine} {f : Failure}

/-- What a run of the program `p` of `P` reports if it fails at `m`: that its budget is exceeded, that
there is nothing to read inside of a call, or that an instruction fails. The opcode of this
instruction is found in the program that holds the body of the innermost call. -/
inductive Fails (P : Programs) (p : Program) (m : Machine) : Failure → Prop
  | exceeded : ¬m.flow.finished →
      Fails P p m { program := p, pc := m.flow.cursor.pc, fault := .budgetExceeded }
  | unread : m.flow.cursor.done → m.flow.calls ≠ [] →
      Fails P p m { program := p, pc := m.flow.cursor.pc, fault := .endOfBytecode }
  | dispatching {m₁ m₂ : Machine} {b : UInt8} {e : Fault} : Exec.onFlow FlowM.next m = .ok b m₁ →
      Exec.execute (.ofByte b) m₁ = .error e m₂ →
      (P.get (Flow.running p m.flow.calls))[m.flow.cursor.pc]? = some b →
      Fails P p m { program := p, pc := m.flow.cursor.pc, opcode := b, fault := e }

theorem next_error {e : Fault} (h : Exec.onFlow FlowM.next m = .error e m') :
    m.flow.cursor.done ∧ e = .endOfBytecode ∧ m' = m := by
  by_cases hpc : m.flow.cursor.pc < m.flow.cursor.code.size
  · rw [Exec.onFlow, FlowM.next, FlowM.onCursor, CursorM.next, dif_pos hpc] at h
    cases h
  · rw [Exec.onFlow, FlowM.next, FlowM.onCursor, CursorM.next, dif_neg hpc] at h
    cases h
    exact ⟨decide_eq_true (Nat.le_of_not_lt hpc), rfl, rfl⟩

theorem next_ok {b : UInt8} (h : Exec.onFlow FlowM.next m = .ok b m') :
    m.flow.cursor.code[m.flow.cursor.pc]? = some b :=
  (CursorM.next_ok (FlowM.onCursor_ok (onFlow_ok h).1).1).1

theorem fails_of_run (h₀ : (m₀.restart p).Linked P p) (h : run p m₀ = .error f m') :
    ∃ m, (m₀.restart p).Reach m ∧ m.Fails P p f := by
  obtain ⟨n, hn, m, hs, ho⟩ := runFrom_over budget (m₀.restart p)
  rw [show runFrom budget (m₀.restart p) = .error f m' from h] at ho
  have hm := reach_of_steps hs
  have hsteady := Linked.steady P p
  have hl := hsteady.reach h₀ hm
  refine ⟨m, hm, ?_⟩
  cases ho with
  | exceeded _ hfin =>
    rw [failure, hl.flow.initial]
    exact .exceeded hfin
  | failed _ hfin hx =>
    rcases step_error_cases hx with ⟨e, hn, rfl⟩ | ⟨b, m₁, e, hn, he, rfl⟩
    · obtain ⟨hdone, rfl, rfl⟩ := next_error hn
      rw [failure, hl.flow.initial]
      refine .unread hdone fun hc => hfin ?_
      rw [Flow.finished, hdone, hc]
      rfl
    · -- the program that was started is the same in the state that the instruction leaves
      have hl' := ((hsteady.execute b ((hsteady.fetch hl).ok hn)).error he).2
      rw [failure, hl'.flow.initial]
      refine .dispatching hn he ?_
      rw [← hl.flow.program, ← hl.flow.code]
      exact next_ok hn

end Machine

/-! ### The font program -/

/-- Nothing but the font program is being executed. -/
structure Flow.InFont (f : Flow) : Prop where
  cursor : f.cursor.program = .font
  calls : ∀ c ∈ f.calls, c.caller = .font ∧ c.body.program = .font

namespace Flow.InFont

variable {f f' : Flow}

theorem transfer (h : f.InFont) (ht : f.Transfer (·.program = .font) f') : f'.InFont := by
  have hcalls := h.calls
  cases ht with
  | move hc => exact ⟨hc.program.trans h.cursor, hcalls⟩
  | enter hd hc hl =>
    refine ⟨hd, ?_⟩
    intro c' hc'
    rcases List.mem_cons.1 hc' with rfl | hc'
    · exact ⟨h.cursor, hd⟩
    · exact hcalls c' hc'
  | @again c rest hf hc =>
    rw [hf] at hcalls
    refine ⟨h.cursor, ?_⟩
    intro c' hc'
    rcases List.mem_cons.1 hc' with rfl | hc'
    · exact hcalls c (List.mem_cons_self ..)
    · exact hcalls c' (List.mem_cons_of_mem _ hc')
  | @back c rest hf hc =>
    rw [hf] at hcalls
    refine ⟨(hcalls c (List.mem_cons_self ..)).1, ?_⟩
    intro c' hc'
    exact hcalls c' (List.mem_cons_of_mem _ hc')
  | jump ht => exact ⟨h.cursor, hcalls⟩

theorem running (h : f.InFont) : Flow.running .font f.calls = .font := by
  have hcalls := h.calls
  cases hf : f.calls with
  | nil => rfl
  | cons c rest =>
    rw [hf] at hcalls
    exact (hcalls c (List.mem_cons_self ..)).2

end Flow.InFont

namespace Machine

structure InFont (m : Machine) : Prop where
  flow : m.flow.InFont
  definitions : ∀ d, m.Defines d → d.program = .font

namespace InFont

variable {m m' : Machine}

theorem store {k : DefinitionKind} {key : Int32} {slot : Nat} {d : Definition} {f : Flow}
    (h : m.InFont) (hd : FlowM.define key m.flow = .ok d f) :
    InFont (Machine.store { m with flow := f } k slot d) := by
  obtain ⟨c, rfl, hm, -, -, -, rfl⟩ := FlowM.define_ok hd
  have hf := h.flow.transfer (.move hm)
  refine ⟨by cases k <;> exact hf, ?_⟩
  rintro d' ⟨k', hd'⟩
  rcases mem_definitions_store hd' with hd' | rfl
  · exact h.definitions d' ⟨k', hd'⟩
  · exact hf.cursor

theorem control : Control (·.program = .font) Flow.InFont InFont where
  survives _ _ h ht := h.transfer ht
  flow _ h := h.flow
  withFlow _ _ h hf := ⟨hf, h.definitions⟩
  withStack _ _ h := ⟨h.flow, h.definitions⟩
  definitions _ k d h hd := h.definitions d ⟨k, hd⟩
  store _ _ _ _ _ _ h _ hd := h.store hd

theorem of_sameControl (h : m.InFont) (hc : m.SameControl m') : m'.InFont := by
  refine ⟨?_, fun d hd => h.definitions d (hc.defines hd)⟩
  rw [hc.flow]
  exact h.flow

theorem steady : Steady Anything InFont := control.steady fun _ _ h hc => h.of_sameControl hc

end InFont

end Machine

/-! ### Configuring and hinting -/

namespace Source

variable {src : Source} {scale ppem : Int32} {mode : Mode} {coords : Array Int16}

theorem inFont_machine (src : Source) (scale ppem : Int32) (mode : Mode) (coords : Array Int16) :
    ((src.machine scale ppem mode coords).restart .font).InFont := by
  refine ⟨⟨rfl, nofun⟩, ?_⟩
  rintro d ⟨k, hd⟩
  cases k with
  | function => cases Array.eq_of_mem_replicate (n := src.maxima.functions) hd
  | instruction => cases Array.eq_of_mem_replicate (n := src.maxima.instructions) hd

/-- A run that fails reports the program that was started, and where and at which opcode it has
failed. Both are right in the program that is executed by then. In a run of the font program this is
the one that was started. -/
theorem failures_located (src : Source) (scale ppem : Int32) (mode : Mode) (coords : Array Int16) :
    ∀ p m₀, src.Starts scale ppem mode coords p m₀ →
      ∀ f m', Machine.run p m₀ = .error f m' →
        ∃ m, (m₀.restart p).Reach m ∧ m.Fails m₀.flow.programs p f ∧
          (p = .font → Flow.running p m.flow.calls = p) := by
  intro p m₀ hstart f m' hr
  obtain ⟨P, h₀⟩ := anchored_restart hstart
  obtain rfl : m₀.flow.programs = P := h₀.linked.flow.programs
  obtain ⟨m, hm, hf⟩ := Machine.fails_of_run h₀.linked hr
  refine ⟨m, hm, hf, fun hp => ?_⟩
  cases hstart with
  | font =>
    have hfont := Machine.InFont.steady.reach (inFont_machine src scale ppem mode coords) hm
    exact hfont.flow.running
  | controlValue => cases hp
  | glyph => cases hp

/-- The control value program of the font fails, and `good` says how, given the machine on which it
starts. -/
def controlValueFails (src : Source) (good : Machine → Failure → Bool) : Bool :=
  match Machine.runNonempty .font (src.machine 65536 16 {} #[]) with
  | .error _ _ => false
  | .ok _ m =>
    match Machine.run .controlValue m.refresh with
    | .ok _ _ => false
    | .error f _ => good m.refresh f

theorem exists_of_controlValueFails {good : Machine → Failure → Bool}
    (h : src.controlValueFails good) : ∃ m₀ f m', src.Starts 65536 16 {} #[] .controlValue m₀ ∧
      Machine.run .controlValue m₀ = .error f m' ∧ good m₀ f := by
  unfold controlValueFails at h
  cases hfont : Machine.runNonempty .font (src.machine 65536 16 {} #[]) with
  | error f m =>
    rw [hfont] at h
    cases h
  | ok u m =>
    rw [hfont] at h
    dsimp only at h
    cases hr : Machine.run .controlValue m.refresh with
    | ok u m' =>
      rw [hr] at h
      cases h
    | error f m' =>
      rw [hr] at h
      exact ⟨m.refresh, f, m', .controlValue hfont, hr, h⟩

/-- A font whose control value program calls a function of the font program that divides by zero. -/
def dividingFont : Source where
  maxima := { stack := 8, functions := 1 }
  fontProgram := #[0xb0, 0, 0x2c, 0xb1, 64, 0, 0x62, 0x2d]
  controlValueProgram := #[0xb0, 0, 0x2b]

/-- The division has failed in the font program, while the control value program was running. -/
theorem failures_located_dividing :
    ∃ m₀ f m' m, dividingFont.Starts 65536 16 {} #[] .controlValue m₀ ∧
      Machine.run .controlValue m₀ = .error f m' ∧ (m₀.restart .controlValue).Reach m ∧
      m.Fails m₀.flow.programs .controlValue f ∧ f.program = .controlValue ∧ f.pc = 6 ∧
      f.opcode = 0x62 ∧ Flow.running .controlValue m.flow.calls = .font := by
  have h : dividingFont.controlValueFails (fun m f => f.pc == 6 && (f.opcode == 0x62 &&
      (m.flow.programs.controlValue[6]? == none && m.flow.programs.glyph[6]? == none))) := by
    decide +kernel
  obtain ⟨m₀, f, m', hstart, hr, hgood⟩ := exists_of_controlValueFails h
  obtain ⟨hpc, hgood⟩ := Bool.and_eq_true_iff.1 hgood
  obtain ⟨hop, hgood⟩ := Bool.and_eq_true_iff.1 hgood
  obtain ⟨hcontrol, hglyph⟩ := Bool.and_eq_true_iff.1 hgood
  obtain ⟨m, hm, hfails, -⟩ :=
    failures_located dividingFont 65536 16 {} #[] .controlValue m₀ hstart f m' hr
  refine ⟨m₀, f, m', m, hstart, hr, hm, hfails, ?_⟩
  cases hfails with
  | exceeded => cases hop
  | unread => cases hop
  | @dispatching m₁ m₂ b e _ _ hbyte =>
    have hpc : m.flow.cursor.pc = 6 := eq_of_beq hpc
    refine ⟨rfl, hpc, eq_of_beq hop, ?_⟩
    -- Only the font program is long enough to have that place.
    rw [hpc] at hbyte
    cases hrunning : Flow.running .controlValue m.flow.calls with
    | font => rfl
    | controlValue =>
      rw [hrunning] at hbyte
      cases (eq_of_beq hcontrol).symm.trans hbyte
    | glyph =>
      rw [hrunning] at hbyte
      cases (eq_of_beq hglyph).symm.trans hbyte

/-- A font whose control value program calls a function of the font program that pops from an empty
stack. -/
def poppingFont : Source where
  maxima := { stack := 8, functions := 1 }
  fontProgram := #[0xb0, 0, 0x2c, 0x21, 0x2d]
  controlValueProgram := #[0xb0, 0, 0x2b]

/-- The control value program fails while an instruction is executed, and there is no such place in
the program that the report names. -/
theorem failure_elsewhere :
    ∃ m₀ f m' m m₁ m₂, poppingFont.Starts 65536 16 {} #[] .controlValue m₀ ∧
      Machine.run .controlValue m₀ = .error f m' ∧ (m₀.restart .controlValue).Reach m ∧
      Exec.onFlow FlowM.next m = .ok f.opcode m₁ ∧
      Exec.execute (.ofByte f.opcode) m₁ = .error f.fault m₂ ∧ f.pc = m.flow.cursor.pc ∧
      f.program = .controlValue ∧ (m₀.flow.programs.get f.program)[f.pc]? = none := by
  have h : poppingFont.controlValueFails
      (fun m f => f.opcode == 0x21 && (m.flow.programs.get f.program)[f.pc]? == none) := by
    decide +kernel
  obtain ⟨m₀, f, m', hstart, hr, hgood⟩ := exists_of_controlValueFails h
  obtain ⟨hop, hnone⟩ := Bool.and_eq_true_iff.1 hgood
  obtain ⟨P, h₀⟩ := anchored_restart hstart
  obtain ⟨m, hm, hfails⟩ := Machine.fails_of_run h₀.linked hr
  cases hfails with
  | exceeded => cases hop
  | unread => cases hop
  | @dispatching m₁ m₂ b e hn hx =>
    exact ⟨m₀, _, m', m, m₁, m₂, hstart, hr, hm, hn, hx, rfl, rfl, eq_of_beq hnone⟩

end Source

end GridFit
