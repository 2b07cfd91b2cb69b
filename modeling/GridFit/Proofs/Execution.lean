import GridFit.Instance
import GridFit.Proofs.Action

/-!
# The states of a run

`Machine.Reach m₀ m`: a run that starts at `m₀` comes to `m` between two instructions.
`Machine.Occurs m₀ m` adds the states inside of a step and at its failure. Neither counts
instructions, so they hold of runs of any length. What reading an opcode and executing an
instruction keep (`Steady`) holds in all these states and at the end of every run.

A configuration makes two runs and a glyph makes one. A `RunInvariant` has a form for machines at
rest and one for machines on which a program runs. Where the programs of a font share the form at
rest (`Invariant`), it holds throughout (`Invariant.configuring`, `Invariant.configure`).
-/

namespace GridFit

theorem FlowM.onCursor_ok {α : Type} {x : CursorM α} {f f₁ : Flow} {a : α}
    (h : onCursor x f = .ok a f₁) :
    x f.cursor = .ok a f₁.cursor ∧ f₁ = { f with cursor := f₁.cursor } := by
  rw [onCursor] at h
  cases hx : x f.cursor with
  | error e c =>
    rw [hx] at h
    cases h
  | ok a' c =>
    rw [hx] at h
    cases h
    exact ⟨rfl, rfl⟩

namespace Machine

variable {m₀ m m₁ m₂ : Machine} {b : UInt8} {e : Fault} {fuel : Nat}

/-! ### One step of a run -/

theorem onFlow_ok {α : Type} {x : FlowM α} {a : α} (h : Exec.onFlow x m = .ok a m₁) :
    x m.flow = .ok a m₁.flow ∧ m₁ = { m with flow := m₁.flow } := by
  rw [Exec.onFlow] at h
  cases hx : x m.flow with
  | error e f =>
    rw [hx] at h
    cases h
  | ok a' f =>
    rw [hx] at h
    cases h
    exact ⟨rfl, rfl⟩

theorem locate_of_ok {α : Type} {x : Exec α} {a : α} (pc : Nat) (opcode : UInt8)
    (h : x m = .ok a m₁) : locate pc opcode x m = .ok a m₁ := by
  rw [locate, h]

theorem locate_of_error {α : Type} {x : Exec α} (pc : Nat) (opcode : UInt8)
    (h : x m = .error e m₁) : locate pc opcode x m = .error (m₁.failure pc opcode e) m₁ := by
  rw [locate, h]

theorem step_eq (m : Machine) : step m = (locate m.flow.cursor.pc 0 (Exec.onFlow FlowM.next) >>=
    fun b => locate m.flow.cursor.pc b (Exec.execute (.ofByte b))) m :=
  bind_of_ok (x := get) rfl

theorem step_unread (hn : Exec.onFlow FlowM.next m = .error e m₁) :
    step m = .error (m₁.failure m.flow.cursor.pc 0 e) m₁ :=
  (step_eq m).trans (bind_of_error (locate_of_error m.flow.cursor.pc 0 hn))

theorem step_read (hn : Exec.onFlow FlowM.next m = .ok b m₁) :
    step m = locate m.flow.cursor.pc b (Exec.execute (.ofByte b)) m₁ :=
  (step_eq m).trans (bind_of_ok (locate_of_ok m.flow.cursor.pc 0 hn))

theorem runFrom_finished (fuel : Nat) (h : m.flow.finished) : runFrom fuel m = .ok () m := by
  cases fuel <;> simp only [runFrom, if_pos h]

theorem runFrom_zero (h : ¬m.flow.finished) :
    runFrom 0 m = .error (m.failure m.flow.cursor.pc 0 .budgetExceeded) m := by
  simp only [runFrom, if_neg h]

theorem runFrom_error {f : Failure} (h : ¬m.flow.finished) (hs : step m = .error f m₁) :
    runFrom (fuel + 1) m = .error f m₁ := by
  simp only [runFrom, if_neg h, hs]

theorem runFrom_step (h : ¬m.flow.finished) (hs : step m = .ok () m₁) :
    runFrom (fuel + 1) m = runFrom fuel m₁ := by
  rw [runFrom]
  simp only [if_neg h, hs]

/-- Executes `n` instructions. -/
def steps : Nat → EStateM Failure Machine Unit
  | 0 => pure ()
  | n + 1 => do
    step
    steps n

theorem steps_one (m : Machine) : steps 1 m = step m := by
  rw [steps]
  cases hs : step m with
  | ok u m₁ =>
    rw [bind_of_ok hs]
    rfl
  | error f m₁ => rw [bind_of_error hs]

theorem steps_add {n : Nat} (k : Nat) (h : steps n m = .ok () m₁) : steps (n + k) m = steps k m₁ := by
  induction n generalizing m with
  | zero =>
    cases h
    rw [Nat.zero_add]
  | succ n ih =>
    rw [Nat.add_right_comm, steps]
    cases hs : step m with
    | ok u m' =>
      rw [steps, bind_of_ok hs] at h
      rw [bind_of_ok hs]
      exact ih h
    | error f m' =>
      rw [steps, bind_of_error hs] at h
      cases h

theorem not_finished_of_lt (h : m.flow.cursor.pc < m.flow.cursor.code.size) : ¬m.flow.finished := by
  intro hf
  have hd : m.flow.cursor.done := (Bool.and_eq_true_iff.1 hf).1
  exact Nat.not_lt.2 (of_decide_eq_true hd) h

/-- An instruction that could be executed was there to be read. -/
theorem not_finished_of_step (h : step m = .ok () m₁) : ¬m.flow.finished := by
  by_cases hpc : m.flow.cursor.pc < m.flow.cursor.code.size
  · exact not_finished_of_lt hpc
  have hn : Exec.onFlow FlowM.next m = .error .endOfBytecode m := by
    rw [Exec.onFlow, FlowM.next, FlowM.onCursor, CursorM.next, dif_neg hpc]
  rw [step_unread hn] at h
  cases h

/-- A run executes instructions one after the other. -/
theorem runFrom_steps {n : Nat} (k : Nat) (h : steps n m = .ok () m₁) :
    runFrom (n + k) m = runFrom k m₁ := by
  induction n generalizing m with
  | zero =>
    cases h
    rw [Nat.zero_add]
  | succ n ih =>
    cases hs : step m with
    | error f m' =>
      rw [steps, bind_of_error hs] at h
      cases h
    | ok u m' =>
      rw [steps, bind_of_ok hs] at h
      rw [Nat.add_right_comm, runFrom_step (not_finished_of_step hs) hs]
      exact ih h

/-! ### The states of a run -/

/-- `m` is a state between two instructions of a run that starts at `m₀`. -/
inductive Reach (m₀ : Machine) : Machine → Prop
  | start : Reach m₀ m₀
  | step {m m₁ m₂ : Machine} {b : UInt8} : Reach m₀ m → ¬m.flow.finished →
      Exec.onFlow FlowM.next m = .ok b m₁ → Exec.execute (.ofByte b) m₁ = .ok () m₂ → Reach m₀ m₂

/-- `m` occurs in a run that starts at `m₀`: between two instructions, after an opcode has been read,
or where the run fails. -/
inductive Occurs (m₀ : Machine) : Machine → Prop
  | between {m : Machine} : Reach m₀ m → Occurs m₀ m
  | unread {m m₁ : Machine} {e : Fault} : Reach m₀ m → ¬m.flow.finished →
      Exec.onFlow FlowM.next m = .error e m₁ → Occurs m₀ m₁
  | read {m m₁ : Machine} {b : UInt8} : Reach m₀ m → ¬m.flow.finished →
      Exec.onFlow FlowM.next m = .ok b m₁ → Occurs m₀ m₁
  | failed {m m₁ m₂ : Machine} {b : UInt8} {e : Fault} : Reach m₀ m → ¬m.flow.finished →
      Exec.onFlow FlowM.next m = .ok b m₁ → Exec.execute (.ofByte b) m₁ = .error e m₂ → Occurs m₀ m₂

theorem Reach.trans (h : Reach m₀ m) (h' : Reach m m₁) : Reach m₀ m₁ := by
  induction h' with
  | start => exact h
  | step _ hf hn hx ih => exact .step ih hf hn hx

/-- A step succeeds if an instruction can be read and executed. -/
theorem exists_of_step (h : Machine.step m = .ok () m₂) :
    ∃ b m₁, Exec.onFlow FlowM.next m = .ok b m₁ ∧ Exec.execute (.ofByte b) m₁ = .ok () m₂ := by
  cases hn : Exec.onFlow FlowM.next m with
  | error e m₁ =>
    rw [step_unread hn] at h
    cases h
  | ok b m₁ =>
    rw [step_read hn] at h
    cases hx : Exec.execute (.ofByte b) m₁ with
    | error e m' =>
      rw [locate_of_error _ b hx] at h
      cases h
    | ok u m' =>
      rw [locate_of_ok _ b hx] at h
      cases h
      exact ⟨b, m₁, rfl, hx⟩

/-- A step fails where there is nothing to read, or in an instruction. -/
theorem step_error_cases {f : Failure} (h : Machine.step m = .error f m₂) :
    (∃ e, Exec.onFlow FlowM.next m = .error e m₂ ∧ f = m₂.failure m.flow.cursor.pc 0 e) ∨
      ∃ b m₁ e, Exec.onFlow FlowM.next m = .ok b m₁ ∧ Exec.execute (.ofByte b) m₁ = .error e m₂ ∧
        f = m₂.failure m.flow.cursor.pc b e := by
  cases hn : Exec.onFlow FlowM.next m with
  | error e m₁ =>
    rw [step_unread hn] at h
    cases h
    exact .inl ⟨e, rfl, rfl⟩
  | ok b m₁ =>
    rw [step_read hn] at h
    cases hx : Exec.execute (.ofByte b) m₁ with
    | ok u m' =>
      rw [locate_of_ok _ b hx] at h
      cases h
    | error e m' =>
      rw [locate_of_error _ b hx] at h
      cases h
      exact .inr ⟨b, m₁, e, rfl, hx, rfl⟩

theorem reach_of_steps {n : Nat} (h : steps n m₀ = .ok () m) : Reach m₀ m := by
  induction n generalizing m₀ with
  | zero =>
    cases h
    exact .start
  | succ n ih =>
    rw [steps] at h
    obtain ⟨u, m₁, hs, h⟩ := exists_of_bind_ok h
    obtain ⟨b, m₂, hn, hx⟩ := exists_of_step hs
    exact (Reach.step .start (not_finished_of_step hs) hn hx).trans (ih h)

/-- Reading an opcode and executing an instruction keep `inv`, also where they fail, and fail only
with faults in `allowed`. -/
def Steady (allowed : Fault → Prop) (inv : Machine → Prop) : Prop :=
  (∀ m, inv m → Ends allowed inv (Exec.onFlow FlowM.next m)) ∧
    ∀ (b : UInt8) (m : Machine), inv m → Ends allowed inv (Exec.execute (.ofByte b) m)

namespace Steady

variable {allowed : Fault → Prop} {inv : Machine → Prop}

theorem of_keeps (hf : Keeps inv (Exec.onFlow FlowM.next) Anything)
    (hx : ∀ b : UInt8, Keeps inv (Exec.execute (.ofByte b)) Anything) : Steady (· ≠ .breach) inv :=
  ⟨fun _ hm => hf.ends hm, fun b _ hm => (hx b).ends hm⟩

theorem fetch (h : Steady allowed inv) (hm : inv m) : Ends allowed inv (Exec.onFlow FlowM.next m) :=
  h.1 m hm

theorem execute (h : Steady allowed inv) (b : UInt8) (hm : inv m) :
    Ends allowed inv (Exec.execute (.ofByte b) m) :=
  h.2 b m hm

theorem reach (h : Steady allowed inv) (h₀ : inv m₀) (hm : Reach m₀ m) : inv m := by
  induction hm with
  | start => exact h₀
  | step _ _ hn hx ih => exact (h.execute _ ((h.fetch ih).ok hn)).ok hx

theorem occurs (h : Steady allowed inv) (h₀ : inv m₀) (hm : Occurs m₀ m) : inv m := by
  cases hm with
  | between hr => exact h.reach h₀ hr
  | unread hr _ hn => exact ((h.fetch (h.reach h₀ hr)).error hn).2
  | read hr _ hn => exact (h.fetch (h.reach h₀ hr)).ok hn
  | failed hr _ hn hx =>
    exact ((h.execute _ ((h.fetch (h.reach h₀ hr)).ok hn)).error hx).2

theorem step (h : Steady allowed inv) (hm : inv m) :
    Ends (fun f : Failure => allowed f.fault) inv (Machine.step m) := by
  have hf := h.fetch hm
  cases hn : Exec.onFlow FlowM.next m with
  | error e m₁ =>
    rw [step_unread hn]
    exact hf.error hn
  | ok b m₁ =>
    have hx := h.execute b (hf.ok hn)
    rw [step_read hn]
    cases he : Exec.execute (.ofByte b) m₁ with
    | error e m₂ =>
      rw [locate_of_error _ b he]
      exact hx.error he
    | ok u m₂ =>
      rw [locate_of_ok _ b he]
      exact hx.ok he

/-- A run keeps what its steps keep. -/
theorem runFrom (h : Steady allowed inv) (hb : allowed .budgetExceeded) (fuel : Nat) (hm : inv m) :
    Ends (fun f : Failure => allowed f.fault) inv (Machine.runFrom fuel m) := by
  induction fuel generalizing m with
  | zero =>
    by_cases hf : m.flow.finished
    · rw [runFrom_finished 0 hf]
      exact hm
    · rw [runFrom_zero hf]
      exact ⟨hb, hm⟩
  | succ fuel ih =>
    by_cases hf : m.flow.finished
    · rw [runFrom_finished _ hf]
      exact hm
    have hs := h.step hm
    cases hx : Machine.step m with
    | error f m₁ =>
      rw [runFrom_error hf hx]
      exact hs.error hx
    | ok u m₁ =>
      rw [runFrom_step hf hx]
      exact ih (hs.ok hx)

end Steady

/-! ### Configuring and hinting -/

/-- What machines have between runs (`rest`) and while the program `p` runs (`inv`). -/
structure RunInvariant (allowed : Fault → Prop) (p : Program) (rest inv : Machine → Prop) : Prop where
  steady : Steady allowed inv
  budget : allowed .budgetExceeded
  restart : ∀ m, rest m → inv (m.restart p)
  stop : ∀ m, inv m → rest m

namespace RunInvariant

variable {allowed : Fault → Prop} {p : Program} {rest inv : Machine → Prop}

theorem occurs (h : RunInvariant allowed p rest inv) (hm : rest m₀) (ho : (m₀.restart p).Occurs m) :
    inv m :=
  h.steady.occurs (h.restart m₀ hm) ho

theorem run (h : RunInvariant allowed p rest inv) (hm : rest m) :
    Ends (fun f : Failure => allowed f.fault) rest (Machine.run p m) :=
  (h.steady.runFrom h.budget Machine.budget (h.restart m hm)).mono h.stop

theorem runNonempty (h : RunInvariant allowed p rest inv) (hm : rest m) :
    Ends (fun f : Failure => allowed f.fault) rest (Machine.runNonempty p m) := by
  rw [Machine.runNonempty]
  by_cases he : (m.flow.programs.get p).isEmpty
  · rw [if_pos he]
    exact hm
  · rw [if_neg he]
    exact h.run hm

end RunInvariant

/-- What machines have between the runs of a configuration, and while one of its programs runs. -/
structure Invariant (allowed : Fault → Prop) (rest : Machine → Prop) (inv : Program → Machine → Prop) :
    Prop where
  font : RunInvariant allowed .font rest (inv .font)
  controlValue : RunInvariant allowed .controlValue rest (inv .controlValue)
  refresh : ∀ m, rest m → rest m.refresh

theorem Invariant.configure {allowed : Fault → Prop} {rest : Machine → Prop}
    {inv : Program → Machine → Prop} (h : Invariant allowed rest inv) (hm : rest m) :
    Ends (fun f : Failure => allowed f.fault) rest (Machine.configure m) := by
  have hf := h.font.runNonempty hm
  rw [Machine.configure]
  cases hx : Machine.runNonempty .font m with
  | error f m' =>
    rw [bind_of_error hx]
    exact hf.error hx
  | ok u m' =>
    rw [bind_of_ok hx, bind_of_ok (x := modify Machine.refresh) rfl]
    exact h.controlValue.runNonempty (h.refresh m' (hf.ok hx))

end Machine

/-- The states that occur while a font is configured: first the font program runs and then, if it
ends well, the control value program. -/
inductive Source.Configuring (src : Source) (scale ppem : Int32) (mode : Mode)
    (coords : Array Int16) : Program → Machine → Prop
  | font {m : Machine} : ((src.machine scale ppem mode coords).restart .font).Occurs m →
      Configuring src scale ppem mode coords .font m
  | controlValue {m₁ m : Machine} :
      Machine.runNonempty .font (src.machine scale ppem mode coords) = .ok () m₁ →
      (m₁.refresh.restart .controlValue).Occurs m →
      Configuring src scale ppem mode coords .controlValue m

/-- The states that occur while a glyph is hinted. -/
inductive Snapshot.Hinting (s : Snapshot) (o : Outline) : Machine → Prop
  | glyph {m : Machine} (sc : Scratch) (h : sc.Fits s.sizes) :
      ((s.machine o sc h).restart .glyph).Occurs m → Hinting s o m

/-- The machines on which programs are started: while a font is configured, and when an outline is
hinted afterwards. -/
inductive Source.Starts (src : Source) (scale ppem : Int32) (mode : Mode) (coords : Array Int16) :
    Program → Machine → Prop
  | font : Starts src scale ppem mode coords .font (src.machine scale ppem mode coords)
  | controlValue {m : Machine} :
      Machine.runNonempty .font (src.machine scale ppem mode coords) = .ok () m →
      Starts src scale ppem mode coords .controlValue m.refresh
  | glyph {s : Snapshot} {o : Outline} {sc : Scratch} (hf : sc.Fits s.sizes) :
      src.configure scale ppem mode coords = .ok s → o.isConsistent →
      Starts src scale ppem mode coords .glyph (s.machine o sc hf)

/-- The points of a hinted glyph are those of the machine at the start of its run or at the end. -/
theorem Snapshot.outline_run {s : Snapshot} {o : Outline} {sc : Scratch} {inv : Machine → Prop}
    (hc : Phantom.count ≤ o.scaled.size) (hf : sc.Fits s.sizes)
    (h₀ : inv ((s.machine o sc hf).restart .glyph))
    (h : Ends Anything inv (Machine.run .glyph (s.machine o sc hf))) :
    ∃ m, inv m ∧ (s.run o sc hc hf).outline.points = m.glyph.points ∧
      (s.run o sc hc hf).outline.flags.size = m.glyph.flags.size := by
  unfold run
  dsimp only
  by_cases hb : o.bytecode.isEmpty
  · rw [if_pos hb]
    exact ⟨_, h₀, rfl, Array.size_map.symm⟩
  rw [if_neg hb]
  cases hx : Machine.run .glyph (s.machine { o with phantom := .ofEnd o.scaled hc } sc hf) with
  | error f m => exact ⟨m, (h.error hx).2, rfl, rfl⟩
  | ok u m =>
    refine ⟨m, h.ok hx, ?_⟩
    dsimp only
    split
    · exact ⟨rfl, rfl⟩
    · split <;> exact ⟨rfl, rfl⟩

namespace Machine.Invariant

variable {allowed : Fault → Prop} {rest : Machine → Prop} {inv : Program → Machine → Prop}
  {src : Source} {scale ppem : Int32} {mode : Mode} {coords : Array Int16} {m : Machine}

/-- An invariant of the machine on which a font is configured holds throughout. -/
theorem configuring {p : Program} (h : Invariant allowed rest inv)
    (hm : rest (src.machine scale ppem mode coords))
    (hc : src.Configuring scale ppem mode coords p m) : inv p m := by
  cases hc with
  | font ho => exact h.font.occurs hm ho
  | controlValue hr ho => exact h.controlValue.occurs (h.refresh _ ((h.font.runNonempty hm).ok hr)) ho

/-- What a successful configuration leaves behind is the snapshot of a machine at rest. -/
theorem configured {s : Snapshot} (h : Invariant allowed rest inv)
    (hm : rest (src.machine scale ppem mode coords))
    (hs : src.configure scale ppem mode coords = .ok s) : ∃ m, rest m ∧ s = m.snapshot := by
  have hc := h.configure hm
  rw [Source.configure] at hs
  cases hx : Machine.configure (src.machine scale ppem mode coords) with
  | error f m' =>
    rw [hx] at hs
    cases hs
  | ok u m' =>
    rw [hx] at hs
    exact ⟨m', hc.ok hx, (Except.ok.inj hs).symm⟩

theorem allowed_fault {f : Failure} (h : Invariant allowed rest inv)
    (hm : rest (src.machine scale ppem mode coords))
    (hf : src.configure scale ppem mode coords = .error f) : allowed f.fault := by
  have hc := h.configure hm
  rw [Source.configure] at hf
  cases hx : Machine.configure (src.machine scale ppem mode coords) with
  | error f' m' =>
    rw [hx] at hf
    cases hf
    exact (hc.error hx).1
  | ok u m' =>
    rw [hx] at hf
    cases hf

end Machine.Invariant

end GridFit
