import GridFit.Proofs.Regime.Execute

/-!
# Traces

`Machine.Executes m₀ done m`: a run that starts at `m₀` comes to `m` between two instructions, and
`done` are the instructions that it has executed until then, the last one first. `Machine.Shows`
adds the states inside of a step and at its failure; an instruction that fails counts as executed.

What a run comes to is among the states that it shows (`Machine.shows_run`). A regime that survives
what some instructions do holds as long as a run executes no others (`Regime.shows`).
-/

namespace GridFit

namespace Machine

variable {m₀ m m' : Machine} {done : List Instruction}

inductive Executes (m₀ : Machine) : List Instruction → Machine → Prop
  | start : Executes m₀ [] m₀
  | step {m m₁ m₂ : Machine} {b : UInt8} {done : List Instruction} : Executes m₀ done m →
      ¬m.flow.finished → Exec.onFlow FlowM.next m = .ok b m₁ →
      Exec.execute (.ofByte b) m₁ = .ok () m₂ → Executes m₀ (.ofByte b :: done) m₂

inductive Shows (m₀ : Machine) : List Instruction → Machine → Prop
  | between {m : Machine} {done : List Instruction} : Executes m₀ done m → Shows m₀ done m
  | unread {m m₁ : Machine} {e : Fault} {done : List Instruction} : Executes m₀ done m →
      ¬m.flow.finished → Exec.onFlow FlowM.next m = .error e m₁ → Shows m₀ done m₁
  | read {m m₁ : Machine} {b : UInt8} {done : List Instruction} : Executes m₀ done m →
      ¬m.flow.finished → Exec.onFlow FlowM.next m = .ok b m₁ → Shows m₀ done m₁
  | failed {m m₁ m₂ : Machine} {b : UInt8} {e : Fault} {done : List Instruction} :
      Executes m₀ done m → ¬m.flow.finished → Exec.onFlow FlowM.next m = .ok b m₁ →
      Exec.execute (.ofByte b) m₁ = .error e m₂ → Shows m₀ (.ofByte b :: done) m₂

/-- Whatever a run comes to, it shows. -/
theorem shows_runFrom (h : Executes m₀ done m) (fuel : Nat) :
    Ends Anything (fun m' => ∃ done', Shows m₀ done' m') (runFrom fuel m) := by
  induction fuel generalizing m done with
  | zero =>
    by_cases hf : m.flow.finished
    · rw [runFrom_finished 0 hf]
      exact ⟨done, .between h⟩
    · rw [runFrom_zero hf]
      exact ⟨trivial, done, .between h⟩
  | succ fuel ih =>
    by_cases hf : m.flow.finished
    · rw [runFrom_finished _ hf]
      exact ⟨done, .between h⟩
    cases hn : Exec.onFlow FlowM.next m with
    | error e m₁ =>
      rw [runFrom_error hf (step_unread hn)]
      exact ⟨trivial, done, .unread h hf hn⟩
    | ok b m₁ =>
      have hs := step_read hn
      cases hx : Exec.execute (.ofByte b) m₁ with
      | error e m₂ =>
        rw [locate_of_error _ b hx] at hs
        rw [runFrom_error hf hs]
        exact ⟨trivial, _, .failed h hf hn hx⟩
      | ok u m₂ =>
        rw [locate_of_ok _ b hx] at hs
        rw [runFrom_step hf hs]
        exact ih (.step h hf hn hx)

theorem shows_run (p : Program) (m : Machine) :
    Ends Anything (fun m' => ∃ done, Shows (m.restart p) done m') (run p m) :=
  shows_runFrom .start budget

/-- The machine after `n` more instructions, and what has been executed until then. -/
def trace : Nat → List Instruction → Machine → Option (List Instruction × Machine)
  | 0, done, m => some (done, m)
  | n + 1, done, m =>
    if m.flow.finished then none
    else
      match Exec.onFlow FlowM.next m with
      | .error _ _ => none
      | .ok b m₁ =>
        match Exec.execute (.ofByte b) m₁ with
        | .error _ _ => none
        | .ok () m₂ => trace n (.ofByte b :: done) m₂

theorem executes_trace {n : Nat} {done' : List Instruction} (h : Executes m₀ done m)
    (ht : trace n done m = some (done', m')) : Executes m₀ done' m' := by
  induction n generalizing m done with
  | zero =>
    cases ht
    exact h
  | succ n ih =>
    rw [trace] at ht
    split at ht
    · cases ht
    rename_i hf
    cases hn : Exec.onFlow FlowM.next m with
    | error e m₁ =>
      rw [hn] at ht
      cases ht
    | ok b m₁ =>
      rw [hn] at ht
      dsimp only at ht
      cases hx : Exec.execute (.ofByte b) m₁ with
      | error e m₂ =>
        rw [hx] at ht
        cases ht
      | ok u m₂ =>
        rw [hx] at ht
        exact ih (.step h hf hn hx) ht

end Machine

namespace Regime

variable {R : Regime} {m₀ m : Machine} {done : List Instruction} {P : Instruction → Prop}

theorem step {m₁ m₂ : Machine} {b : UInt8} (hU : R.Updates) (hE : R.Edits (.ofByte b))
    (h : R.Holds m) (hn : Exec.onFlow FlowM.next m = .ok b m₁)
    (hx : Exec.execute (.ofByte b) m₁ = .ok () m₂) : R.Holds m₂ := by
  have h₁ := (control.next.ok h hn).2
  exact ((execute hU hE (Instruction.roundsSimply_ofByte b)).ok h₁ hx).2

theorem executes (hU : R.Updates) (hE : ∀ i, P i → R.Edits i) (h₀ : R.Holds m₀)
    (hm : m₀.Executes done m) (hd : ∀ i ∈ done, P i) : R.Holds m := by
  induction hm with
  | start => exact h₀
  | step hp hf hn hx ih =>
    have h := ih fun i hi => hd i (List.mem_cons_of_mem _ hi)
    exact step hU (hE _ (hd _ (List.mem_cons_self ..))) h hn hx

/-- A regime that survives what the instructions with `P` do holds in all states of a run that has
executed no others. -/
theorem shows (hU : R.Updates) (hE : ∀ i, P i → R.Edits i) (h₀ : R.Holds m₀)
    (hm : m₀.Shows done m) (hd : ∀ i ∈ done, P i) : R.Holds m := by
  cases hm with
  | between hp => exact executes hU hE h₀ hp hd
  | unread hp hf hn => exact (control.next.error (executes hU hE h₀ hp hd) hn).2
  | read hp hf hn => exact (control.next.ok (executes hU hE h₀ hp hd) hn).2
  | @failed m m₁ m₂ b e done hp hf hn hx =>
    have h := executes hU hE h₀ hp fun i hi => hd i (List.mem_cons_of_mem _ hi)
    have hb := hE (.ofByte b) (hd _ (List.mem_cons_self ..))
    have h₁ := (control.next.ok h hn).2
    exact ((execute hU hb (Instruction.roundsSimply_ofByte b)).error h₁ hx).2

end Regime

end GridFit
