import GridFit.Proofs.Loops
import GridFit.Proofs.Safety

/-!
# The budget of a run

A run executes at most a million instructions. It is over when nothing is left to execute, when an
instruction fails, or when a million instructions have been executed and there is more to do
(`Machine.Over`). No instruction fails with the fault that stands for the budget, so a run that
reports it has come to the last of these ends, and one that is finished by its millionth instruction
has not. The loops inside of instructions end by themselves (`Machine.LoopsEnd`).
-/

namespace GridFit

namespace Machine

variable {m m' : Machine} {p : Program} {n limit : Nat} {r : EStateM.Result Failure Machine Unit}

/-- The outcomes of a run that has executed `n` instructions out of `limit` and come to `m`. -/
inductive Over (limit n : Nat) (m : Machine) : EStateM.Result Failure Machine Unit → Prop
  | finished : m.flow.finished → Over limit n m (.ok () m)
  | failed {f : Failure} {m' : Machine} : n < limit → ¬m.flow.finished → step m = .error f m' →
      Over limit n m (.error f m')
  | exceeded : n = limit → ¬m.flow.finished →
      Over limit n m (.error (m.failure m.flow.cursor.pc 0 .budgetExceeded) m)

theorem Over.succ (h : Over limit n m r) : Over (limit + 1) (n + 1) m r := by
  cases h with
  | finished hf => exact .finished hf
  | failed hn hf hs => exact .failed (Nat.succ_lt_succ hn) hf hs
  | exceeded hn hf => exact .exceeded (congrArg Nat.succ hn) hf

theorem runFrom_over (limit : Nat) (m : Machine) :
    ∃ n ≤ limit, ∃ m', steps n m = .ok () m' ∧ Over limit n m' (runFrom limit m) := by
  induction limit generalizing m with
  | zero =>
    by_cases hf : m.flow.finished
    · rw [runFrom_finished 0 hf]
      exact ⟨0, Nat.le_refl _, m, rfl, .finished hf⟩
    · rw [runFrom_zero hf]
      exact ⟨0, Nat.le_refl _, m, rfl, .exceeded rfl hf⟩
  | succ limit ih =>
    by_cases hf : m.flow.finished
    · rw [runFrom_finished _ hf]
      exact ⟨0, Nat.zero_le _, m, rfl, .finished hf⟩
    cases hs : step m with
    | error f m₁ =>
      rw [runFrom_error hf hs]
      exact ⟨0, Nat.zero_le _, m, rfl, .failed (Nat.succ_pos limit) hf hs⟩
    | ok u m₁ =>
      obtain ⟨n, hn, m₂, hm₂, ho⟩ := ih m₁
      rw [runFrom_step hf hs]
      refine ⟨n + 1, Nat.succ_le_succ hn, m₂, ?_, ho.succ⟩
      rw [steps, bind_of_ok hs, hm₂]

/-- Only a run as a whole can fail with the fault that stands for its budget. -/
theorem fault_of_step {k : ZonePointer → Nat} {f : Failure} (h : (soundRegime k p).Holds m)
    (hs : step m = .error f m') : f.fault ≠ .budgetExceeded := by
  have hU : (soundRegime k p).Updates := fun _ _ hg hu => hg.update hu
  have hE (i : Instruction) : (soundRegime k p).Edits i := fun _ _ _ _ _ _ => trivial
  have hforeign {e : Fault} (he : ¬e.Foreign) : e ≠ .budgetExceeded := by
    rintro rfl
    exact he .budget
  rcases step_error_cases hs with ⟨e, hn, rfl⟩ | ⟨b, m₁, e, hn, hx, rfl⟩
  · exact hforeign (Regime.control.next.error h hn).1
  · have h₁ := (Regime.control.next.ok h hn).2
    have hkeeps := Regime.execute hU (hE _) (Instruction.roundsSimply_ofByte b)
    exact hforeign (hkeeps.error h₁ hx).1

/-- The run of the program `p` on `m` ends within its budget. It exceeds the budget if and only if
the first million instructions succeed and there is more to execute. -/
structure RunEnds (p : Program) (m : Machine) : Prop where
  ends : ∃ n ≤ 1000000, ∃ m', steps n (m.restart p) = .ok () m' ∧ Over 1000000 n m' (run p m)
  exceeds : (∃ f m', run p m = .error f m' ∧ f.fault = .budgetExceeded) ↔
    ∃ m', steps 1000000 (m.restart p) = .ok () m' ∧ ¬m'.flow.finished
  last : ∀ m', steps 1000000 (m.restart p) = .ok () m' → m'.flow.finished → run p m = .ok () m'

theorem Ready.runEnds {k : ZonePointer → Nat} (h : Ready k m) (p : Program) : m.RunEnds p := by
  have hlast {m' : Machine} (hs : steps budget (m.restart p) = .ok () m') :
      run p m = runFrom 0 m' := runFrom_steps 0 hs
  have hends := runFrom_over budget (m.restart p)
  refine ⟨hends, ⟨?_, ?_⟩, fun m' hs hf => ?_⟩
  · rintro ⟨f, m₁, hr, hb⟩
    obtain ⟨n, hn, m', hs, ho⟩ := hends
    rw [show runFrom budget (m.restart p) = .error f m₁ from hr] at ho
    cases ho with
    | failed hlt hf hx =>
      have hm' := (ready_run k p).steady.reach ((ready_run k p).restart m h) (reach_of_steps hs)
      exact absurd hb (fault_of_step hm' hx)
    | exceeded hn hf =>
      rw [hn] at hs
      exact ⟨_, hs, hf⟩
  · rintro ⟨m', hs, hf⟩
    exact ⟨_, m', (hlast hs).trans (runFrom_zero hf), rfl⟩
  · exact (hlast hs).trans (runFrom_finished 0 hf)

end Machine

/-- Whatever the programs are, every run that is started while a font is configured or a glyph is
hinted ends within its budget. The loops inside of instructions end by themselves, in any state. -/
theorem Source.runs_end (src : Source) (scale ppem : Int32) (mode : Mode) (coords : Array Int16) :
    (∀ p m, src.Starts scale ppem mode coords p m → m.RunEnds p) ∧ ∀ m : Machine, m.LoopsEnd := by
  refine ⟨fun p m hm => ?_, Machine.loopsEnd⟩
  have hmachine := Machine.ready_machine src scale ppem mode coords
  cases hm with
  | font => exact hmachine.runEnds .font
  | @controlValue m hr =>
    have hinv := Machine.ready_invariant (Machine.configurationSize src)
    have hm := (hinv.font.runNonempty hmachine).ok hr
    exact (hinv.refresh m hm).runEnds .controlValue
  | glyph hf hs ho => exact (Source.ready_snapshot hs ho _ hf).runEnds .glyph

end GridFit
