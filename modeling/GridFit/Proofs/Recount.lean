import GridFit.Proofs.Congruence
import GridFit.Proofs.Linkage

/-!
# Rounds of a call

How many rounds a call has left is read only where a round of it ends. Two machines that differ in
nothing but this number (`Machine.Recounts`) therefore take the same steps until the round ends,
whatever the body does: bodies are arbitrary byte code with calls of their own
(`Machine.Round.recounts`).

To start a round over sets nothing but the position. The cursor is back in the program of the body
by then, since inner calls return to where they were made (`Flow.Nested`).
-/

namespace GridFit

/-- The call with `n` rounds left. -/
def Call.withCount (c : Call) (n : Int32) : Call := { c with count := n }

/-! ### A call with another count -/

/-- The flows differ only in the count of the call above `below`: it is `c` in `f` and has `n`
rounds left in `f'`. -/
structure Flow.Recounts (c : Call) (n : Int32) (below : List Call) (f f' : Flow) : Prop where
  programs : f.programs = f'.programs
  initial : f.initial = f'.initial
  cursor : f.cursor = f'.cursor
  calls : ∃ above, f.calls = above ++ c :: below ∧ f'.calls = above ++ c.withCount n :: below

namespace Flow.Recounts

variable {c : Call} {n : Int32} {below : List Call} {f f' : Flow}

theorem length_eq (h : f.Recounts c n below f') : f.calls.length = f'.calls.length := by
  obtain ⟨above, ha, ha'⟩ := h.calls
  rw [ha, ha']
  simp

theorem symm (h : f.Recounts c n below f') : f'.Recounts (c.withCount n) c.count below f := by
  obtain ⟨above, ha, ha'⟩ := h.calls
  exact ⟨h.programs.symm, h.initial.symm, h.cursor.symm, above, ha', ha⟩

theorem enter (d : Definition) (count : Int32) :
    Agrees (Recounts c n below) (FlowM.enter d count) := by
  intro f f' h
  unfold FlowM.enter
  rw [h.length_eq]
  split
  · obtain ⟨above, ha, ha'⟩ := h.calls
    refine ⟨rfl, h.programs, h.initial, ?_, ?_⟩
    · simp only [cursorAt, h.programs]
    · refine ⟨⟨f.cursor.program, f.cursor.pc, count, d⟩ :: above, ?_, ?_⟩
      · simp only [ha, List.cons_append]
      · simp only [ha', h.cursor, List.cons_append]
  · exact ⟨rfl, h⟩

theorem canJump (h : f.Recounts c n below f') : FlowM.canJump f = FlowM.canJump f' := by
  obtain ⟨above, ha, ha'⟩ := h.calls
  funext target
  unfold FlowM.canJump
  rw [ha, ha']
  cases above <;> rfl

theorem congruence (c : Call) (n : Int32) (below : List Call) :
    Flow.Congruence (Recounts c n below) where
  initial _ _ h := h.initial
  cursor _ _ h := h.cursor
  withCursor _ _ _ h := ⟨h.programs, h.initial, rfl, h.calls⟩
  canJump _ _ h := h.canJump
  enter := enter

/-- The end of an inner call does not see the count. -/
theorem leave {a : Call} {above : List Call} (h : f.Recounts c n below f')
    (hf : f.calls = a :: above ++ c :: below)
    (hf' : f'.calls = a :: above ++ c.withCount n :: below) :
    SameOutcome (Recounts c n below) (FlowM.leave f) (FlowM.leave f') := by
  unfold FlowM.leave
  rw [hf, hf']
  dsimp only [List.cons_append]
  split
  · refine ⟨rfl, h.programs, h.initial, ?_, ?_⟩
    · simp only [h.cursor]
    · exact ⟨{ a with count := a.count - 1 } :: above, rfl, rfl⟩
  · refine ⟨rfl, h.programs, h.initial, ?_, above, rfl, rfl⟩
    simp only [cursorAt, h.programs]

end Flow.Recounts

namespace Machine

/-- The machines differ only in the count of the call above `below`. -/
structure Recounts (c : Call) (n : Int32) (below : List Call) (m m' : Machine) : Prop where
  flow : m.flow.Recounts c n below m'.flow
  eq : m' = { m with flow := m'.flow }

namespace Recounts

variable {c : Call} {n : Int32} {below : List Call} {m m' : Machine}

theorem symm (h : m.Recounts c n below m') : m'.Recounts (c.withCount n) c.count below m := by
  refine ⟨h.flow.symm, ?_⟩
  rw [h.eq]

theorem plain {α : Type} {x : Exec α} (hx : Plain x) : Agrees (Recounts c n below) x := by
  intro m m' h
  have hw := hx.withControl m m'.flow m.functions m.instructions h.flow.initial.symm
  have he : m.withControl m'.flow m.functions m.instructions = m' := h.eq.symm
  rw [he] at hw
  have hrel {m₁ : Machine} (hc : m.SameControl m₁) :
      m₁.Recounts c n below (m₁.withControl m'.flow m.functions m.instructions) := by
    refine ⟨?_, ?_⟩
    · rw [hc.flow]
      exact h.flow
    · rw [← hc.functions, ← hc.instructions]
      rfl
  rcases hw.cases with ⟨a, m₁', m₁, hr', hr, rfl, -⟩ | ⟨e, m₁', m₁, hr', hr, rfl, -⟩
  · rw [hr, hr']
    exact ⟨rfl, hrel (hx.unchanged_ok hr)⟩
  · rw [hr, hr']
    exact ⟨rfl, hrel (hx.unchanged_error hr)⟩

theorem congruence (c : Call) (n : Int32) (below : List Call) :
    Congruence (Flow.Recounts c n below) (Recounts c n below) where
  flows := Flow.Recounts.congruence c n below
  plain := plain
  flow _ _ h := h.flow
  withFlow m m' f f' h hf := by
    refine ⟨hf, ?_⟩
    rw [h.eq]
  definitions m m' k h := by
    rw [h.eq]
    cases k <;> rfl
  store m m' k slot d h := by
    rw [h.eq]
    cases k <;> exact ⟨h.flow, rfl⟩
  axisCount m m' h := by
    rw [h.eq]

end Recounts

end Machine

/-! ### Inner calls return to where they were made -/

/-- Above depth `depth`, calls were made in the body of the next outer call, and the cursor reads
the program that holds the body of the innermost one. -/
structure Flow.Nested (P : Programs) (depth : Nat) (f : Flow) : Prop where
  programs : f.programs = P
  callers : ∀ above c rest, f.calls = above ++ c :: rest → depth < rest.length →
    c.caller = running c.caller rest
  program : depth < f.calls.length → f.cursor.program = running f.cursor.program f.calls
  code : depth < f.calls.length → f.cursor.code = P.get f.cursor.program

namespace Flow.Nested

variable {P : Programs} {depth : Nat} {f f' : Flow}

theorem enter (h : f.Nested P depth) (d : Definition) (count : Int32) : Nested P depth { f with
      calls := ⟨f.cursor.program, f.cursor.pc, count, d⟩ :: f.calls
      cursor := f.cursorAt d.program d.start } where
  programs := h.programs
  callers above c rest hc hd := by
    cases above with
    | nil =>
      simp only [List.nil_append, List.cons.injEq] at hc
      obtain ⟨rfl, rfl⟩ := hc
      exact h.program hd
    | cons a above =>
      simp only [List.cons_append, List.cons.injEq] at hc
      exact h.callers above c rest hc.2 hd
  program _ := rfl
  code _ := by
    show f.programs.get d.program = P.get d.program
    rw [h.programs]

theorem again {c : Call} {rest : List Call} (h : f.Nested P depth) (hf : f.calls = c :: rest) :
    Nested P depth { f with
      calls := { c with count := c.count - 1 } :: rest
      cursor := { f.cursor with pc := c.body.start } } where
  programs := h.programs
  callers above c' rest' hc hd := by
    cases above with
    | nil =>
      simp only [List.nil_append, List.cons.injEq] at hc
      obtain ⟨rfl, rfl⟩ := hc
      exact h.callers [] c rest hf hd
    | cons a above =>
      simp only [List.cons_append, List.cons.injEq] at hc
      exact h.callers (c :: above) c' rest' (by rw [hf, hc.2]; rfl) hd
  program hd := by
    have hp := h.program (by rw [hf]; exact hd)
    rw [hf] at hp
    exact hp
  code hd := h.code (by rw [hf]; exact hd)

theorem back {c : Call} {rest : List Call} (h : f.Nested P depth) (hf : f.calls = c :: rest) :
    Nested P depth { f with calls := rest, cursor := f.cursorAt c.caller c.returnPC } where
  programs := h.programs
  callers above c' rest' hc hd := by
    refine h.callers (c :: above) c' rest' ?_ hd
    rw [hf]
    exact congrArg (c :: ·) hc
  program hd := h.callers [] c rest hf hd
  code _ := by
    show f.programs.get c.caller = P.get c.caller
    rw [h.programs]

theorem survives (P : Programs) (depth : Nat) : Flow.Survives Anything (Nested P depth) := by
  intro f f' h ht
  cases ht with
  | @move c hc =>
    refine ⟨h.programs, h.callers, fun hd => ?_, fun hd => ?_⟩
    · show c.program = running c.program f.calls
      rw [hc.program]
      exact h.program hd
    · show c.code = P.get c.program
      rw [hc.program, hc.code]
      exact h.code hd
  | enter _ _ _ => exact h.enter _ _
  | again hf _ => exact h.again hf
  | back hf _ => exact h.back hf
  | jump _ => exact ⟨h.programs, h.callers, h.program, h.code⟩

end Flow.Nested

namespace Machine

theorem control_nested (P : Programs) (depth : Nat) :
    Control Anything (Flow.Nested P depth) fun m => m.flow.Nested P depth where
  survives := Flow.Nested.survives P depth
  flow _ h := h
  withFlow _ _ _ hf := hf
  withStack _ _ h := h
  definitions _ _ _ _ _ := trivial
  store m k key slot d f h _ hd := by
    have hf := ((FlowM.keeps_define (Flow.Nested.survives P depth) key).ok h hd).2
    cases k <;> exact hf

theorem steady_nested (P : Programs) (depth : Nat) :
    Steady Anything fun m => m.flow.Nested P depth := by
  refine ⟨fun m h => ((control_nested P depth).next.ends h).anything, fun b m h => ?_⟩
  by_cases hi : (Instruction.ofByte b).isPlain
  · refine (Plain.execute hi).ends fun m' hc => ?_
    rw [hc.flow]
    exact h
  · exact (((control_nested P depth).execute hi).ends h).anything

theorem nested_step {P : Programs} {depth : Nat} {m m₁ : Machine} (h : m.flow.Nested P depth)
    (hs : step m = .ok () m₁) : m₁.flow.Nested P depth :=
  ((steady_nested P depth).step h).ok hs

/-! ### Rounds -/

/-- The next instruction ends a round of the call that is made at depth `depth`. -/
def EndsRound (depth : Nat) (m : Machine) : Prop :=
  m.flow.calls.length = depth + 1 ∧ m.flow.cursor.code[m.flow.cursor.pc]? = some 0x2d

instance (depth : Nat) (m : Machine) : Decidable (m.EndsRound depth) :=
  inferInstanceAs (Decidable (_ ∧ _))

/-- The machine inside of the call `c` that was made with `below` in progress. -/
def Inside (c : Call) (below : List Call) (m : Machine) : Prop :=
  ∃ above, m.flow.calls = above ++ c :: below

/-- The innermost call starts over. -/
def restarted (m : Machine) (c : Call) (below : List Call) : Machine :=
  { m with flow := { m.flow with
      calls := c.withCount (c.count - 1) :: below
      cursor := { m.flow.cursor with pc := c.body.start } } }

/-- The innermost call returns. -/
def returned (m : Machine) (c : Call) (below : List Call) : Machine :=
  { m with flow := { m.flow with calls := below, cursor := m.flow.cursorAt c.caller c.returnPC } }

section

variable {c : Call} {n : Int32} {below : List Call} {m m' m₁ : Machine} {depth : Nat}

theorem next_of_getElem? {b : UInt8} (h : m.flow.cursor.code[m.flow.cursor.pc]? = some b) :
    Exec.onFlow FlowM.next m = .ok b
      { m with flow := { m.flow with
          cursor := { m.flow.cursor with pc := m.flow.cursor.pc + 1 } } } := by
  obtain ⟨hpc, hb⟩ := Array.getElem?_eq_some_iff.1 h
  rw [Exec.onFlow, FlowM.next, FlowM.onCursor, CursorM.next, dif_pos hpc, hb]

theorem step_endsRound (h : m.EndsRound depth) (hc : m.flow.calls = c :: below) :
    step m = .ok () (if 1 < c.count then m.restarted c below else m.returned c below) := by
  have hx : Instruction.ofByte 0x2d = .endf := Instruction.ofByte_eq rfl
  rw [step_read (next_of_getElem? h.2)]
  refine locate_of_ok _ _ ?_
  rw [hx, Exec.execute, Exec.endDefinition, Exec.onFlow, FlowM.leave]
  dsimp only
  rw [hc]
  dsimp only
  by_cases hn : 1 < c.count
  · rw [if_pos hn, if_pos hn]
    rfl
  · rw [if_neg hn, if_neg hn]
    rfl

theorem Inside.recounts (h : m.Inside c below) : m.Recounts c c.count below m := by
  obtain ⟨above, ha⟩ := h
  exact ⟨⟨rfl, rfl, rfl, above, ha, ha⟩, rfl⟩

theorem Inside.length_ne (h : m.Inside c below) : m.flow.calls.length ≠ below.length := by
  obtain ⟨above, ha⟩ := h
  rw [ha, List.length_append, List.length_cons]
  omega

theorem Inside.calls_of_endsRound (h : m.Inside c below) (he : m.EndsRound below.length) :
    m.flow.calls = c :: below := by
  obtain ⟨above, ha⟩ := h
  have hl := he.1
  rw [ha, List.length_append, List.length_cons] at hl
  have hnil : above = [] := List.eq_nil_of_length_eq_zero (by omega)
  rw [ha, hnil, List.nil_append]

theorem Recounts.inside (h : m.Recounts c n below m') : m.Inside c below := by
  obtain ⟨above, ha, -⟩ := h.flow.calls
  exact ⟨above, ha⟩

theorem Recounts.endsRound (h : m.Recounts c n below m') (he : m.EndsRound depth) :
    m'.EndsRound depth := by
  unfold EndsRound at he ⊢
  rwa [← h.flow.length_eq, ← h.flow.cursor]

/-- Until the round ends, the count makes no difference. -/
theorem Recounts.step (h : m.Recounts c n below m') (he : ¬m.EndsRound below.length) :
    SameOutcome (Recounts c n below) (Machine.step m) (Machine.step m') := by
  refine (congruence c n below).step h fun b m₁ m₁' hn h₁ => ?_
  by_cases hi : Instruction.ofByte b = .endf
  · obtain ⟨above, ha, ha'⟩ := h₁.flow.calls
    cases above with
    | nil =>
      -- the end of a definition with no inner call in progress would end the round
      obtain ⟨hc, hf⟩ := FlowM.onCursor_ok (onFlow_ok hn).1
      obtain ⟨hb, -⟩ := CursorM.next_ok hc
      have hcalls : m₁.flow.calls = m.flow.calls := by
        rw [hf]
      refine absurd ⟨?_, ?_⟩ he
      · rw [← hcalls, ha]
        rfl
      · rw [hb, Instruction.eq_of_ofByte_endf hi]
    | cons a above =>
      rw [hi, Exec.execute, Exec.endDefinition, Exec.onFlow, Exec.onFlow]
      rcases (h₁.flow.leave ha ha').cases with ⟨u, f, f', hr, hr', hf⟩ | ⟨e, f, f', hr, hr', hf⟩
      · rw [hr, hr']
        exact ⟨rfl, (congruence c n below).withFlow m₁ m₁' f f' h₁ hf⟩
      · rw [hr, hr']
        exact ⟨rfl, (congruence c n below).withFlow m₁ m₁' f f' h₁ hf⟩
  · exact (congruence c n below).execute (fun h => absurd h hi) m₁ m₁' h₁

theorem Inside.step (h : m.Inside c below) (he : ¬m.EndsRound below.length)
    (hs : Machine.step m = .ok () m₁) : m₁.Inside c below := by
  have hr := h.recounts.step he
  rw [hs] at hr
  exact hr.2.inside

/-- The machine executes instructions until the round ends, and comes to its last one, or one of
them fails. -/
inductive Round (depth : Nat) : Machine → Except Failure Machine → Prop
  | ends {m : Machine} : m.EndsRound depth → Round depth m (.ok m)
  | fail {m m' : Machine} {f : Failure} : ¬m.EndsRound depth → Machine.step m = .error f m' →
      Round depth m (.error f)
  | step {m m₁ : Machine} {r : Except Failure Machine} : ¬m.EndsRound depth →
      Machine.step m = .ok () m₁ → Round depth m₁ r → Round depth m r

theorem Round.inside {e : Machine} {r : Except Failure Machine} (h : Round below.length m r)
    (hr : r = .ok e) (hm : m.Inside c below) : e.Inside c below ∧ e.EndsRound below.length := by
  induction h with
  | ends he =>
    cases hr
    exact ⟨hm, he⟩
  | fail he hs => cases hr
  | step he hs _ ih => exact ih hr (hm.step he hs)

theorem Round.nested {P : Programs} {e : Machine} {r : Except Failure Machine} (h : Round depth m r)
    (hr : r = .ok e) (hm : m.flow.Nested P depth) : e.flow.Nested P depth := by
  induction h with
  | ends he =>
    cases hr
    exact hm
  | fail he hs => cases hr
  | step he hs _ ih => exact ih hr (nested_step hm hs)

/-- Rounds with different counts come to the same. -/
theorem Round.recounts {r : Except Failure Machine} (h : Round below.length m r)
    (hm : m.Recounts c n below m') :
    (∃ f, r = .error f ∧ Round below.length m' (.error f)) ∨
      ∃ e e', r = .ok e ∧ Round below.length m' (.ok e') ∧ e.Recounts c n below e' := by
  induction h generalizing m' with
  | @ends m he => exact .inr ⟨m, m', rfl, .ends (hm.endsRound he), hm⟩
  | @fail m m₁ f he hs =>
    have hst := hm.step he
    have he' : ¬m'.EndsRound below.length := fun h => he (hm.symm.endsRound h)
    rw [hs] at hst
    rcases hst.cases with ⟨_, _, _, hx, -⟩ | ⟨_, _, m₁', hx, hx', -⟩
    · cases hx
    · cases hx
      exact .inl ⟨f, rfl, .fail he' hx'⟩
  | @step m m₁ r he hs _ ih =>
    have hst := hm.step he
    have he' : ¬m'.EndsRound below.length := fun h => he (hm.symm.endsRound h)
    rw [hs] at hst
    rcases hst.cases with ⟨_, _, m₁', hx, hx', h₁⟩ | ⟨_, _, _, hx, -⟩
    · cases hx
      rcases ih h₁ with ⟨f, hr, hround⟩ | ⟨e, e', hr, hround, hrec⟩
      · exact .inl ⟨f, hr, .step he' hx' hround⟩
      · exact .inr ⟨e, e', hr, .step he' hx' hround, hrec⟩
    · cases hx

end

end Machine

end GridFit
