import GridFit.Proofs.Continuation

/-!
# Calls and the bodies that they execute

A call starts at the first instruction of its body, and the body was recorded by reading from there
to the first end marker. So from the start of a body, and from every place that execution comes to
one instruction at a time, reading on leads to this marker (`Definition.EndsFrom`). To execute the
marker is to end the round.

Two kinds of instructions go elsewhere. A jump has to stay between the ends of the body, but may go
to a place from which the marker is missed. A test that looks for its other branch does not ask where
the body ends. A step that goes astray in one of these ways (`Flow.Strays`) is the only way to leave a
body other than by its marker, and concerns no call but the one that makes it
(`Source.calls_contained`).
-/

namespace GridFit

/-! ### Reading to the end of a body -/

namespace Definition

variable {P : Programs} {d : Definition} {n n' : Nat} {b : UInt8}

/-- The position `n` of the program that the definition lies in. -/
def cursorAt (P : Programs) (d : Definition) (n : Nat) : Cursor :=
  { program := d.program, code := P.get d.program, pc := n }

/-- Reading on from `n` leads to the marker at the end of the body, past no other delimiter. -/
inductive EndsFrom (P : Programs) (d : Definition) : Nat → Prop
  | marker {n : Nat} {b : UInt8} : CursorM.skip (d.cursorAt P n) = .ok b (d.cursorAt P d.stop) →
      Instruction.ofByte b = .endf → EndsFrom P d n
  | next {n n' : Nat} {b : UInt8} : CursorM.skip (d.cursorAt P n) = .ok b (d.cursorAt P n') →
      ¬(Instruction.ofByte b).delimits → EndsFrom P d n' → EndsFrom P d n

theorem EndsFrom.lt (h : d.EndsFrom P n) : n < d.stop := by
  induction h with
  | marker hs => exact (CursorM.skip_ok hs).2.2.1
  | next hs _ _ ih => exact Nat.lt_trans (CursorM.skip_ok hs).2.2.1 ih

/-- One instruction further on is either the end of the body, behind its marker, or a place from
which the body still ends. -/
theorem EndsFrom.skip (h : d.EndsFrom P n)
    (hs : CursorM.skip (d.cursorAt P n) = .ok b (d.cursorAt P n')) :
    Instruction.ofByte b = .endf ∧ n' = d.stop ∨
      ¬(Instruction.ofByte b).delimits ∧ d.EndsFrom P n' := by
  cases h with
  | marker hs' he =>
    rw [hs] at hs'
    cases hs'
    exact .inl ⟨he, rfl⟩
  | next hs' hd h =>
    rw [hs] at hs'
    cases hs'
    exact .inr ⟨hd, h⟩

theorem EndsFrom.congr {P' : Programs} (hp : P'.get d.program = P.get d.program)
    (h : d.EndsFrom P n) : d.EndsFrom P' n := by
  have hc (n : Nat) : d.cursorAt P' n = d.cursorAt P n := by rw [cursorAt, cursorAt, hp]
  induction h with
  | marker hs he => exact .marker (by rw [hc, hc]; exact hs) he
  | next hs hd _ ih => exact .next (by rw [hc, hc]; exact hs) hd ih

end Definition

namespace FlowM

variable {P : Programs} {d : Definition} {f f' : Flow}

theorem cursorAt_skip {b : UInt8} (hf : f.cursor = d.cursorAt P f.cursor.pc)
    (h : skip f = .ok b f') :
    CursorM.skip (d.cursorAt P f.cursor.pc) = .ok b (d.cursorAt P f'.cursor.pc) ∧
      f'.cursor = d.cursorAt P f'.cursor.pc := by
  obtain ⟨c, hs, rfl⟩ := skip_ok h
  obtain ⟨-, hm, -⟩ := CursorM.skip_ok hs
  have hc : c = d.cursorAt P c.pc := by
    have hp := hm.program
    have hcode := hm.code
    rw [hf] at hp hcode
    show Cursor.mk c.program c.code c.pc = _
    rw [hp, hcode]
    rfl
  refine ⟨?_, hc⟩
  rw [← hf, hs, ← hc]

/-- Where the search for the end of a definition ends, its body ends. -/
theorem endsFrom_of_skipDefinition {fuel : Nat} (hf : f.cursor = d.cursorAt P f.cursor.pc)
    (h : skipDefinition fuel f = .ok () f') (hstop : f'.cursor.pc = d.stop) :
    d.EndsFrom P f.cursor.pc := by
  induction fuel generalizing f with
  | zero => cases h
  | succ fuel ih =>
    rw [skipDefinition] at h
    obtain ⟨b, f₁, hs, h⟩ := exists_of_bind_ok h
    obtain ⟨hskip, hf₁⟩ := cursorAt_skip hf hs
    have hnext (hd : ¬(Instruction.ofByte b).delimits) (h : skipDefinition fuel f₁ = .ok () f') :
        d.EndsFrom P f.cursor.pc := .next hskip hd (ih hf₁ h)
    generalize hi : Instruction.ofByte b = i at h hnext
    cases i
    case fdef => cases h
    case idef => cases h
    case endf =>
      cases h
      rw [hstop] at hskip
      exact .marker hskip hi
    all_goals exact hnext Bool.false_ne_true h

theorem endsFrom_of_define {key : Int32} (hcode : f.cursor.code = P.get f.cursor.program)
    (h : define key f = .ok d f') : d.EndsFrom P d.start := by
  obtain ⟨hs, -, hd⟩ := define_inv h
  obtain ⟨c, rfl, hm, -, -⟩ := skipDefinition_ok hs
  have hf : f.cursor = d.cursorAt P f.cursor.pc := by
    show Cursor.mk f.cursor.program f.cursor.code f.cursor.pc = _
    rw [hcode, hd, Definition.cursorAt, ← hm.program]
  have he := endsFrom_of_skipDefinition hf hs (by rw [hd])
  rw [hd]
  rwa [hd] at he

/-- What one instruction after another keeps, the search for the end of a branch keeps. -/
theorem skipBranchFrom_induct {q : Flow → Prop} {stopAtElse : Bool}
    (hq : ∀ f b f', q f → skip f = .ok b f' → q f') {fuel : Nat} {depth : Nat} (hf : q f)
    (h : skipBranchFrom stopAtElse depth fuel f = .ok () f') : q f' := by
  induction fuel generalizing f depth with
  | zero => cases h
  | succ fuel ih =>
    rw [skipBranchFrom] at h
    obtain ⟨b, f₁, hs, h⟩ := exists_of_bind_ok h
    have hf₁ := hq f b f₁ hf hs
    cases hd : depthAfter? stopAtElse depth (.ofByte b) with
    | none =>
      rw [hd] at h
      cases h
      exact hf₁
    | some depth' =>
      rw [hd] at h
      exact ih hf₁ h

theorem skipBranch_calls {stopAtElse : Bool} (h : skipBranch stopAtElse f = .ok () f') :
    f'.calls = f.calls := by
  have hstep (f₁ : Flow) (b : UInt8) (f₂ : Flow) (h₁ : f₁.calls = f.calls)
      (hs : skip f₁ = .ok b f₂) : f₂.calls = f.calls := by
    obtain ⟨c, -, rfl⟩ := skip_ok hs
    exact h₁
  exact skipBranchFrom_induct hstep rfl h

/-- The search for the end of a branch stays where the body ends, or passes its end. -/
theorem endsFrom_or_of_skipBranch {stopAtElse : Bool} (hf : f.cursor = d.cursorAt P f.cursor.pc)
    (he : d.EndsFrom P f.cursor.pc) (h : skipBranch stopAtElse f = .ok () f') :
    d.EndsFrom P f'.cursor.pc ∨ d.stop ≤ f'.cursor.pc := by
  have hstep (f₁ : Flow) (b : UInt8) (f₂ : Flow)
      (h₁ : f₁.cursor = d.cursorAt P f₁.cursor.pc ∧
        (d.EndsFrom P f₁.cursor.pc ∨ d.stop ≤ f₁.cursor.pc)) (hs : skip f₁ = .ok b f₂) :
      f₂.cursor = d.cursorAt P f₂.cursor.pc ∧
        (d.EndsFrom P f₂.cursor.pc ∨ d.stop ≤ f₂.cursor.pc) := by
    obtain ⟨hc, hcase⟩ := h₁
    obtain ⟨hskip, hc₂⟩ := cursorAt_skip hc hs
    refine ⟨hc₂, ?_⟩
    rcases hcase with he | hle
    · rcases he.skip hskip with ⟨-, hstop⟩ | ⟨-, he⟩
      · exact .inr (Nat.le_of_eq hstop.symm)
      · exact .inl he
    · have hlt := (CursorM.skip_ok hskip).2.2.1
      exact .inr (Nat.le_trans hle (Nat.le_of_lt hlt))
  exact (skipBranchFrom_induct hstep ⟨hf, .inl he⟩ h).2

end FlowM

/-! ### Calls in progress -/

/-- A definition as it is recorded: valid, and read from its start to its end. -/
def Definition.Recorded (P : Programs) (d : Definition) : Prop := d.Valid P ∧ d.EndsFrom P d.start

namespace Flow

/-- The calls are at places with `q`: the innermost one at `pc`, and the others where they are
returned to. -/
def Along (q : Call → List Call → Nat → Prop) : Nat → List Call → Prop
  | _, [] => True
  | pc, c :: rest => q c rest pc ∧ Along q c.returnPC rest

/-- The calls execute definitions that were recorded, and have not come to stand before them. -/
structure Anchored (P : Programs) (p : Program) (f : Flow) : Prop where
  linked : f.Linked P p
  bodies : ∀ c ∈ f.calls, c.body.EndsFrom P c.body.start
  above : Along (fun c _ n => c.body.start ≤ n) f.cursor.pc f.calls

variable {P : Programs} {p : Program} {f f' : Flow}

theorem Anchored.start (P : Programs) (p : Program) : (Flow.start P p).Anchored P p :=
  ⟨.start P p, nofun, trivial⟩

theorem Transfer.mono {q r : Definition → Prop} (hq : ∀ d, q d → r d) (h : Transfer q f f') :
    Transfer r f f' := by
  cases h with
  | move hc => exact .move hc
  | enter hd hc hl => exact .enter (hq _ hd) hc hl
  | again hf hc => exact .again hf hc
  | back hf hc => exact .back hf hc
  | jump ht => exact .jump ht

theorem Anchored.transfer (h : f.Anchored P p) (ht : Transfer (Definition.Recorded P) f f') :
    f'.Anchored P p := by
  have hlinked := h.linked.transfer (ht.mono fun d hd => hd.1)
  have hbodies := h.bodies
  have habove := h.above
  cases ht with
  | @move c hc =>
    refine ⟨hlinked, hbodies, ?_⟩
    show Along _ c.pc f.calls
    cases hf : f.calls with
    | nil => trivial
    | cons c' rest =>
      rw [hf] at habove
      exact ⟨Nat.le_trans habove.1 hc.le, habove.2⟩
  | enter hd hc hl =>
    refine ⟨hlinked, ?_, Nat.le_refl _, habove⟩
    intro c' hc'
    rcases List.mem_cons.1 hc' with rfl | hc'
    · exact hd.2
    · exact hbodies c' hc'
  | @again c rest hf hc =>
    rw [hf] at hbodies habove
    refine ⟨hlinked, ?_, Nat.le_refl _, habove.2⟩
    intro c' hc'
    rcases List.mem_cons.1 hc' with rfl | hc'
    · exact hbodies c (List.mem_cons_self ..)
    · exact hbodies c' (List.mem_cons_of_mem _ hc')
  | @back c rest hf hc =>
    rw [hf] at hbodies habove
    exact ⟨hlinked, fun c' hc' => hbodies c' (List.mem_cons_of_mem _ hc'), habove.2⟩
  | @jump target ht =>
    refine ⟨hlinked, hbodies, ?_⟩
    show Along _ target.toNat f.calls
    unfold FlowM.canJump at ht
    cases hf : f.calls with
    | nil => trivial
    | cons c rest =>
      rw [hf] at ht habove
      obtain ⟨hle, -⟩ := of_decide_eq_true ht
      exact ⟨by omega, habove.2⟩

/-- The cursor is in the body of the innermost call. -/
theorem Anchored.cursor_eq {c : Call} {rest : List Call} (h : f.Anchored P p)
    (hf : f.calls = c :: rest) : f.cursor = c.body.cursorAt P f.cursor.pc := by
  have hp := h.linked.program
  have hcode := h.linked.code
  rw [hf, running] at hp
  show Cursor.mk f.cursor.program f.cursor.code f.cursor.pc = _
  rw [hcode, hp]
  rfl

/-- The step goes astray: with a call in progress, the search for another branch passes the end of
its body, or a jump goes to a place from which the end of the body is not found. -/
inductive Strays (f f' : Flow) : Prop
  | branch {c : Call} {rest : List Call} {b : UInt8} : f.calls = c :: rest →
      f.cursor.code[f.cursor.pc]? = some b → (Instruction.ofByte b).isBranch →
      c.body.stop ≤ f'.cursor.pc → Strays f f'
  | jump {c : Call} {rest : List Call} {b : UInt8} : f.calls = c :: rest →
      f.cursor.code[f.cursor.pc]? = some b → (Instruction.ofByte b).isJump →
      ¬c.body.EndsFrom f.programs f'.cursor.pc → Strays f f'

/-- The body of the call ends from `n`, unless the call is astray. -/
def OnTrack (P : Programs) (astray : List Call → Prop) (c : Call) (rest : List Call) (n : Nat) :
    Prop :=
  c.body.EndsFrom P n ∨ astray (c :: rest)

theorem along_mono {astray astray' : List Call → Prop} {pc : Nat} {calls : List Call}
    (h : Along (OnTrack P astray) pc calls) (hi : ∀ l, l <:+ calls → astray l → astray' l) :
    Along (OnTrack P astray') pc calls := by
  induction calls generalizing pc with
  | nil => trivial
  | cons c rest ih =>
    refine ⟨h.1.imp_right (hi _ List.suffix_rfl), ih h.2 fun l hl => hi l ?_⟩
    exact hl.trans (List.suffix_cons c rest)

section Step

variable {valid : Definition → Prop} {b : UInt8} {f₁ : Flow} {astray astray' : List Call → Prop}

/-- With no call in progress there is nothing to go astray from. -/
theorem along_of_nil {i : Instruction} (hv : ∀ d, valid d → d.EndsFrom P d.start)
    (hf : f.calls = []) (hc : f.Continues valid i f') :
    Along (OnTrack P astray') f'.cursor.pc f'.calls := by
  have hsame (h : f'.calls = f.calls) : Along (OnTrack P astray') f'.cursor.pc f'.calls := by
    rw [h, hf]
    trivial
  cases hc with
  | past => exact hsame rfl
  | branch stopAtElse _ hb => exact hsame (FlowM.skipBranch_calls hb)
  | jump offset _ hj =>
    obtain ⟨target, rfl⟩ := FlowM.jump_inv hj
    exact hsame rfl
  | enter count _ hd he =>
    obtain rfl := FlowM.enter_inv he
    refine ⟨.inl (hv _ hd), ?_⟩
    rw [hf]
    trivial
  | leave _ hl =>
    rw [FlowM.leave, hf] at hl
    cases hl
  | define key _ _ hd =>
    obtain ⟨c, rfl, -⟩ := FlowM.define_ok hd
    exact hsame rfl

/-- Behind any instruction but the marker of its body, a call is as much on track as before. -/
theorem Anchored.behind {c : Call} {rest : List Call} (h : f.Anchored P p)
    (hf : f.calls = c :: rest) (hc : OnTrack P astray c rest f.cursor.pc)
    (hs : FlowM.skip f = .ok b f₁) (hne : Instruction.ofByte b ≠ .endf) :
    ¬(Instruction.ofByte b).delimits ∧ c.body.EndsFrom P f₁.cursor.pc ∨ astray (c :: rest) := by
  refine hc.imp_left fun he => ?_
  rcases he.skip (FlowM.cursorAt_skip (h.cursor_eq hf) hs).1 with ⟨hend, -⟩ | hnext
  · exact absurd hend hne
  · exact hnext

/-- A step keeps calls on track, unless it goes astray. -/
theorem Anchored.along_step (h : f.Anchored P p) (hv : ∀ d, valid d → d.EndsFrom P d.start)
    (hk : Along (OnTrack P astray) f.cursor.pc f.calls) (hs : FlowM.skip f = .ok b f₁)
    (hc : f₁.Continues valid (.ofByte b) f') (hlater : ∀ l, l <:+ f'.calls → astray l → astray' l)
    (hstray : f'.calls = f.calls → f.Strays f' → astray' f'.calls) :
    Along (OnTrack P astray') f'.cursor.pc f'.calls := by
  obtain ⟨c₁, hskip, hf₁⟩ := FlowM.skip_ok hs
  have hcalls₁ : f₁.calls = f.calls := by rw [hf₁]
  cases hcalls : f.calls with
  | nil => exact along_of_nil hv (hcalls₁.trans hcalls) hc
  | cons call rest =>
    have hb := (CursorM.skip_ok hskip).1
    rw [hcalls] at hk hcalls₁ hstray
    obtain ⟨hcall, htail⟩ := hk
    have hbehind := h.behind hcalls hcall hs
    have htail' (hrest : rest <:+ f'.calls) : Along (OnTrack P astray') call.returnPC rest :=
      along_mono htail fun l hl => hlater l (hl.trans hrest)
    have hkept {n : Nat} (hf' : call :: rest <:+ f'.calls)
        (hn : call.body.EndsFrom P n ∨ astray (call :: rest)) :
        Along (OnTrack P astray') n (call :: rest) :=
      ⟨hn.imp_right (hlater _ hf'), htail' ((List.suffix_cons call rest).trans hf')⟩
    have hstrayed {n : Nat} (hf' : f'.calls = call :: rest) (hst : f.Strays f') :
        Along (OnTrack P astray') n (call :: rest) := by
      rw [hf'] at hstray htail'
      exact ⟨.inr (hstray rfl hst), htail' (List.suffix_cons call rest)⟩
    cases hc with
    | past hne =>
      rw [hcalls₁] at hkept ⊢
      exact hkept List.suffix_rfl ((hbehind hne).imp_left And.right)
    | branch stopAtElse hi hbr =>
      have hf' := (FlowM.skipBranch_calls hbr).trans hcalls₁
      have hne : Instruction.ofByte b ≠ .endf := by
        intro he
        rw [he] at hi
        cases hi
      have hsuffix : call :: rest <:+ f'.calls := hf'.symm ▸ List.suffix_rfl
      rw [hf']
      rcases hbehind hne with ⟨-, he⟩ | ha
      · have hcur := (FlowM.cursorAt_skip (h.cursor_eq hcalls) hs).2
        rcases FlowM.endsFrom_or_of_skipBranch hcur he hbr with he | hle
        · exact hkept hsuffix (.inl he)
        · exact hstrayed hf' (.branch hcalls hb hi hle)
      · exact hkept hsuffix (.inr ha)
    | jump offset hi hj =>
      obtain ⟨target, rfl⟩ := FlowM.jump_inv hj
      show Along _ target f₁.calls
      by_cases he : call.body.EndsFrom P target
      · rw [hcalls₁] at hkept ⊢
        exact hkept List.suffix_rfl (.inl he)
      · have hst : f.Strays { f₁ with cursor := { f₁.cursor with pc := target } } := by
          refine .jump hcalls hb hi ?_
          rw [h.linked.programs]
          exact he
        rw [hcalls₁]
        exact hstrayed hcalls₁ hst
    | enter count hne hd henter =>
      obtain rfl := FlowM.enter_inv henter
      refine ⟨.inl (hv _ hd), ?_⟩
      show Along _ f₁.cursor.pc f₁.calls
      rw [hcalls₁] at hkept ⊢
      exact hkept (List.suffix_cons ..) ((hbehind hne).imp_left And.right)
    | leave hi hl =>
      have hstart := h.bodies call (by rw [hcalls]; exact List.mem_cons_self ..)
      rcases FlowM.leave_inv hcalls₁ hl with rfl | rfl
      · exact ⟨.inl hstart, htail' (List.suffix_cons ..)⟩
      · exact htail' List.suffix_rfl
    | define key hi hne hd =>
      obtain ⟨c, rfl, -⟩ := FlowM.define_ok hd
      rcases hbehind hne with ⟨hdelim, -⟩ | ha
      · exact absurd hi hdelim
      · show Along _ c.pc f₁.calls
        rw [hcalls₁] at hkept ⊢
        exact hkept List.suffix_rfl (.inr ha)

end Step

end Flow

namespace Machine

variable {P : Programs} {p : Program} {m₀ m m' : Machine}

/-- The definitions were recorded from the programs of `P`. -/
structure Recorded (P : Programs) (m : Machine) : Prop extends m.Prepared P where
  endsFrom : ∀ k d, some d ∈ (m.definitions k).slots → d.EndsFrom P d.start

structure Anchored (P : Programs) (p : Program) (m : Machine) : Prop where
  linked : m.Linked P p
  flow : m.flow.Anchored P p
  endsFrom : ∀ k d, some d ∈ (m.definitions k).slots → d.EndsFrom P d.start

namespace Anchored

theorem store {k : DefinitionKind} {key : Int32} {slot : Nat} {d : Definition} {f : Flow}
    (h : m.Anchored P p) (hs : (m.definitions k).slotFor key = .ok slot)
    (hd : FlowM.define key m.flow = .ok d f) :
    Anchored P p (Machine.store { m with flow := f } k slot d) := by
  have hends := FlowM.endsFrom_of_define h.flow.linked.code hd
  obtain ⟨c, rfl, hm, -⟩ := FlowM.define_ok hd
  refine ⟨h.linked.store hs hd, ?_, fun k' d' hd' => ?_⟩
  · have hf := h.flow.transfer (.move hm)
    cases k <;> exact hf
  · rcases mem_definitions_store hd' with hd' | rfl
    · exact h.endsFrom k' d' hd'
    · exact hends

theorem control (P : Programs) (p : Program) :
    Control (Definition.Recorded P) (Flow.Anchored P p) (Anchored P p) where
  survives _ _ h ht := h.transfer ht
  flow _ h := h.flow
  withFlow m f h hf := ⟨(Linked.control P p).withFlow m f h.linked hf.linked, hf, h.endsFrom⟩
  withStack m s h := ⟨(Linked.control P p).withStack m s h.linked, h.flow, h.endsFrom⟩
  definitions _ k d h hd := ⟨h.linked.definitions k d hd, h.endsFrom k d hd⟩
  store _ _ _ _ _ _ h hs hd := h.store hs hd

theorem of_sameControl (h : m.Anchored P p) (hc : m.SameControl m') : m'.Anchored P p := by
  refine ⟨h.linked.of_sameControl hc, ?_, fun k d hd => ?_⟩
  · rw [hc.flow]
    exact h.flow
  · obtain ⟨k', hk'⟩ := hc.defines ⟨k, hd⟩
    exact h.endsFrom k' d hk'

theorem steady (P : Programs) (p : Program) : Steady Anything (Anchored P p) :=
  (control P p).steady fun _ _ h hc => h.of_sameControl hc

theorem restart (h : m.Recorded P) (hp : p = .glyph → ∀ k, (m.definitions k).writable = false) :
    (m.restart p).Anchored P p where
  linked := .restart h.toPrepared hp
  flow := by
    show (Flow.start m.flow.programs p).Anchored P p
    rw [h.programs]
    exact .start P p
  endsFrom := h.endsFrom

theorem run (P : Programs) (hp : p ≠ .glyph) :
    RunInvariant Anything p (Recorded P) (Anchored P p) where
  steady := steady P p
  budget := trivial
  restart _ h := .restart h fun hg => absurd hg hp
  stop _ h := ⟨⟨h.linked.flow.programs, h.linked.definitions⟩, h.endsFrom⟩

theorem invariant (P : Programs) : Invariant Anything (Recorded P) (Anchored P) where
  font := run P nofun
  controlValue := run P nofun
  refresh _ h := ⟨⟨h.programs, h.definitions⟩, h.endsFrom⟩

end Anchored

theorem exists_reach (m₀ : Machine) (n : Nat) (q : Machine → Bool) (h : (match steps n m₀ with
    | .ok () m => q m
    | .error _ _ => false) = true) : ∃ m, m₀.Reach m ∧ q m := by
  cases hs : steps n m₀ with
  | ok u m =>
    rw [hs] at h
    exact ⟨m, reach_of_steps hs, h⟩
  | error f m =>
    rw [hs] at h
    cases h

/-- The innermost of `calls` has gone astray in a run from `m₀` to `m`, and is in the same round. -/
inductive StrayedIn (m₀ : Machine) (calls : List Call) : Machine → Prop
  | here {m m' : Machine} : m₀.Reach m → m.flow.calls = calls → step m = .ok () m' →
      m.flow.Strays m'.flow → StrayedIn m₀ calls m'
  | later {m m' : Machine} : StrayedIn m₀ calls m → step m = .ok () m' →
      calls <:+ m'.flow.calls → StrayedIn m₀ calls m'

/-- If a call is in progress, execution is in its body, or behind it after this call has gone
astray. -/
def Contained (m₀ m : Machine) : Prop :=
  ∀ c rest, m.flow.calls = c :: rest → c.body.start ≤ m.flow.cursor.pc ∧
    (m.flow.cursor.pc < c.body.stop ∨ m₀.StrayedIn (c :: rest) m)

theorem Anchored.along_reach (h₀ : m₀.Anchored P p) (hf : m₀.flow.calls = []) (hm : m₀.Reach m) :
    Flow.Along (Flow.OnTrack P fun calls => m₀.StrayedIn calls m) m.flow.cursor.pc m.flow.calls := by
  induction hm with
  | start =>
    rw [hf]
    trivial
  | @step m m₁ m₂ b hr hfin hn hx ih =>
    have hs : step m = .ok () m₂ := (step_read hn).trans (locate_of_ok _ b hx)
    have h := (steady P p).reach h₀ hr
    have hv (d : Definition) (hd : m.Defines d) : d.EndsFrom P d.start := by
      obtain ⟨k, hk⟩ := hd
      exact h.endsFrom k d hk
    obtain ⟨f, hskip, hc⟩ := continues_of_execute hn hx
    refine h.flow.along_step hv ih hskip hc (fun l hl hst => .later hst hs hl) fun hcalls hst => ?_
    exact .here hr hcalls.symm hs hst

theorem Anchored.contained (h₀ : m₀.Anchored P p) (hf : m₀.flow.calls = []) (hm : m₀.Reach m) :
    m₀.Contained m := by
  intro c rest hc
  have habove := ((steady P p).reach h₀ hm).flow.above
  have halong := h₀.along_reach hf hm
  rw [hc] at habove halong
  exact ⟨habove.1, halong.1.imp_left fun he => he.lt⟩

end Machine

/-! ### Configuring and hinting -/

namespace Source

variable {src : Source} {scale ppem : Int32} {mode : Mode} {coords : Array Int16} {s : Snapshot}

theorem recorded_machine (src : Source) (scale ppem : Int32) (mode : Mode) (coords : Array Int16) :
    (src.machine scale ppem mode coords).Recorded (src.programs #[]) where
  toPrepared := prepared_machine src scale ppem mode coords
  endsFrom k d hd := by
    cases k with
    | function => cases Array.eq_of_mem_replicate (n := src.maxima.functions) hd
    | instruction => cases Array.eq_of_mem_replicate (n := src.maxima.instructions) hd

theorem recorded_snapshot (h : src.configure scale ppem mode coords = .ok s) (o : Outline)
    (sc : Scratch) (hf : sc.Fits s.sizes) : (s.machine o sc hf).Recorded (src.programs o.bytecode) := by
  have hprep := prepared_snapshot h o sc hf
  obtain ⟨m, hm, rfl⟩ := (Machine.Anchored.invariant (src.programs #[])).configured
    (recorded_machine src scale ppem mode coords) h
  refine ⟨hprep, fun k d hd => ?_⟩
  have hd' : some d ∈ (m.definitions k).slots := by cases k <;> exact hd
  have hget : (src.programs o.bytecode).get d.program = (src.programs #[]).get d.program := by
    rcases (hm.definitions k d hd').program with hp | hp <;> rw [hp] <;> rfl
  exact (hm.endsFrom k d hd').congr hget

/-- Runs start on machines whose definitions were recorded from the programs of the font. -/
theorem anchored_restart {p : Program} {m : Machine} (h : src.Starts scale ppem mode coords p m) :
    ∃ P, (m.restart p).Anchored P p := by
  have hmachine := recorded_machine src scale ppem mode coords
  have hinv := Machine.Anchored.invariant (src.programs #[])
  cases h with
  | font => exact ⟨_, hinv.font.restart _ hmachine⟩
  | controlValue hr =>
    have hm := hinv.refresh _ ((hinv.font.runNonempty hmachine).ok hr)
    exact ⟨_, hinv.controlValue.restart _ hm⟩
  | @glyph s o sc hf hs ho =>
    exact ⟨_, .restart (recorded_snapshot hs o sc hf) fun _ k => by cases k <;> rfl⟩

/-- In every state between two instructions of a run in which a call is in progress, execution is in
the body of the innermost one, or behind it after this call has gone astray. -/
theorem calls_contained (src : Source) (scale ppem : Int32) (mode : Mode) (coords : Array Int16) :
    ∀ p m₀, src.Starts scale ppem mode coords p m₀ →
      ∀ m, (m₀.restart p).Reach m → (m₀.restart p).Contained m := by
  intro p m₀ hstart m hm
  obtain ⟨P, h₀⟩ := anchored_restart hstart
  exact h₀.contained rfl hm

/-- A font whose first function tests zero and has no other branch. The branch that follows is in the
body of the second function, which is never called. -/
def strayingFont : Source where
  maxima := { stack := 8, functions := 2 }
  fontProgram :=
    #[0xb0, 0, 0x2c, 0xb0, 0, 0x58, 0x2d, 0xb0, 1, 0x2c, 0x59, 0x21, 0x2d, 0xb0, 0, 0x2b]

def strayingMachine : Machine := strayingFont.machine 65536 16 {} #[]

theorem exists_straying : ∃ m c, (strayingMachine.restart .font).Reach m ∧ m.flow.calls = [c] ∧
    c.body.start = 3 ∧ c.body.stop = 7 ∧ m.flow.cursor.pc = 11 := by
  obtain ⟨m, hm, h⟩ := Machine.exists_reach (strayingMachine.restart .font) 8
    (fun m => m.flow.calls.map (fun c => (c.body.start, c.body.stop)) == [(3, 7)] &&
      m.flow.cursor.pc == 11) (by decide +kernel)
  obtain ⟨hc, hpc⟩ := Bool.and_eq_true_iff.1 h
  obtain ⟨c, hc, hbody⟩ := List.map_eq_singleton_iff.1 (eq_of_beq hc)
  obtain ⟨hstart, hstop⟩ := Prod.mk.inj hbody
  exact ⟨m, c, hm, hc, hstart, hstop, eq_of_beq hpc⟩

/-- The call of the first function goes astray. -/
theorem calls_contained_straying :
    ∃ m c, (strayingMachine.restart .font).Reach m ∧ m.flow.calls = [c] ∧
      (strayingMachine.restart .font).StrayedIn [c] m := by
  obtain ⟨m, c, hm, hc, hstart, hstop, hpc⟩ := exists_straying
  have h := calls_contained strayingFont 65536 16 {} #[] .font strayingMachine .font m hm c [] hc
  refine ⟨m, c, hm, hc, h.2.resolve_left ?_⟩
  omega

/-- With a call in progress, an instruction outside of its body is about to be executed. -/
theorem calls_escape :
    ∃ m c rest, (strayingMachine.restart .font).Reach m ∧ m.flow.calls = c :: rest ∧
      ¬m.flow.finished ∧ ¬(c.body.start ≤ m.flow.cursor.pc ∧ m.flow.cursor.pc < c.body.stop) := by
  obtain ⟨m, c, hm, hc, hstart, hstop, hpc⟩ := exists_straying
  refine ⟨m, c, [], hm, hc, ?_, by omega⟩
  rw [Flow.finished, hc]
  simp

end Source

end GridFit
