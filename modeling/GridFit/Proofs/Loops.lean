import GridFit.Proofs.Linkage
import GridFit.Proofs.Regime.Execute

/-!
# Loops inside of instructions

A test that fails and a definition read on until they come to a marker. Other instructions take
points or exceptions from the stack, as many as a counter says. Such a loop, as it is meant, has no
bound but ends by itself: `Iterates x n a s r` says that `x`, done over and over from `a`, comes to
`r` in its `n`-th round.

Every round of a scan reads a byte or fails, and every round that takes from the stack finds it
lower than the one before. So scans make at most one round more than there are bytes left
(`FlowM.iterates_skipBranch`, `FlowM.iterates_skipDefinition`), and loops at most one more than there
are words on the stack, however large the counter is (`Exec.iterates_forLoop`,
`Exec.iterates_count`).
-/

namespace GridFit

/-- Doing `x` from `a` until it gives a result comes to `r` in the `n`-th round. A round that gives no
result says where to go on. -/
inductive Iterates {ε σ α β : Type} (x : α → EStateM ε σ (α ⊕ β)) :
    Nat → α → σ → EStateM.Result ε σ β → Prop
  | stop {a : α} {b : β} {s s' : σ} : x a s = .ok (.inr b) s' → Iterates x 1 a s (.ok b s')
  | fail {a : α} {e : ε} {s s' : σ} : x a s = .error e s' → Iterates x 1 a s (.error e s')
  | again {n : Nat} {a a' : α} {s s' : σ} {r : EStateM.Result ε σ β} :
      x a s = .ok (.inl a') s' → Iterates x n a' s' r → Iterates x (n + 1) a s r

/-! ### Scans -/

theorem CursorM.skip_done {c : Cursor} (h : c.remaining = 0) : skip c = .error .endOfBytecode c := by
  have hpc : ¬c.pc < c.code.size := by
    rw [Cursor.remaining] at h
    omega
  rw [skip, bind_of_error]
  rw [next, dif_neg hpc]

theorem CursorM.remaining_skip {c c' : Cursor} {b : UInt8} (h : skip c = .ok b c') :
    c'.remaining < c.remaining := by
  obtain ⟨hb, hm, hlt, -⟩ := skip_ok h
  obtain ⟨hpc, -⟩ := Array.getElem?_eq_some_iff.1 hb
  rw [Cursor.remaining, Cursor.remaining, hm.code]
  omega

namespace FlowM

variable {f : Flow}

theorem skip_done (h : f.cursor.remaining = 0) : skip f = .error .endOfBytecode f := by
  rw [skip, onCursor, CursorM.skip_done h]

theorem remaining_skip {f' : Flow} {b : UInt8} (h : skip f = .ok b f') :
    f'.cursor.remaining < f.cursor.remaining := by
  obtain ⟨c, hc, rfl⟩ := skip_ok h
  exact CursorM.remaining_skip hc

/-- Reads past one instruction of a branch, where `depth` further tests are open. -/
def branchRound (stopAtElse : Bool) (depth : Nat) : FlowM (Nat ⊕ Unit) := do
  match depthAfter? stopAtElse depth (.ofByte (← skip)) with
  | none => return .inr ()
  | some depth => return .inl depth

/-- Reads past one instruction of a definition. -/
def definitionRound (_ : Unit) : FlowM (Unit ⊕ Unit) := do
  match Instruction.ofByte (← skip) with
  | .fdef => throw .nestedDefinition
  | .idef => throw .nestedDefinition
  | .endf => return .inr ()
  | _ => return .inl ()

theorem iterates_skipBranchFrom (stopAtElse : Bool) {fuel : Nat} (depth : Nat)
    (hf : f.cursor.remaining ≤ fuel) :
    ∃ n ≤ fuel + 1, Iterates (branchRound stopAtElse) n depth f
      (skipBranchFrom stopAtElse depth fuel f) := by
  induction fuel generalizing f depth with
  | zero =>
    have hs := skip_done (Nat.le_zero.1 hf)
    exact ⟨1, by omega, .fail (by rw [branchRound, bind_of_error hs])⟩
  | succ fuel ih =>
    rw [skipBranchFrom]
    cases hs : skip f with
    | error e f₁ =>
      rw [bind_of_error hs]
      exact ⟨1, by omega, .fail (by rw [branchRound, bind_of_error hs])⟩
    | ok b f₁ =>
      have hlt := remaining_skip hs
      rw [bind_of_ok hs]
      cases hd : depthAfter? stopAtElse depth (.ofByte b) with
      | none =>
        refine ⟨1, by omega, .stop ?_⟩
        rw [branchRound, bind_of_ok hs, hd]
        rfl
      | some depth' =>
        obtain ⟨n, hn, hi⟩ := ih (f := f₁) depth' (by omega)
        refine ⟨n + 1, by omega, .again ?_ hi⟩
        rw [branchRound, bind_of_ok hs, hd]
        rfl

/-- The search for the end of a branch ends by itself. -/
theorem iterates_skipBranch (stopAtElse : Bool) (f : Flow) :
    ∃ n ≤ f.cursor.remaining + 1,
      Iterates (branchRound stopAtElse) n 0 f (skipBranch stopAtElse f) :=
  iterates_skipBranchFrom stopAtElse 0 (Nat.le_refl _)

/-- The search for the end of a definition ends by itself. -/
theorem iterates_skipDefinition {fuel : Nat} (hf : f.cursor.remaining ≤ fuel) :
    ∃ n ≤ fuel + 1, Iterates definitionRound n () f (skipDefinition fuel f) := by
  induction fuel generalizing f with
  | zero =>
    have hs := skip_done (Nat.le_zero.1 hf)
    exact ⟨1, by omega, .fail (by rw [definitionRound, bind_of_error hs])⟩
  | succ fuel ih =>
    rw [skipDefinition]
    cases hs : skip f with
    | error e f₁ =>
      rw [bind_of_error hs]
      exact ⟨1, by omega, .fail (by rw [definitionRound, bind_of_error hs])⟩
    | ok b f₁ =>
      have hlt := remaining_skip hs
      have hround := congrFun (definitionRound.eq_1 ()) f
      rw [bind_of_ok hs] at hround ⊢
      have hnext (hr : definitionRound () f = .ok (.inl ()) f₁) :
          ∃ n ≤ fuel + 1 + 1, Iterates definitionRound n () f (skipDefinition fuel f₁) := by
        obtain ⟨n, hn, hi⟩ := ih (f := f₁) (by omega)
        exact ⟨n + 1, by omega, .again hr hi⟩
      generalize Instruction.ofByte b = i at hround ⊢
      cases i
      case fdef => exact ⟨1, by omega, .fail hround⟩
      case idef => exact ⟨1, by omega, .fail hround⟩
      case endf => exact ⟨1, by omega, .stop hround⟩
      all_goals exact hnext hround

end FlowM

/-! ### Loops over the stack -/

theorem StackM.top_pop {s s' : OperandStack} {v : Int32} (h : pop s = .ok v s') :
    s'.top + 1 = s.top := by
  unfold pop at h
  by_cases ht : 0 < s.top
  · simp only [dif_pos ht] at h
    cases h
    exact Nat.sub_add_cancel ht
  · simp only [dif_neg ht] at h
    cases h

namespace Exec

/-- If `x` succeeds, it has taken `k` words or more from the stack and left the graphics state as it
was. -/
def Takes {α : Type} (k : Nat) (x : Exec α) : Prop :=
  ∀ m a m', x m = .ok a m' → m'.graphics = m.graphics ∧ m'.stack.top + k ≤ m.stack.top

namespace Takes

variable {α β : Type} {j k : Nat} {x y : Exec α} {f : α → Exec β}

protected theorem pure (a : α) : Takes 0 (pure a) := by
  intro m b m' h
  cases h
  exact ⟨rfl, Nat.le_refl _⟩

theorem bind (hx : Takes j x) (hf : ∀ a, Takes k (f a)) : Takes (j + k) (x >>= f) := by
  intro m b m'' h
  obtain ⟨a, m', hxm, hfm⟩ := exists_of_bind_ok h
  obtain ⟨hg, ht⟩ := hx m a m' hxm
  obtain ⟨hg', ht'⟩ := hf a m' b m'' hfm
  exact ⟨hg'.trans hg, by omega⟩

theorem mono (h : Takes k x) (hj : j ≤ k) : Takes j x := by
  intro m a m' hx
  obtain ⟨hg, ht⟩ := h m a m' hx
  exact ⟨hg, by omega⟩

theorem onStack {x : StackM α} (h : ∀ s a s', x s = .ok a s' → s'.top + k ≤ s.top) :
    Takes k (onStack x) := by
  intro m a m' hx
  rw [Exec.onStack] at hx
  dsimp only at hx
  cases hs : x m.stack with
  | ok b s =>
    rw [hs] at hx
    cases hx
    exact ⟨rfl, h _ _ _ hs⟩
  | error e s =>
    rw [hs] at hx
    cases hx

theorem onZone (z : ZonePointer) (x : ZoneM α) : Takes 0 (onZone z x) := by
  intro m a m' hx
  unfold Exec.onZone at hx
  cases z <;> dsimp only at hx
  case twilight =>
    cases hz : x m.twilight <;> rw [hz] at hx <;> cases hx
    exact ⟨rfl, Nat.le_refl _⟩
  case glyph =>
    cases hz : x m.glyph <;> rw [hz] at hx <;> cases hx
    exact ⟨rfl, Nat.le_refl _⟩

theorem graphics : Takes 0 Exec.graphics := by
  intro m a m' h
  cases h
  exact ⟨rfl, Nat.le_refl _⟩

theorem pop : Takes 1 Exec.pop := onStack fun _ _ _ h => Nat.le_of_eq (StackM.top_pop h)

theorem popIndex : Takes 1 Exec.popIndex := by
  refine onStack fun s p s' h => ?_
  have he : StackM.popIndex = StackM.pop >>= fun v => pure (OperandStack.toIndex v) :=
    (bind_pure_comp _ _).symm
  rw [he] at h
  obtain ⟨v, s₁, hp, h⟩ := exists_of_bind_ok h
  cases h
  exact Nat.le_of_eq (StackM.top_pop hp)

theorem controlValue (i : Int) : Takes 0 (Exec.controlValue i) := by
  intro m v m' h
  rw [Exec.controlValue] at h
  cases hv : m.controlValues.get? i <;> rw [hv] at h <;> cases h
  exact ⟨rfl, Nat.le_refl _⟩

theorem setControlValue (i : Int) (v : Int32) : Takes 0 (Exec.setControlValue i v) := by
  intro m u m' h
  rw [Exec.setControlValue] at h
  cases hc : m.controlValues.contains i <;> rw [hc] at h <;> cases h
  exact ⟨rfl, Nat.le_refl _⟩

theorem unhintedDistance (za : ZonePointer) (a : Nat) (zb : ZonePointer) (b : Nat) :
    Takes 0 (Exec.unhintedDistance za a zb b) := by
  refine graphics.bind fun g => (onZone .glyph _).bind (k := 0) fun units => ?_
  split
  · exact (onZone za _).bind fun _ => (onZone zb _).bind fun _ => .pure _
  · exact (onZone za _).bind fun _ => (onZone zb _).bind fun _ => .pure _

theorem displacement (first : Bool) : Takes 0 (Exec.displacement first) :=
  graphics.bind fun _ => (onZone _ _).bind fun _ => (onZone _ _).bind fun _ => .pure _

theorem referenceRange (g : Graphics) (base : Point) : Takes 0 (Exec.referenceRange g base) := by
  refine (onZone g.zp1 _).bind (k := 0) fun c? => ?_
  cases c? with
  | none => exact .pure _
  | some c => exact (unhintedDistance _ _ _ _).bind fun _ => .pure _

end Takes

/-- One round of a loop over points. -/
def loopRound (f : Nat → Exec Unit) (_ : Unit) : Exec (Unit ⊕ Unit) := do
  if 0 < (← graphics).loop then
    f (← popIndex)
    modifyGraphics fun g => { g with loop := g.loop - 1 }
    return .inl ()
  else
    modifyGraphics fun g => { g with loop := 1 }
    return .inr ()

/-- One round of a loop that does `x` as often as a counter says. -/
def countRound (x : Exec Unit) : Nat → Exec (Nat ⊕ Unit)
  | 0 => return .inr ()
  | n + 1 => do
    x
    return .inl n

theorem forLoop_zero {f : Nat → Exec Unit} {m : Machine} (h : m.graphics.loop.toNatClampNeg = 0) :
    forLoop f m = .ok () { m with graphics := { m.graphics with loop := 1 } } := by
  rw [forLoop, bind_of_ok (x := graphics) rfl, h]
  rfl

theorem forLoop_succ {f : Nat → Exec Unit} {m m₁ m₂ : Machine} {p n : Nat}
    (h : m.graphics.loop.toNatClampNeg = n + 1) (hp : popIndex m = .ok p m₁)
    (hf : f p m₁ = .ok () m₂) (hg : m₂.graphics = m.graphics) :
    forLoop f m =
      forLoop f { m₂ with graphics := { m₂.graphics with loop := m₂.graphics.loop - 1 } } := by
  obtain ⟨-, hn⟩ := Regime.countDown_toNat h
  rw [← hg] at hn
  rw [forLoop, bind_of_ok (x := graphics) rfl, bind_of_ok (x := graphics) rfl, h]
  dsimp only
  rw [hn, forLoop.rounds]
  simp only [bind_assoc]
  rw [bind_of_ok hp, bind_of_ok hf, bind_of_ok (x := modifyGraphics _) rfl]

/-- A loop over points ends by itself, whatever the counter says. -/
theorem iterates_forLoop {f : Nat → Exec Unit} (hf : ∀ p, Takes 0 (f p)) (m : Machine) :
    ∃ n ≤ min m.graphics.loop.toNatClampNeg m.stack.top + 1,
      Iterates (loopRound f) n () m (forLoop f m) := by
  generalize hk : m.graphics.loop.toNatClampNeg = k
  induction k generalizing m with
  | zero =>
    have hpos : ¬0 < m.graphics.loop := by
      intro h
      rw [Int32.lt_iff_toInt_lt] at h
      rw [← Int32.toNat_toInt] at hk
      have h0 : (0 : Int32).toInt = 0 := rfl
      omega
    refine ⟨1, by omega, ?_⟩
    rw [forLoop_zero hk]
    refine .stop ?_
    rw [loopRound, bind_of_ok (x := graphics) rfl, if_neg hpos]
    rfl
  | succ k ih =>
    obtain ⟨hpos, hdown⟩ := Regime.countDown_toNat hk
    have hround := congrFun (loopRound.eq_1 f ()) m
    rw [bind_of_ok (x := graphics) rfl, if_pos hpos] at hround
    cases hp : popIndex m with
    | error e m₁ =>
      rw [bind_of_error hp] at hround
      rw [forLoop, bind_of_ok (x := graphics) rfl, hk, forLoop.rounds]
      simp only [bind_assoc]
      rw [bind_of_error hp]
      exact ⟨1, by omega, .fail hround⟩
    | ok p m₁ =>
      rw [bind_of_ok hp] at hround
      obtain ⟨hg₁, ht₁⟩ := Takes.popIndex m p m₁ hp
      cases hx : f p m₁ with
      | error e m₂ =>
        rw [bind_of_error hx] at hround
        rw [forLoop, bind_of_ok (x := graphics) rfl, hk, forLoop.rounds]
        simp only [bind_assoc]
        rw [bind_of_ok hp, bind_of_error hx]
        exact ⟨1, by omega, .fail hround⟩
      | ok u m₂ =>
        obtain ⟨hg₂, ht₂⟩ := hf p m₁ u m₂ hx
        have hg : m₂.graphics = m.graphics := hg₂.trans hg₁
        rw [bind_of_ok hx] at hround
        rw [forLoop_succ hk hp hx hg]
        obtain ⟨n, hn, hi⟩ := ih
          { m₂ with graphics := { m₂.graphics with loop := m₂.graphics.loop - 1 } }
          (by rw [← hdown, ← hg])
        dsimp only at hn
        exact ⟨n + 1, by omega, .again hround hi⟩

/-- Doing `x` as often as a counter says ends by itself, if `x` takes two words from the stack. -/
theorem iterates_count {x : Exec Unit} {F : Nat → Exec Unit} (h0 : F 0 = pure ())
    (hs : ∀ k, F (k + 1) = x >>= fun _ => F k) (hx : Takes 2 x) (k : Nat) (m : Machine) :
    ∃ n ≤ min k (m.stack.top / 2) + 1, Iterates (countRound x) n k m (F k m) := by
  induction k generalizing m with
  | zero =>
    rw [h0]
    exact ⟨1, by omega, .stop rfl⟩
  | succ k ih =>
    rw [hs]
    cases hm : x m with
    | error e m₁ =>
      rw [bind_of_error hm]
      exact ⟨1, by omega, .fail (bind_of_error hm)⟩
    | ok u m₁ =>
      obtain ⟨-, ht⟩ := hx m u m₁ hm
      obtain ⟨n, hn, hi⟩ := ih m₁
      rw [bind_of_ok hm]
      exact ⟨n + 1, by omega, .again (bind_of_ok hm) hi⟩

theorem deltaPoints_succ (start : Int32) (k : Nat) :
    deltaPoints start (k + 1) = deltaPoints start 1 >>= fun _ => deltaPoints start k := by
  simp only [deltaPoints, bind_assoc, bind_pure_unit]

theorem deltaControlValues_succ (start : Int32) (k : Nat) :
    deltaControlValues start (k + 1) =
      deltaControlValues start 1 >>= fun _ => deltaControlValues start k := by
  simp only [deltaControlValues, bind_assoc]
  refine bind_congr fun i => bind_congr fun arg => bind_congr fun g => ?_
  cases g.deltaAmount? arg start with
  | none => simp only [pure_bind]
  | some d => simp only [bind_assoc, pure_bind]

theorem Takes.deltaPoints (start : Int32) : Takes 2 (Exec.deltaPoints start 1) :=
  popIndex.bind fun _ => pop.bind fun _ => graphics.bind fun _ => (onZone _ _).bind fun _ => .pure _

theorem Takes.deltaControlValues (start : Int32) : Takes 2 (Exec.deltaControlValues start 1) := by
  refine popIndex.bind (k := 1) fun i => pop.bind fun arg => graphics.bind (k := 0) fun g => ?_
  cases g.deltaAmount? arg start with
  | none => exact .pure _
  | some d =>
    exact (controlValue i).bind fun _ => (setControlValue i _).bind fun _ => .pure _

/-- Actions that loop over points after they have prepared, with the graphics state left alone all
along. -/
inductive PointLoop : Exec Unit → Prop
  | loop {f : Nat → Exec Unit} : (∀ p, Takes 0 (f p)) → PointLoop (forLoop f)
  | after {α : Type} {x : Exec α} {f : α → Exec Unit} : Takes 0 x → (∀ a, PointLoop (f a)) →
      PointLoop (x >>= f)

end Exec

/-- Whether the instruction loops over points. -/
def Instruction.loopsOverPoints : Instruction → Bool
  | .shp _ | .shpix | .ip | .alignrp | .flippt => true
  | _ => false

theorem Exec.pointLoop_execute {i : Instruction} (h : i.loopsOverPoints) : PointLoop (execute i) := by
  cases i <;> first | exact absurd h Bool.false_ne_true | rw [execute]
  case shp first =>
    exact .after (.displacement first) fun d => .after .graphics fun g =>
      .loop fun p => .onZone g.zp2 _
  case shpix =>
    exact .after (Takes.pop.mono (Nat.zero_le 1)) fun amount => .after .graphics fun g =>
      .loop fun p => .onZone g.zp2 _
  case ip =>
    refine .after .graphics fun g => .after (.onZone g.zp0 _) fun base =>
      .after (.referenceRange g base) fun range => .loop fun p => ?_
    exact (Takes.onZone g.zp2 _).bind fun c => (Takes.unhintedDistance _ _ _ _).bind fun unhinted =>
      .onZone g.zp2 _
  case alignrp =>
    exact .after .graphics fun g => .after (.onZone g.zp0 _) fun ref =>
      .loop fun p => .onZone g.zp1 _
  case flippt => exact .after .graphics fun g => .loop fun p => .onZone g.zp0 _

/-- The loops that an instruction can start on `m` end by themselves. Loops other than these go
through a list of points or of coordinates. -/
structure Machine.LoopsEnd (m : Machine) : Prop where
  branch : ∀ stopAtElse : Bool, ∃ n ≤ m.flow.cursor.remaining + 1,
    Iterates (FlowM.branchRound stopAtElse) n 0 m.flow (FlowM.skipBranch stopAtElse m.flow)
  definition : ∃ n ≤ m.flow.cursor.remaining + 1, Iterates FlowM.definitionRound n () m.flow
    (FlowM.skipDefinition m.flow.cursor.remaining m.flow)
  pointLoop : ∀ i : Instruction, i.loopsOverPoints → Exec.PointLoop (Exec.execute i)
  points : ∀ f : Nat → Exec Unit, (∀ p, Exec.Takes 0 (f p)) →
    ∃ n ≤ min m.graphics.loop.toNatClampNeg m.stack.top + 1,
      Iterates (Exec.loopRound f) n () m (Exec.forLoop f m)
  deltaPoints : ∀ (start : Int32) (k : Nat), ∃ n ≤ min k (m.stack.top / 2) + 1,
    Iterates (Exec.countRound (Exec.deltaPoints start 1)) n k m (Exec.deltaPoints start k m)
  deltaControlValues : ∀ (start : Int32) (k : Nat), ∃ n ≤ min k (m.stack.top / 2) + 1,
    Iterates (Exec.countRound (Exec.deltaControlValues start 1)) n k m
      (Exec.deltaControlValues start k m)

theorem Machine.loopsEnd (m : Machine) : m.LoopsEnd where
  branch stopAtElse := FlowM.iterates_skipBranch stopAtElse m.flow
  definition := FlowM.iterates_skipDefinition (Nat.le_refl _)
  pointLoop _ h := Exec.pointLoop_execute h
  points _ hf := Exec.iterates_forLoop hf m
  deltaPoints start k :=
    Exec.iterates_count rfl (Exec.deltaPoints_succ start) (.deltaPoints start) k m
  deltaControlValues start k :=
    Exec.iterates_count rfl (Exec.deltaControlValues_succ start) (.deltaControlValues start) k m

end GridFit
