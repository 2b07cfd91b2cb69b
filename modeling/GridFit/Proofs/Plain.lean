import GridFit.Machine.Step
import GridFit.Proofs.OperandStack
import GridFit.Proofs.Table

/-!
# Plain actions

A plain action works on the stack, the tables, the zones and the graphics state, and has nothing to
do with the flow of control: it neither reads nor changes where the program stands, which calls are
in progress and what is defined. Every instruction other than the control instructions and the
pushes is plain (`Exec.plain_execute`).

Two things follow from how plain actions are put together. They leave control alone and do the same
whatever it is (`Plain.unchanged`, `Plain.withControl`). And they depend on nothing but the live
values of the stack and what the tables give when they are read (`Plain.agrees`).
-/

namespace GridFit

namespace Machine

/-- `m` with another state of control and other definitions. -/
def withControl (m : Machine) (f : Flow) (functions instructions : DefinitionTable) : Machine :=
  { m with flow := f, functions := functions, instructions := instructions }

/-- Nothing of `m` but which program was started and the variation of the font. -/
def settings (m : Machine) : Machine :=
  { (default : Machine) with
    flow := { (default : Flow) with initial := m.flow.initial }
    coords := m.coords
    axisCount := m.axisCount }

/-- The parts of the machine that plain actions leave alone are the same. -/
structure SameControl (m m' : Machine) : Prop where
  flow : m'.flow = m.flow
  functions : m'.functions = m.functions
  instructions : m'.instructions = m.instructions
  coords : m'.coords = m.coords
  axisCount : m'.axisCount = m.axisCount

/-- Machines that differ only in memory that is not in use: words above the top of the stack, and
cells of an overlay that are not written. -/
structure Like (m m' : Machine) : Prop where
  flow : m.flow = m'.flow
  graphics : m.graphics = m'.graphics
  stack : m.stack.Like m'.stack
  controlValues : m.controlValues.Like m'.controlValues
  storage : m.storage.Like m'.storage
  twilight : m.twilight = m'.twilight
  glyph : m.glyph = m'.glyph
  functions : m.functions = m'.functions
  instructions : m.instructions = m'.instructions
  coords : m.coords = m'.coords
  axisCount : m.axisCount = m'.axisCount

theorem SameControl.refl (m : Machine) : SameControl m m := ⟨rfl, rfl, rfl, rfl, rfl⟩

theorem SameControl.trans {m m' m'' : Machine} (h : SameControl m m') (h' : SameControl m' m'') :
    SameControl m m'' :=
  ⟨h'.flow.trans h.flow, h'.functions.trans h.functions, h'.instructions.trans h.instructions,
    h'.coords.trans h.coords, h'.axisCount.trans h.axisCount⟩

end Machine

/-- Whether an instruction never has to do with the flow of control: it is neither a control
instruction nor a push, nor one that a font without variations may define. -/
def Instruction.isPlain : Instruction → Bool
  | .elseBranch | .ifTest | .jmpr | .jumpIf _ | .loopcall | .call | .fdef | .idef | .endf => false
  | .npushb | .npushw | .pushb _ | .pushw _ => false
  | .getvar | .getdata | .undefined _ => false
  | _ => true

/-- Actions that have nothing to do with the flow of control. -/
inductive Plain : {α : Type} → Exec α → Prop
  | pure {α : Type} (a : α) : Plain (pure a)
  | throw {α : Type} (e : Fault) : Plain (throw e : Exec α)
  | bind {α β : Type} {x : Exec α} {f : α → Exec β} : Plain x → (∀ a, Plain (f a)) →
      Plain (x >>= f)
  | stack {α : Type} {x : StackM α} : Agrees OperandStack.Like x → Plain (Exec.onStack x)
  | zone {α : Type} (z : ZonePointer) (x : ZoneM α) : Plain (Exec.onZone z x)
  | graphics : Plain Exec.graphics
  | modifyGraphics (f : Graphics → Graphics) : Plain (Exec.modifyGraphics f)
  | controlValue (i : Int) : Plain (Exec.controlValue i)
  | setControlValue (i : Int) (v : Int32) : Plain (Exec.setControlValue i v)
  | stored (i : Int) : Plain (Exec.stored i)
  | setStored (i : Int) (v : Int32) : Plain (Exec.setStored i v)
  | settings {α : Type} {k : Machine → Exec α} : (∀ m, k m = k m.settings) → (∀ m, Plain (k m)) →
      Plain (get >>= k)

namespace Plain

variable {α β : Type} {x : Exec α}

/-- A plain action leaves control alone. -/
theorem unchanged (h : Plain x) (m : Machine) : match x m with
    | .ok _ m' => m.SameControl m'
    | .error _ m' => m.SameControl m' := by
  induction h generalizing m with
  | pure a => exact .refl m
  | throw e => exact .refl m
  | @bind α β x f hx hf ihx ihf =>
    have h := ihx m
    show match EStateM.bind x f m with | .ok _ m' => _ | .error _ m' => _
    unfold EStateM.bind
    cases hr : x m with
    | error e m' => rw [hr] at h; exact h
    | ok a m' =>
      rw [hr] at h
      have h' := ihf a m'
      dsimp only at h h' ⊢
      cases hr' : f a m' with
      | ok b m'' => rw [hr'] at h'; exact h.trans h'
      | error e m'' => rw [hr'] at h'; exact h.trans h'
  | @stack α x hx =>
    unfold Exec.onStack
    dsimp only
    cases x m.stack <;> exact ⟨rfl, rfl, rfl, rfl, rfl⟩
  | zone z x =>
    unfold Exec.onZone
    cases z <;> dsimp only
    · cases x m.twilight <;> exact ⟨rfl, rfl, rfl, rfl, rfl⟩
    · cases x m.glyph <;> exact ⟨rfl, rfl, rfl, rfl, rfl⟩
  | graphics => exact .refl m
  | modifyGraphics f => exact ⟨rfl, rfl, rfl, rfl, rfl⟩
  | controlValue i =>
    unfold Exec.controlValue
    cases m.controlValues.get? i <;> exact .refl m
  | setControlValue i v =>
    unfold Exec.setControlValue
    cases m.controlValues.contains i <;> exact ⟨rfl, rfl, rfl, rfl, rfl⟩
  | stored i =>
    unfold Exec.stored
    cases m.storage.get? i <;> exact .refl m
  | setStored i v =>
    unfold Exec.setStored
    cases m.storage.contains i <;> exact ⟨rfl, rfl, rfl, rfl, rfl⟩
  | settings hs hk ih => exact ih m m

theorem unchanged_ok (h : Plain x) {m m' : Machine} {a : α} (hx : x m = .ok a m') :
    m.SameControl m' := by
  have := h.unchanged m
  rwa [hx] at this

theorem unchanged_error (h : Plain x) {m m' : Machine} {e : Fault} (hx : x m = .error e m') :
    m.SameControl m' := by
  have := h.unchanged m
  rwa [hx] at this

theorem ends (h : Plain x) {m : Machine} {inv : Machine → Prop}
    (hi : ∀ m', m.SameControl m' → inv m') : Ends Anything inv (x m) := by
  cases hx : x m with
  | ok a m' => exact hi m' (h.unchanged_ok hx)
  | error e m' => exact ⟨trivial, hi m' (h.unchanged_error hx)⟩

/-- A plain action does the same whatever the state of control is. Only the program that was started
must be the same, since a font can ask for it. -/
theorem withControl (h : Plain x) (m : Machine) (f : Flow) (functions instructions : DefinitionTable)
    (hf : f.initial = m.flow.initial) :
    SameOutcome (fun m₁ m₂ => m₁ = m₂.withControl f functions instructions ∧
      f.initial = m₂.flow.initial) (x (m.withControl f functions instructions)) (x m) := by
  induction h generalizing m with
  | pure a => exact ⟨rfl, rfl, hf⟩
  | throw e => exact ⟨rfl, rfl, hf⟩
  | bind hx hk ihx ihk =>
    refine (ihx m hf).bind (fun _ _ h => h) fun a m₁ m₂ h => ?_
    obtain ⟨rfl, hf'⟩ := h
    exact ihk a m₂ hf'
  | @stack α x hx =>
    unfold Exec.onStack Machine.withControl
    dsimp only
    cases x m.stack <;> exact ⟨rfl, rfl, hf⟩
  | zone z x =>
    unfold Exec.onZone Machine.withControl
    cases z <;> dsimp only
    · cases x m.twilight <;> exact ⟨rfl, rfl, hf⟩
    · cases x m.glyph <;> exact ⟨rfl, rfl, hf⟩
  | graphics => exact ⟨rfl, rfl, hf⟩
  | modifyGraphics f => exact ⟨rfl, rfl, hf⟩
  | controlValue i =>
    unfold Exec.controlValue Machine.withControl
    dsimp only
    cases m.controlValues.get? i <;> exact ⟨rfl, rfl, hf⟩
  | setControlValue i v =>
    unfold Exec.setControlValue Machine.withControl
    dsimp only
    cases m.controlValues.contains i <;> exact ⟨rfl, rfl, hf⟩
  | stored i =>
    unfold Exec.stored Machine.withControl
    dsimp only
    cases m.storage.get? i <;> exact ⟨rfl, rfl, hf⟩
  | setStored i v =>
    unfold Exec.setStored Machine.withControl
    dsimp only
    cases m.storage.contains i <;> exact ⟨rfl, rfl, hf⟩
  | @settings α k hs hk ih =>
    have e : (m.withControl f functions instructions).settings = m.settings := by
      simp only [Machine.settings, Machine.withControl, hf]
    show SameOutcome _ (k (m.withControl f functions instructions)
      (m.withControl f functions instructions)) (k m m)
    rw [hs (m.withControl f functions instructions), e, ← hs m]
    exact ih m m hf

theorem agrees_onStack {x : StackM α} (hx : Agrees OperandStack.Like x) :
    Agrees Machine.Like (Exec.onStack x) := by
  intro m m' h
  have hs := hx _ _ h.stack
  unfold Exec.onStack
  dsimp only
  revert hs
  cases x m.stack <;> cases x m'.stack <;> intro hs <;>
    first | exact hs.elim | exact ⟨hs.1, { h with stack := hs.2 }⟩

theorem agrees_onZone (z : ZonePointer) (x : ZoneM α) : Agrees Machine.Like (Exec.onZone z x) := by
  intro m m' h
  unfold Exec.onZone
  cases z <;> dsimp only
  · rw [h.twilight]
    cases x m'.twilight <;> exact ⟨rfl, { h with twilight := rfl }⟩
  · rw [h.glyph]
    cases x m'.glyph <;> exact ⟨rfl, { h with glyph := rfl }⟩

/-- A plain action sees only memory that is in use. -/
theorem agrees (h : Plain x) : Agrees Machine.Like x := by
  induction h with
  | pure a => exact .pure a
  | throw e => exact .throw e
  | bind hx hf ihx ihf => exact ihx.bind ihf
  | stack hx => exact agrees_onStack hx
  | zone z x => exact agrees_onZone z x
  | graphics => exact fun m m' h => ⟨h.graphics, h⟩
  | modifyGraphics f => exact fun m m' h => ⟨rfl, { h with graphics := congrArg f h.graphics }⟩
  | controlValue i =>
    intro m m' h
    unfold Exec.controlValue
    rw [h.controlValues i]
    cases m'.controlValues.get? i <;> exact ⟨rfl, h⟩
  | setControlValue i v =>
    intro m m' h
    unfold Exec.setControlValue
    rw [h.controlValues.contains i]
    cases m'.controlValues.contains i
    · exact ⟨rfl, h⟩
    · exact ⟨rfl, { h with controlValues := h.controlValues.set i v }⟩
  | stored i =>
    intro m m' h
    unfold Exec.stored
    rw [h.storage i]
    cases m'.storage.get? i <;> exact ⟨rfl, h⟩
  | setStored i v =>
    intro m m' h
    unfold Exec.setStored
    rw [h.storage.contains i]
    cases m'.storage.contains i
    · exact ⟨rfl, h⟩
    · exact ⟨rfl, { h with storage := h.storage.set i v }⟩
  | @settings α k hs hk ih =>
    intro m m' h
    have e : m.settings = m'.settings := by
      simp only [Machine.settings, h.flow, h.axisCount, h.coords]
    show SameOutcome _ (k m m) (k m' m')
    rw [hs m, e, ← hs m']
    exact ih m' m m' h

/-! ### Ways to put plain actions together -/

theorem map {k : α → β} (h : Plain x) : Plain (k <$> x) := by
  have e : k <$> x = x >>= fun a => Pure.pure (k a) := by
    funext m
    show EStateM.map k x m = EStateM.bind x (fun a => Pure.pure (k a)) m
    unfold EStateM.map EStateM.bind
    cases x m <;> rfl
  rw [e]
  exact h.bind fun a => .pure (k a)

protected theorem ite {c : Prop} [Decidable c] {y : Exec α} (hx : Plain x) (hy : Plain y) :
    Plain (if c then x else y) := by
  split
  · exact hx
  · exact hy

/-- An action that comes before `f` only under a condition. -/
theorem whenever {c : Prop} [Decidable c] {x : Exec Unit} {f : Unit → Exec β} (hx : Plain x)
    (hf : ∀ u, Plain (f u)) : Plain (if c then x >>= f else f ()) :=
  .ite (hx.bind hf) (hf ())

/-- Two actions that come before `f` only under a condition. -/
theorem whenever₂ {c : Prop} [Decidable c] {y : α → Exec Unit} {f : Unit → Exec β} (hx : Plain x)
    (hy : ∀ a, Plain (y a)) (hf : ∀ u, Plain (f u)) :
    Plain (if c then x >>= fun a => y a >>= f else f ()) :=
  .ite (hx.bind fun a => (hy a).bind hf) (hf ())

theorem forM {f : α → Exec Unit} (hf : ∀ a, Plain (f a)) : ∀ l : List α, Plain (l.forM f)
  | [] => .pure ()
  | a :: l => (hf a).bind fun _ => forM hf l

/-! ### Stack and loop -/

theorem push (v : Int32) : Plain (Exec.push v) := .stack (Refines.push v).agrees

theorem pop : Plain Exec.pop := .stack Refines.pop.agrees

theorem popIndex : Plain Exec.popIndex := .stack Refines.popIndex.agrees

theorem rounds {f : Nat → Exec Unit} (hf : ∀ p, Plain (f p)) :
    ∀ n, Plain (Exec.forLoop.rounds f n)
  | 0 => .pure ()
  | n + 1 => popIndex.bind fun p => (hf p).bind fun _ => (modifyGraphics _).bind fun _ => rounds hf n

theorem forLoop {f : Nat → Exec Unit} (hf : ∀ p, Plain (f p)) : Plain (Exec.forLoop f) :=
  graphics.bind fun _ => (rounds hf _).bind fun _ => modifyGraphics _

/-! ### Settings -/

theorem popLine (perpendicular : Bool) : Plain (Exec.popLine perpendicular) :=
  popIndex.bind fun _ => popIndex.bind fun _ => graphics.bind fun _ => (zone _ _).bind fun _ =>
    (zone _ _).bind fun _ => .pure _

theorem popDirection : Plain Exec.popDirection :=
  pop.bind fun _ => pop.bind fun _ => .pure _

theorem dualProjectionToLine (perpendicular : Bool) : Plain (Exec.dualProjectionToLine perpendicular) :=
  popIndex.bind fun _ => popIndex.bind fun _ => graphics.bind fun _ => (zone _ _).bind fun _ =>
    (zone _ _).bind fun _ => (zone _ _).bind fun _ => (zone _ _).bind fun _ => modifyGraphics _

theorem pushVector (v : Vec) : Plain (Exec.pushVector v) := (push _).bind fun _ => push _

theorem popZone : Plain Exec.popZone := by
  refine pop.bind fun v => ?_
  cases ZonePointer.ofOperand? v with
  | none => exact .throw _
  | some z => exact .pure z

theorem setLoop : Plain Exec.setLoop :=
  pop.bind fun _ => .whenever (.throw _) fun _ => modifyGraphics _

theorem setScalar (s : Scalar) : Plain (Exec.setScalar s) := by
  refine pop.bind fun v => ?_
  cases s
  case deltaShift => exact .whenever (.throw _) fun _ => modifyGraphics _
  all_goals exact modifyGraphics _

theorem setSuperRound (diagonal : Bool) : Plain (Exec.setSuperRound diagonal) :=
  pop.bind fun _ => modifyGraphics _

theorem getInfo : Plain Exec.getInfo :=
  pop.bind fun _ => graphics.bind fun _ => .settings (fun _ => rfl) fun _ => push _

theorem instructControl : Plain Exec.instructControl := by
  refine pop.bind fun selector => pop.bind fun value => ?_
  cases Exec.controlBit? selector with
  | none => exact .pure ()
  | some bit =>
    exact .settings (fun _ => rfl) fun _ => graphics.bind fun _ => .ite (modifyGraphics _) (.pure ())

/-! ### Tables and measurements -/

theorem readStore : Plain Exec.readStore := popIndex.bind fun _ => (stored _).bind push

theorem writeStore : Plain Exec.writeStore := pop.bind fun _ => popIndex.bind fun _ => setStored _ _

theorem readControlValue : Plain Exec.readControlValue :=
  popIndex.bind fun _ => (controlValue _).bind push

theorem writeControlValue (inUnits : Bool) : Plain (Exec.writeControlValue inUnits) :=
  pop.bind fun _ => popIndex.bind fun _ => graphics.bind fun _ => setControlValue _ _

theorem getCoordinate (unhinted : Bool) : Plain (Exec.getCoordinate unhinted) := by
  refine popIndex.bind fun p => graphics.bind fun g => ?_
  cases unhinted <;> exact (zone _ _).bind fun _ => push _

theorem setCoordinate : Plain Exec.setCoordinate :=
  pop.bind fun _ => popIndex.bind fun _ => graphics.bind fun _ => zone _ _

theorem unhintedDistance (za : ZonePointer) (a : Nat) (zb : ZonePointer) (b : Nat) :
    Plain (Exec.unhintedDistance za a zb b) :=
  graphics.bind fun _ => (zone _ _).bind fun _ =>
    .ite ((zone _ _).bind fun _ => (zone _ _).bind fun _ => .pure _)
      ((zone _ _).bind fun _ => (zone _ _).bind fun _ => .pure _)

theorem measureDistance (current : Bool) : Plain (Exec.measureDistance current) := by
  refine popIndex.bind fun k => popIndex.bind fun l => graphics.bind fun g => ?_
  cases current
  · exact (unhintedDistance _ _ _ _).bind push
  · exact (zone _ _).bind fun _ => (zone _ _).bind fun _ => push _

/-! ### Placing points -/

theorem moveDirectAbsolute (rounds : Bool) : Plain (Exec.moveDirectAbsolute rounds) :=
  popIndex.bind fun _ => graphics.bind fun _ => (zone _ _).bind fun _ => modifyGraphics _

theorem moveIndirectAbsolute (rounds : Bool) : Plain (Exec.moveIndirectAbsolute rounds) :=
  popIndex.bind fun _ => popIndex.bind fun _ => (controlValue _).bind fun _ =>
    graphics.bind fun _ => (zone _ _).bind fun _ => modifyGraphics _

theorem moveDirectRelative (m : RelativeMove) : Plain (Exec.moveDirectRelative m) :=
  popIndex.bind fun _ => graphics.bind fun _ => (zone _ _).bind fun _ => (zone _ _).bind fun _ =>
    (unhintedDistance _ _ _ _).bind fun _ => (zone _ _).bind fun _ => modifyGraphics _

theorem controlDistance (n : Int32) : Plain (Exec.controlDistance n) :=
  .ite (.pure 0) (controlValue _)

theorem moveIndirectRelative (m : RelativeMove) : Plain (Exec.moveIndirectRelative m) :=
  pop.bind fun n => popIndex.bind fun _ => graphics.bind fun _ =>
    (controlDistance n).bind fun _ => (zone _ _).bind fun _ => (zone _ _).bind fun _ =>
    .whenever₂ (zone _ _) (fun _ => zone _ _) fun _ => (zone _ _).bind fun _ =>
      (zone _ _).bind fun _ => (zone _ _).bind fun _ => (zone _ _).bind fun _ =>
      (zone _ _).bind fun _ => modifyGraphics _

theorem moveStackRelative (setsReference : Bool) : Plain (Exec.moveStackRelative setsReference) :=
  pop.bind fun _ => popIndex.bind fun _ => graphics.bind fun _ => (zone _ _).bind fun _ =>
    (zone _ _).bind fun _ => .whenever₂ (zone _ _) (fun _ => zone _ _) fun _ =>
      (zone _ _).bind fun _ => modifyGraphics _

theorem alignToReference : Plain Exec.alignToReference :=
  graphics.bind fun _ => (zone _ _).bind fun _ => forLoop fun _ => zone _ _

theorem alignPoints : Plain Exec.alignPoints :=
  popIndex.bind fun _ => popIndex.bind fun _ => graphics.bind fun _ => (zone _ _).bind fun _ =>
    (zone _ _).bind fun _ => (zone _ _).bind fun _ => zone _ _

theorem moveToIntersection : Plain Exec.moveToIntersection :=
  popIndex.bind fun _ => popIndex.bind fun _ => popIndex.bind fun _ => popIndex.bind fun _ =>
    popIndex.bind fun _ => graphics.bind fun _ => (zone _ _).bind fun _ => (zone _ _).bind fun _ =>
    (zone _ _).bind fun _ => (zone _ _).bind fun _ => (zone _ _).bind fun _ => zone _ _

theorem referenceRange (g : Graphics) (base : Point) : Plain (Exec.referenceRange g base) := by
  refine (zone _ _).bind fun c => ?_
  cases c with
  | none => exact .pure _
  | some c => exact (unhintedDistance _ _ _ _).bind fun _ => .pure _

theorem interpolatePoints : Plain Exec.interpolatePoints :=
  graphics.bind fun _ => (zone _ _).bind fun _ => (referenceRange _ _).bind fun _ =>
    forLoop fun _ => (zone _ _).bind fun _ => (unhintedDistance _ _ _ _).bind fun _ => zone _ _

/-! ### Shifting, marking and interpolating points -/

theorem displacement (first : Bool) : Plain (Exec.displacement first) :=
  graphics.bind fun _ => (zone _ _).bind fun _ => (zone _ _).bind fun _ => .pure _

theorem shiftPoints (first : Bool) : Plain (Exec.shiftPoints first) :=
  (displacement first).bind fun _ => graphics.bind fun _ => forLoop fun _ => zone _ _

theorem shiftRange (d : Exec.Displacement) (first stop : Nat) : Plain (Exec.shiftRange d first stop) :=
  graphics.bind fun _ => zone _ _

theorem shiftContour (first : Bool) : Plain (Exec.shiftContour first) :=
  (displacement first).bind fun _ => popIndex.bind fun _ => graphics.bind fun _ =>
    (zone _ _).bind fun _ => shiftRange _ _ _

theorem shiftZone (first : Bool) : Plain (Exec.shiftZone first) :=
  (displacement first).bind fun _ => pop.bind fun _ => .whenever (.throw _) fun _ =>
    graphics.bind fun _ => (zone _ _).bind fun _ => shiftRange _ _ _

theorem shiftByPixels : Plain Exec.shiftByPixels :=
  pop.bind fun _ => graphics.bind fun _ => forLoop fun _ => zone _ _

theorem untouch : Plain Exec.untouch :=
  popIndex.bind fun _ => graphics.bind fun _ => zone _ _

theorem flipPoints : Plain Exec.flipPoints :=
  graphics.bind fun _ => forLoop fun _ => zone _ _

theorem flipRange (on : Bool) : Plain (Exec.flipRange on) :=
  popIndex.bind fun _ => popIndex.bind fun _ => graphics.bind fun _ => .ite (zone _ _) (.pure ())

theorem popCount : Plain Exec.popCount :=
  pop.bind fun _ => .whenever (.throw _) fun _ => .pure _

theorem deltaPoints (start : Int32) : ∀ n, Plain (Exec.deltaPoints start n)
  | 0 => .pure ()
  | n + 1 => popIndex.bind fun _ => pop.bind fun _ => graphics.bind fun _ => (zone _ _).bind fun _ =>
      deltaPoints start n

theorem deltaControlValues (start : Int32) : ∀ n, Plain (Exec.deltaControlValues start n)
  | 0 => .pure ()
  | n + 1 => by
    refine popIndex.bind fun i => pop.bind fun arg => graphics.bind fun g => ?_
    dsimp only
    cases g.deltaAmount? arg start with
    | none => exact deltaControlValues start n
    | some d =>
      exact (controlValue _).bind fun _ => (setControlValue _ _).bind fun _ =>
        deltaControlValues start n

theorem interpolateUntouched (a : Axis) : Plain (Exec.interpolateUntouched a) :=
  graphics.bind fun _ => .ite (.whenever (modifyGraphics _) fun _ => zone _ _) (.pure ())

/-! ### Instructions -/

theorem discardPop : Plain (discard Exec.pop) := pop.map

theorem unary (op : UnaryOp) : Plain (Exec.unary op) :=
  graphics.bind fun _ => .stack (Refines.apply1 _).agrees

/-- The instructions that have nothing to do with the flow of control are plain actions. -/
theorem execute {i : Instruction} (h : i.isPlain) : Plain (Exec.execute i) := by
  cases i <;> cases h
  case svtca a => rw [Exec.execute]; exact modifyGraphics _
  case spvtca a => rw [Exec.execute]; exact modifyGraphics _
  case sfvtca a => rw [Exec.execute]; exact modifyGraphics _
  case spvtl perpendicular => exact (popLine perpendicular).bind fun _ => modifyGraphics _
  case sfvtl perpendicular => exact (popLine perpendicular).bind fun _ => modifyGraphics _
  case spvfs => exact popDirection.bind fun _ => modifyGraphics _
  case sfvfs => exact popDirection.bind fun _ => modifyGraphics _
  case gpv => exact graphics.bind fun _ => pushVector _
  case gfv => exact graphics.bind fun _ => pushVector _
  case sfvtpv => rw [Exec.execute]; exact modifyGraphics _
  case isect => exact moveToIntersection
  case srp k => exact popIndex.bind fun _ => modifyGraphics _
  case szp k => exact popZone.bind fun _ => modifyGraphics _
  case szps => exact popZone.bind fun _ => modifyGraphics _
  case sloop => exact setLoop
  case setRound mode => rw [Exec.execute]; exact modifyGraphics _
  case sround diagonal => exact setSuperRound diagonal
  case setScalar s => exact setScalar s
  case autoFlip on => rw [Exec.execute]; exact modifyGraphics _
  case endIf => exact .pure ()
  case dup => exact .stack Refines.dup.agrees
  case pop => exact discardPop
  case clear => exact .stack Refines.clear.agrees
  case swap => exact .stack Refines.swap.agrees
  case depth => exact .stack Refines.depth.agrees
  case cindex => exact .stack Refines.copyIndex.agrees
  case mindex => exact .stack Refines.moveIndex.agrees
  case roll => exact .stack Refines.roll.agrees
  case debug => exact discardPop
  case sangw => exact discardPop
  case aa => exact discardPop
  case scanctrl => exact discardPop
  case scantype => exact discardPop
  case alignpts => exact alignPoints
  case utp => exact untouch
  case mdap rounds => exact moveDirectAbsolute rounds
  case miap rounds => exact moveIndirectAbsolute rounds
  case iup a => exact interpolateUntouched a
  case shp first => exact shiftPoints first
  case shc first => exact shiftContour first
  case shz first => exact shiftZone first
  case shpix => exact shiftByPixels
  case ip => exact interpolatePoints
  case msirp setsReference => exact moveStackRelative setsReference
  case alignrp => exact alignToReference
  case ws => exact writeStore
  case rs => exact readStore
  case wcvtp => exact writeControlValue false
  case wcvtf => exact writeControlValue true
  case rcvt => exact readControlValue
  case gc unhinted => exact getCoordinate unhinted
  case scfs => exact setCoordinate
  case md current => exact measureDistance current
  case mppem => exact graphics.bind fun _ => push _
  case mps => exact graphics.bind fun _ => push _
  case binary op => exact .stack (Refines.apply2 _).agrees
  case unary op => exact unary op
  case deltap range => exact popCount.bind fun n => deltaPoints _ n
  case deltac range => exact popCount.bind fun n => deltaControlValues _ n
  case flippt => exact flipPoints
  case fliprg on => exact flipRange on
  case sdpvtl perpendicular => exact dualProjectionToLine perpendicular
  case getinfo => exact getInfo
  case instctrl => exact instructControl
  case mdrp m => exact moveDirectRelative m
  case mirp m => exact moveIndirectRelative m

/-- The coordinates of a font with variations are settings. -/
theorem pushCoords : Plain Exec.pushCoords :=
  .settings (fun _ => rfl) fun _ => forM (fun _ => push _) _

end Plain

end GridFit
