import GridFit.Proofs.Control
import GridFit.Proofs.Execution
import GridFit.Proofs.Regime.Zone

/-!
# Instructions under a regime

Every instruction keeps a regime that survives the changes which instructions make, and no
instruction causes a breach or a fault of a whole run (`Regime.execute`). The proof follows the
instructions: what an instruction has checked stands in the postcondition of the check until it is
used.
-/

namespace GridFit.Regime

variable {α : Type} {R : Regime} {i : Instruction}

/-! ### Parts of the machine -/

theorem control : Control Anything (fun f => f.initial = R.initial) R.Holds where
  survives := Flow.survives_initial _ _
  flow _ hm := hm.initial
  withFlow _ _ hm hf := ⟨hf, hm.graphics, hm.twilight, hm.glyph⟩
  withStack _ _ hm := ⟨hm.initial, hm.graphics, hm.twilight, hm.glyph⟩
  definitions _ _ _ _ _ := trivial
  store m k key slot d f hm _ hd := by
    have hi := Flow.survives_initial Anything R.initial
    have hf := ((FlowM.keeps_define hi key).ok hm.initial hd).2
    cases k <;> exact ⟨hf, hm.graphics, hm.twilight, hm.glyph⟩

theorem onStack {x : StackM α} {q : α → Prop} (h : Keeps Anything x q) :
    Keeps R.Holds (Exec.onStack x) q :=
  control.onStack h

theorem onZone {zp : ZonePointer} {x : ZoneM α} {q : α → Prop} (h : Keeps (R.zone zp) x q) :
    Keeps R.Holds (Exec.onZone zp x) q := by
  intro m hm
  unfold Exec.onZone
  cases zp with
  | twilight =>
    have hx := h m.twilight hm.twilight
    dsimp only
    cases hr : x m.twilight with
    | ok a z =>
      rw [hr] at hx
      exact ⟨hx.1, hm.initial, hm.graphics, hx.2, hm.glyph⟩
    | error e z =>
      rw [hr] at hx
      exact ⟨hx.1, hm.initial, hm.graphics, hx.2, hm.glyph⟩
  | glyph =>
    have hx := h m.glyph hm.glyph
    dsimp only
    cases hr : x m.glyph with
    | ok a z =>
      rw [hr] at hx
      exact ⟨hx.1, hm.initial, hm.graphics, hm.twilight, hx.2⟩
    | error e z =>
      rw [hr] at hx
      exact ⟨hx.1, hm.initial, hm.graphics, hm.twilight, hx.2⟩

theorem push (v : Int32) : Keeps R.Holds (Exec.push v) Anything := onStack (StackM.keeps_push v)

theorem pop : Keeps R.Holds Exec.pop Anything := onStack StackM.keeps_pop

theorem popIndex : Keeps R.Holds Exec.popIndex fun p => p ≤ maxIndex :=
  onStack StackM.keeps_popIndex

theorem readGraphics : Keeps R.Holds Exec.graphics R.graphics := fun _ hm => ⟨hm.graphics, hm⟩

theorem modifyGraphics {f : Graphics → Graphics} (hU : R.Updates)
    (hf : ∀ g : Graphics, g.Update R.initial (f g)) :
    Keeps R.Holds (Exec.modifyGraphics f) Anything :=
  fun m hm => ⟨trivial, hm.initial, hU m.graphics _ hm.graphics (hf m.graphics), hm.twilight, hm.glyph⟩

theorem controlValue (n : Int) : Keeps R.Holds (Exec.controlValue n) Anything := by
  intro m hm
  unfold Exec.controlValue
  cases m.controlValues.get? n with
  | some v => exact ⟨trivial, hm⟩
  | none => exact ⟨nofun, hm⟩

theorem setControlValue (n : Int) (v : Int32) :
    Keeps R.Holds (Exec.setControlValue n v) Anything := by
  intro m hm
  unfold Exec.setControlValue
  cases m.controlValues.contains n with
  | true => exact ⟨trivial, hm.initial, hm.graphics, hm.twilight, hm.glyph⟩
  | false => exact ⟨nofun, hm⟩

theorem stored (n : Int) : Keeps R.Holds (Exec.stored n) Anything := by
  intro m hm
  unfold Exec.stored
  cases m.storage.get? n with
  | some v => exact ⟨trivial, hm⟩
  | none => exact ⟨nofun, hm⟩

theorem setStored (n : Int) (v : Int32) : Keeps R.Holds (Exec.setStored n v) Anything := by
  intro m hm
  unfold Exec.setStored
  cases m.storage.contains n with
  | true => exact ⟨trivial, hm.initial, hm.graphics, hm.twilight, hm.glyph⟩
  | false => exact ⟨nofun, hm⟩

/-! ### The loop -/

theorem countDown_toNat {k : Int32} {n : Nat} (h : k.toNatClampNeg = n + 1) :
    0 < k ∧ (k - 1).toNatClampNeg = n := by
  have hk := k.toInt_lt
  rw [← Int32.toNat_toInt] at h ⊢
  have h1 : (k - 1).toInt = k.toInt - 1 := by
    rw [Int32.toInt_sub]
    exact Int.bmod_eq_of_le (by simp; omega) (by simp; omega)
  refine ⟨?_, by rw [h1]; omega⟩
  rw [Int32.lt_iff_toInt_lt]
  simp
  omega

/-- The rounds of a loop, while the counter runs down to zero. -/
theorem rounds {f : Nat → Exec Unit} (hC : R.Counts)
    (hf : ∀ n p, p ≤ maxIndex → Keeps (R.atLoop n).Holds (f p) Anything) (n : Nat) {m : Machine}
    (hm : R.Holds m) (hn : m.graphics.loop.toNatClampNeg = n) :
    match Exec.forLoop.rounds f n m with
    | .ok _ m' => R.Holds m'
    | .error e m' => ¬e.Foreign ∧ R.Holds m' := by
  induction n generalizing m with
  | zero => exact hm
  | succ n ih =>
    have weaken : ∀ {m' : Machine}, (R.atLoop m.graphics.loop).Holds m' → R.Holds m' :=
      fun h => ⟨h.initial, h.graphics.1, h.twilight, h.glyph⟩
    have hk : (R.atLoop m.graphics.loop).Holds m :=
      ⟨hm.initial, ⟨hm.graphics, rfl⟩, hm.twilight, hm.glyph⟩
    rw [Exec.forLoop.rounds]
    cases hp : Exec.popIndex m with
    | error e m₁ =>
      rw [bind_of_error hp]
      exact popIndex.error hm hp
    | ok p m₁ =>
      obtain ⟨hpm, hm₁⟩ := popIndex.ok hk hp
      rw [bind_of_ok hp]
      cases hx : f p m₁ with
      | error e m₂ =>
        rw [bind_of_error hx]
        have h := (hf _ p hpm).error hm₁ hx
        exact ⟨h.1, weaken h.2⟩
      | ok u m₂ =>
        have hm₂ := ((hf _ p hpm).ok hm₁ hx).2
        obtain ⟨hpos, hdown⟩ := countDown_toNat hn
        have hl : m₂.graphics.loop = m.graphics.loop := hm₂.graphics.2
        rw [bind_of_ok hx]
        refine ih (m := { m₂ with graphics := { m₂.graphics with loop := m₂.graphics.loop - 1 } })
          ⟨hm₂.initial, ?_, hm₂.twilight, hm₂.glyph⟩ (by rw [← hdown, ← hl])
        exact hC.countDown _ hm₂.graphics.1 (by rw [hl]; exact hpos)

/-- A loop keeps a regime if its body keeps it whatever the counter is. -/
theorem forLoop {f : Nat → Exec Unit} (hC : R.Counts)
    (hf : ∀ n p, p ≤ maxIndex → Keeps (R.atLoop n).Holds (f p) Anything) :
    Keeps R.Holds (Exec.forLoop f) Anything := by
  intro m hm
  have hr := rounds hC hf _ hm rfl
  rw [Exec.forLoop, bind_of_ok (x := Exec.graphics) rfl]
  cases hx : Exec.forLoop.rounds f m.graphics.loop.toNatClampNeg m with
  | error e m' =>
    rw [hx] at hr
    rw [bind_of_error hx]
    exact hr
  | ok u m' =>
    rw [hx] at hr
    rw [bind_of_ok hx]
    exact ⟨trivial, hr.initial, hC.loop _ 1 hr.graphics (by decide) (by decide), hr.twilight, hr.glyph⟩

/-! ### Settings -/

theorem popLine (perpendicular : Bool) : Keeps R.Holds (Exec.popLine perpendicular) Anything :=
  popIndex.bind fun p _ => popIndex.bind fun q _ => readGraphics.bind fun _ _ =>
    (onZone (point p)).bind fun _ _ => (onZone (point q)).bind fun _ _ => .pure trivial

theorem popDirection : Keeps R.Holds Exec.popDirection Anything :=
  pop.bind fun _ _ => pop.bind fun _ _ => .pure trivial

theorem pointOrOrigin {zp : ZonePointer} (p : Nat) :
    Keeps (R.zone zp) (Exec.pointOrOrigin p) Anything :=
  Keeps.get.bind fun _ _ => .pure trivial

theorem dualProjectionToLine (hU : R.Updates) (perpendicular : Bool) :
    Keeps R.Holds (Exec.dualProjectionToLine perpendicular) Anything :=
  popIndex.bind fun p _ => popIndex.bind fun q _ => readGraphics.bind fun _ _ =>
    (onZone (scaled p)).bind fun _ _ => (onZone (scaled q)).bind fun _ _ =>
    (onZone (pointOrOrigin p)).bind fun _ _ => (onZone (pointOrOrigin q)).bind fun _ _ =>
    modifyGraphics hU fun g => .vectors _ g.fv _

theorem pushVector (v : Vec) : Keeps R.Holds (Exec.pushVector v) Anything :=
  (push _).bind fun _ _ => push _

theorem popZone : Keeps R.Holds Exec.popZone Anything := by
  refine pop.bind fun v _ => ?_
  cases ZonePointer.ofOperand? v with
  | none => exact .throw nofun
  | some z => exact .pure trivial

theorem setLoop (hU : R.Updates) : Keeps R.Holds Exec.setLoop Anything := by
  refine pop.bind fun n _ => .guarded nofun fun hn => modifyGraphics hU fun g => .loop ?_ ?_
  · split
    · decide
    · exact Int32.not_lt.1 hn
  · split
    · decide
    · exact Int32.not_lt.1 ‹_›

theorem setScalar (hU : R.Updates) (s : Scalar) : Keeps R.Holds (Exec.setScalar s) Anything := by
  refine pop.bind fun v _ => ?_
  cases s with
  | minDistance =>
    exact modifyGraphics hU fun g =>
      .scalars v g.cutIn g.singleWidthCutIn g.singleWidth g.deltaBase g.autoFlip
  | cutIn =>
    exact modifyGraphics hU fun g =>
      .scalars g.minDistance v g.singleWidthCutIn g.singleWidth g.deltaBase g.autoFlip
  | singleWidthCutIn =>
    exact modifyGraphics hU fun g =>
      .scalars g.minDistance g.cutIn v g.singleWidth g.deltaBase g.autoFlip
  | singleWidth =>
    exact modifyGraphics hU fun g =>
      .scalars g.minDistance g.cutIn g.singleWidthCutIn _ g.deltaBase g.autoFlip
  | deltaBase =>
    exact modifyGraphics hU fun g =>
      .scalars g.minDistance g.cutIn g.singleWidthCutIn g.singleWidth v g.autoFlip
  | deltaShift =>
    refine .guarded nofun fun hv => ?_
    rw [not_or] at hv
    exact modifyGraphics hU fun g => .deltaShift (Int32.not_lt.1 hv.1) (Int32.not_lt.1 hv.2)

theorem setSuperRound (hU : R.Updates) (diagonal : Bool) :
    Keeps R.Holds (Exec.setSuperRound diagonal) Anything := by
  refine pop.bind fun v _ => ?_
  cases diagonal with
  | false => exact modifyGraphics hU fun g => .super v
  | true => exact modifyGraphics hU fun g => .super45 v

theorem getInfo : Keeps R.Holds Exec.getInfo Anything :=
  pop.bind fun _ _ => readGraphics.bind fun _ _ => Keeps.get.bind fun _ _ => push _

theorem instructControl (hU : R.Updates) : Keeps R.Holds Exec.instructControl Anything := by
  refine pop.bind fun selector _ => pop.bind fun value _ => ?_
  cases hb : Exec.controlBit? selector with
  | none => exact .pure trivial
  | some bit =>
    intro m hm
    -- the condition is read off the very state that changes
    dsimp only
    rw [bind_of_ok (x := get) rfl, bind_of_ok (x := Exec.graphics) rfl]
    by_cases hc : m.flow.initial = .controlValue ∧ (value = 0 ∨ value = Bytes.zeroExtend bit) ∧
        ¬(decide (bit = InstructControl.nativeClearType) = true ∧ m.graphics.mode.linearMetrics = true)
    · rw [if_pos hc]
      refine ⟨trivial, hm.initial, hU m.graphics _ hm.graphics ?_, hm.twilight, hm.glyph⟩
      exact .control selector _ (hm.initial ▸ hc.1) hb fun h => hc.2.2 ⟨decide_eq_true h.1, h.2⟩
    · rw [if_neg hc]
      exact ⟨trivial, hm⟩

/-! ### Tables and measurements -/

theorem readStore : Keeps R.Holds Exec.readStore Anything :=
  popIndex.bind fun _ _ => (stored _).bind fun v _ => push v

theorem writeStore : Keeps R.Holds Exec.writeStore Anything :=
  pop.bind fun _ _ => popIndex.bind fun _ _ => setStored _ _

theorem readControlValue : Keeps R.Holds Exec.readControlValue Anything :=
  popIndex.bind fun _ _ => (controlValue _).bind fun v _ => push v

theorem writeControlValue (inUnits : Bool) :
    Keeps R.Holds (Exec.writeControlValue inUnits) Anything :=
  pop.bind fun _ _ => popIndex.bind fun _ _ => readGraphics.bind fun _ _ => setControlValue _ _

theorem getCoordinate (unhinted : Bool) : Keeps R.Holds (Exec.getCoordinate unhinted) Anything := by
  refine popIndex.bind fun p _ => readGraphics.bind fun g _ => ?_
  cases unhinted with
  | true => exact (onZone (scaled p)).bind fun _ _ => push _
  | false => exact (onZone (point p)).bind fun _ _ => push _

theorem setCoordinate (hE : R.Edits i) : Keeps R.Holds Exec.setCoordinate Anything := by
  refine pop.bind fun k _ => popIndex.bind fun p _ => readGraphics.bind fun g hg => onZone ?_
  refine (point p).bind fun c hp => (move hE hg p _).bind fun _ _ => .ite (fun hz => ?_) fun _ =>
    .pure trivial
  refine (pointAt hp).bind fun c _ => ?_
  rw [hz] at hp ⊢
  exact modifyScaled hp _

theorem hasUnits (zp : ZonePointer) : Keeps R.Holds (Exec.hasUnits zp) Anything :=
  onZone (Keeps.get.bind fun _ _ => .pure trivial)

theorem unhintedDistance (za : ZonePointer) (a : Nat) (zb : ZonePointer) (b : Nat) :
    Keeps R.Holds (Exec.unhintedDistance za a zb b) Anything :=
  readGraphics.bind fun _ _ => (hasUnits .glyph).bind fun _ _ =>
    .ite (fun _ => (onZone (unscaled a)).bind fun _ _ => (onZone (unscaled b)).bind fun _ _ =>
        .pure trivial)
      fun _ => (onZone (scaled a)).bind fun _ _ => (onZone (scaled b)).bind fun _ _ => .pure trivial

theorem measureDistance (current : Bool) :
    Keeps R.Holds (Exec.measureDistance current) Anything := by
  refine popIndex.bind fun k _ => popIndex.bind fun l _ => readGraphics.bind fun g _ => ?_
  cases current with
  | true => exact (onZone (point l)).bind fun _ _ => (onZone (point k)).bind fun _ _ => push _
  | false => exact (unhintedDistance _ _ _ _).bind fun d _ => push d

/-! ### Placing points -/

theorem setAbsoluteReferences (hU : R.Updates) {p : Nat} (hp : p ≤ maxIndex) :
    Keeps R.Holds (Exec.setAbsoluteReferences p) Anything :=
  modifyGraphics hU fun _ => .absoluteReferences hp

theorem setRelativeReferences (hU : R.Updates) {p : Nat} (hp : p ≤ maxIndex) (sets : Bool) :
    Keeps R.Holds (Exec.setRelativeReferences p sets) Anything :=
  modifyGraphics hU fun _ => .relativeReferences sets hp

theorem moveDirectAbsolute (hU : R.Updates) (hE : R.Edits i) (rounds : Bool) :
    Keeps R.Holds (Exec.moveDirectAbsolute rounds) Anything :=
  popIndex.bind fun p hp => readGraphics.bind fun _ hg =>
    (onZone ((point p).bind fun _ _ => move hE hg p _)).bind fun _ _ => setAbsoluteReferences hU hp

theorem moveIndirectAbsolute (hU : R.Updates) (hE : R.Edits i) (rounds : Bool) :
    Keeps R.Holds (Exec.moveIndirectAbsolute rounds) Anything := by
  refine popIndex.bind fun n _ => popIndex.bind fun p hp => (controlValue n).bind fun v _ =>
    readGraphics.bind fun g hg => (onZone (q := Anything) ?_).bind fun _ _ =>
    setAbsoluteReferences hU hp
  refine (check p).bind fun _ hc => .whenever (fun hz => ?_) fun _ => (pointAt hc).bind fun _ _ =>
    move hE hg p _
  rw [hz] at hc ⊢
  exact place hc _

theorem moveDirectRelative (hU : R.Updates) (hE : R.Edits i) (r : RelativeMove) :
    Keeps R.Holds (Exec.moveDirectRelative r) Anything :=
  popIndex.bind fun p hp => readGraphics.bind fun _ hg => (onZone (point _)).bind fun _ _ =>
    (onZone (point p)).bind fun _ _ => (unhintedDistance _ _ _ _).bind fun _ _ =>
    (onZone (move hE hg p _)).bind fun _ _ => setRelativeReferences hU hp _

theorem controlDistance (n : Int32) : Keeps R.Holds (Exec.controlDistance n) Anything :=
  .ite (fun _ => .pure trivial) fun _ => controlValue _

theorem moveIndirectRelative (hU : R.Updates) (hE : R.Edits i) (r : RelativeMove) :
    Keeps R.Holds (Exec.moveIndirectRelative r) Anything := by
  refine pop.bind fun n _ => popIndex.bind fun p hp => readGraphics.bind fun g hg =>
    (controlDistance n).bind fun _ _ => (onZone (check g.rp0)).bind fun _ h0 =>
    (onZone (check p)).bind fun _ h1 => .whenever₂ (fun _ => onZone (scaledAt h0))
      (fun hz _ _ => onZone ?_) fun _ => ?_
  · rw [hz] at h1 ⊢
    exact place h1 _
  · exact (onZone (scaledAt h1)).bind fun _ _ => (onZone (scaledAt h0)).bind fun _ _ =>
      (onZone (pointAt h1)).bind fun _ _ => (onZone (pointAt h0)).bind fun _ _ =>
      (onZone (move hE hg p _)).bind fun _ _ => setRelativeReferences hU hp _

theorem moveStackRelative (hU : R.Updates) (hE : R.Edits i) (setsReference : Bool) :
    Keeps R.Holds (Exec.moveStackRelative setsReference) Anything := by
  refine pop.bind fun d _ => popIndex.bind fun p hp => readGraphics.bind fun g hg =>
    (onZone (point g.rp0)).bind fun ref h0 => (onZone (check p)).bind fun _ h1 =>
    .whenever₂ (fun _ => onZone (scaledAt h0)) (fun hz _ _ => onZone ?_) fun _ =>
      (onZone ((pointAt h1).bind fun _ _ => move hE hg p _)).bind fun _ _ =>
        setRelativeReferences hU hp _
  rw [hz] at h1 ⊢
  exact (modifyScaled h1 _).bind fun _ _ => (moveScaled h1 g _).bind fun _ _ => resetPoint h1

theorem alignToReference (hU : R.Updates) (hE : R.Edits i) :
    Keeps R.Holds Exec.alignToReference Anything :=
  readGraphics.bind fun g hg => (onZone (point g.rp0)).bind fun _ _ => forLoop hU.counts fun _ p _ =>
    onZone (R := R.atLoop _) ((point (R := R) p).bind fun _ _ => move hE hg p _)

theorem alignPoints (hE : R.Edits i) : Keeps R.Holds Exec.alignPoints Anything :=
  popIndex.bind fun p2 _ => popIndex.bind fun p1 _ => readGraphics.bind fun _ hg =>
    (onZone (point p2)).bind fun _ _ => (onZone (point p1)).bind fun _ _ =>
    (onZone (move hE hg p1 _)).bind fun _ _ => onZone (move hE hg p2 _)

theorem moveToIntersection (hE : R.Edits .isect) : Keeps R.Holds Exec.moveToIntersection Anything :=
  popIndex.bind fun b1 _ => popIndex.bind fun b0 _ => popIndex.bind fun a1 _ =>
    popIndex.bind fun a0 _ => popIndex.bind fun p _ => readGraphics.bind fun _ hg =>
    (onZone (check p)).bind fun _ hp => (onZone (point a0)).bind fun _ _ =>
    (onZone (point a1)).bind fun _ _ => (onZone (point b0)).bind fun _ _ =>
    (onZone (point b1)).bind fun _ _ =>
    onZone ((modifyPoint hp hE hg fun _ _ => .intersect p _ rfl).bind fun _ _ =>
      touch hp hE hg (by decide))

theorem referenceRange (g : Graphics) (base : Point) :
    Keeps R.Holds (Exec.referenceRange g base) Anything := by
  refine (onZone (q := Anything) (Keeps.get.bind fun _ _ => .pure trivial)).bind fun c _ => ?_
  cases c with
  | none => exact .pure trivial
  | some c => exact (unhintedDistance _ _ _ _).bind fun _ _ => .pure trivial

theorem interpolatePoints (hU : R.Updates) (hE : R.Edits i) :
    Keeps R.Holds Exec.interpolatePoints Anything :=
  readGraphics.bind fun g hg => (onZone (point g.rp1)).bind fun base _ =>
    (referenceRange g base).bind fun _ _ => forLoop hU.counts fun _ p _ =>
    (onZone (point p)).bind fun _ _ => (unhintedDistance _ _ _ _).bind fun _ _ =>
    onZone (R := R.atLoop _) (move (R := R) hE hg p _)

/-! ### Shifting, marking and interpolating points -/

theorem displacement (first : Bool) : Keeps R.Holds (Exec.displacement first) Anything :=
  readGraphics.bind fun _ _ => (onZone (point _)).bind fun _ _ => (onZone (scaled _)).bind fun _ _ =>
    .pure trivial

theorem shiftPoints (hU : R.Updates) (hE : R.Edits i) (first : Bool) :
    Keeps R.Holds (Exec.shiftPoints first) Anything :=
  (displacement first).bind fun _ _ => readGraphics.bind fun _ hg => forLoop hU.counts fun _ p _ =>
    onZone (R := R.atLoop _) (shift (R := R) hE hg p _ true)

theorem shiftRange (hE : R.Edits i) (d : Exec.Displacement) (first stop : Nat) :
    Keeps R.Holds (Exec.shiftRange d first stop) Anything :=
  readGraphics.bind fun _ hg => onZone (.forM fun k _ =>
    .ite (fun _ => shift hE hg k _ false) fun _ => .pure trivial)

theorem shiftContour (hE : R.Edits i) (first : Bool) :
    Keeps R.Holds (Exec.shiftContour first) Anything :=
  (displacement first).bind fun d _ => popIndex.bind fun c _ => readGraphics.bind fun _ _ =>
    (onZone (contour c)).bind fun _ _ => shiftRange hE d _ _

theorem shiftLimit {zp : ZonePointer} (z : ZonePointer) :
    Keeps (R.zone zp) (Exec.shiftLimit z) Anything := by
  refine Keeps.get.bind fun zone _ => ?_
  cases z with
  | twilight => exact .pure trivial
  | glyph => exact .guarded nofun fun _ => .pure trivial

theorem shiftZone (hE : R.Edits i) (first : Bool) : Keeps R.Holds (Exec.shiftZone first) Anything :=
  (displacement first).bind fun d _ => pop.bind fun _ _ => .guarded nofun fun _ =>
    readGraphics.bind fun _ _ => (onZone (shiftLimit _)).bind fun _ _ => shiftRange hE d _ _

theorem allowsException {zp : ZonePointer} {p : Nat} (g : Graphics) (hp : p < R.size zp) :
    Keeps (R.zone zp) (Exec.allowsException g p) Anything :=
  .ite (fun _ => .pure trivial) fun _ => .ite (fun _ => .pure trivial) fun _ =>
    (flagsAt hp).bind fun _ _ => .pure trivial

theorem shiftByPixels (hU : R.Updates) (hE : R.Edits i) :
    Keeps R.Holds Exec.shiftByPixels Anything := by
  refine pop.bind fun amount _ => readGraphics.bind fun g hg => forLoop hU.counts fun n p _ =>
    onZone (R := R.atLoop n) ((check (R := R) p).bind fun _ hp => ?_)
  refine .ite (fun _ => shift hE hg p _ true) fun _ => .ite (fun _ => shift hE hg p _ true) fun _ =>
    (allowsException g hp).bind fun _ _ => .ite (fun _ => shift hE hg p _ true) fun _ => .pure trivial

/-- The marks of the axes in which a vector points are hinting flags. -/
theorem diff_axisMarks (c c' : Prop) [Decidable c] [Decidable c'] :
    PointFlags.diff ((if c then PointFlags.touchedX else {}).union
      (if c' then PointFlags.touchedY else {})) .hintingMask = {} := by
  split <;> split <;> decide

theorem untouch (hE : R.Edits i) : Keeps R.Holds Exec.untouch Anything :=
  popIndex.bind fun p _ => readGraphics.bind fun _ hg => onZone ((check p).bind fun _ hp =>
    modifyFlags hp hE hg fun _ _ => .unmark p (diff_axisMarks _ _))

theorem flipPoints (hC : R.Counts) (hE : R.Edits .flippt) :
    Keeps R.Holds Exec.flipPoints Anything :=
  readGraphics.bind fun _ hg => forLoop hC fun n p _ => onZone (R := R.atLoop n)
    ((check (R := R) p).bind fun _ hp => .ite (fun hf => modifyFlags hp hE hg fun hz _ =>
      .flip p _ rfl (by simpa using hf) hz) fun _ => .pure trivial)

theorem flipRange {on : Bool} (hE : R.Edits (.fliprg on)) :
    Keeps R.Holds (Exec.flipRange on) Anything := by
  refine popIndex.bind fun hi _ => popIndex.bind fun lo _ => readGraphics.bind fun g hg =>
    .ite (fun hf => onZone ?_) fun _ => .pure trivial
  refine Keeps.get.bind fun z hz => .guarded nofun fun hr => forPoints fun k _ hk => ?_
  have hk : k < R.size g.zp0 := by
    rw [(regular hz).points] at hr
    omega
  exact modifyFlags hk hE hg fun hz' _ => .flip k _ rfl (by simpa using hf) hz'

theorem popCount : Keeps R.Holds Exec.popCount Anything :=
  pop.bind fun _ _ => .guarded nofun fun _ => .pure trivial

theorem deltaPoints (hE : R.Edits i) (start : Int32) :
    ∀ n, Keeps R.Holds (Exec.deltaPoints start n) Anything
  | 0 => .pure trivial
  | n + 1 => by
    refine popIndex.bind fun p _ => pop.bind fun arg _ => readGraphics.bind fun g hg =>
      (onZone (q := Anything) ((check p).bind fun _ hp => ?_)).bind fun _ _ => deltaPoints hE start n
    cases g.deltaAmount? arg start with
    | none => exact .pure trivial
    | some d =>
      have apply : ∀ allowed : Bool, Keeps (R.zone g.zp0) (if allowed then do
          ZoneM.move g p d
          ZoneM.touch p .hasDelta else pure ()) Anything := fun _ =>
        .ite (fun _ => (move hE hg p d).bind fun _ _ => touch hp hE hg (by decide)) fun _ =>
          .pure trivial
      exact .ite (fun _ => (allowsException g hp).bind fun b _ => apply b) fun _ => apply true

theorem deltaControlValues (start : Int32) :
    ∀ n, Keeps R.Holds (Exec.deltaControlValues start n) Anything
  | 0 => .pure trivial
  | n + 1 => by
    refine popIndex.bind fun k _ => pop.bind fun arg _ => readGraphics.bind fun g _ => ?_
    dsimp only
    cases g.deltaAmount? arg start with
    | none => exact deltaControlValues start n
    | some d =>
      exact (controlValue _).bind fun _ _ => (setControlValue _ _).bind fun _ _ =>
        deltaControlValues start n

theorem interpolateGlyph (hU : R.Updates) {a : Axis} (hE : R.Edits (.iup a)) :
    Keeps R.Holds (Exec.interpolateUntouched a) Anything := by
  intro m hm
  rw [Exec.interpolateUntouched, bind_of_ok (x := Exec.graphics) rfl]
  by_cases hf : (!m.graphics.isFrozen) = true
  · have hz : Keeps R.Holds (Exec.onZone .glyph (ZoneM.interpolateUntouched a)) Anything :=
      onZone (interpolateUntouched hE hm.graphics (by simpa using hf))
    rw [if_pos hf]
    by_cases hb : m.graphics.backwardCompatible
    · rw [if_pos hb, bind_of_ok (x := Exec.modifyGraphics _) rfl]
      exact hz _ ⟨hm.initial, hU _ _ hm.graphics (.interpolated a hb), hm.twilight, hm.glyph⟩
    · rw [if_neg hb]
      exact hz m hm
  · rw [if_neg hf]
    exact ⟨trivial, hm⟩

theorem discardPop : Keeps R.Holds (discard Exec.pop) Anything := pop.map fun _ _ => trivial

/-! ### All instructions -/

theorem execute (hU : R.Updates) (hE : R.Edits i) (hi : i.roundsSimply) :
    Keeps R.Holds (Exec.execute i) Anything := by
  by_cases hc : ¬i.isPlain
  · exact control.execute hc
  have hp := Decidable.of_not_not hc
  cases i <;> first | (cases hp; done) | rw [Exec.execute]
  case svtca a => exact modifyGraphics hU fun g => .vectors _ _ _
  case spvtca a => exact modifyGraphics hU fun g => .vectors _ g.fv _
  case sfvtca a => exact modifyGraphics hU fun g => .vectors g.pv _ g.dv
  case spvtl perpendicular =>
    exact (popLine perpendicular).bind fun v _ => modifyGraphics hU fun g => .vectors v g.fv v
  case sfvtl perpendicular =>
    exact (popLine perpendicular).bind fun v _ => modifyGraphics hU fun g => .vectors g.pv v g.dv
  case spvfs => exact popDirection.bind fun v _ => modifyGraphics hU fun g => .vectors v g.fv v
  case sfvfs => exact popDirection.bind fun v _ => modifyGraphics hU fun g => .vectors g.pv v g.dv
  case gpv => exact readGraphics.bind fun _ _ => pushVector _
  case gfv => exact readGraphics.bind fun _ _ => pushVector _
  case sfvtpv => exact modifyGraphics hU fun g => .vectors g.pv g.pv g.dv
  case isect => exact moveToIntersection hE
  case srp k => exact popIndex.bind fun p hp => modifyGraphics hU fun g => .reference k hp
  case szp k => exact popZone.bind fun z _ => modifyGraphics hU fun g => .zone k z
  case szps => exact popZone.bind fun z _ => modifyGraphics hU fun g => .zones z
  case sloop => exact setLoop hU
  case setRound mode => exact modifyGraphics hU fun g => .roundMode hi
  case sround diagonal => exact setSuperRound hU diagonal
  case setScalar s => exact setScalar hU s
  case autoFlip on =>
    exact modifyGraphics hU fun g =>
      .scalars g.minDistance g.cutIn g.singleWidthCutIn g.singleWidth g.deltaBase on
  case endIf => exact .pure trivial
  case dup => exact onStack (StackM.keeps_peek.bind fun v _ => StackM.keeps_push v)
  case pop => exact discardPop
  case clear => exact onStack (.modify fun _ _ => trivial)
  case swap => exact onStack StackM.keeps_swap
  case depth =>
    exact onStack (StackM.keeps_size.bind fun _ _ => StackM.keeps_push _)
  case cindex =>
    exact onStack (StackM.keeps_pop.bind fun k _ => (StackM.keeps_nth k).bind fun v _ =>
      StackM.keeps_push v)
  case mindex =>
    exact onStack (StackM.keeps_pop.bind fun k _ => (StackM.keeps_nth k).bind fun _ _ =>
      StackM.keeps_move _)
  case roll => exact onStack (StackM.keeps_move 3)
  case debug => exact discardPop
  case sangw => exact discardPop
  case aa => exact discardPop
  case scanctrl => exact discardPop
  case scantype => exact discardPop
  case alignpts => exact alignPoints hE
  case utp => exact untouch hE
  case mdap rounds => exact moveDirectAbsolute hU hE rounds
  case miap rounds => exact moveIndirectAbsolute hU hE rounds
  case iup a => exact interpolateGlyph hU hE
  case shp first => exact shiftPoints hU hE first
  case shc first => exact shiftContour hE first
  case shz first => exact shiftZone hE first
  case shpix => exact shiftByPixels hU hE
  case ip => exact interpolatePoints hU hE
  case msirp setsReference => exact moveStackRelative hU hE setsReference
  case alignrp => exact alignToReference hU hE
  case ws => exact writeStore
  case rs => exact readStore
  case wcvtp => exact writeControlValue false
  case wcvtf => exact writeControlValue true
  case rcvt => exact readControlValue
  case gc unhinted => exact getCoordinate unhinted
  case scfs => exact setCoordinate hE
  case md current => exact measureDistance current
  case mppem => exact readGraphics.bind fun _ _ => push _
  case mps => exact readGraphics.bind fun _ _ => push _
  case binary op => exact onStack (StackM.keeps_apply2 op.not_foreign_of_eval)
  case unary op => exact readGraphics.bind fun _ _ => onStack (StackM.keeps_apply1 _)
  case deltap range => exact popCount.bind fun n _ => deltaPoints hE _ n
  case deltac range => exact popCount.bind fun n _ => deltaControlValues _ n
  case flippt => exact flipPoints hU.counts hE
  case fliprg on => exact flipRange hE
  case sdpvtl perpendicular => exact dualProjectionToLine hU perpendicular
  case getinfo => exact getInfo
  case instctrl => exact instructControl hU
  case mdrp m => exact moveDirectRelative hU hE m
  case mirp m => exact moveIndirectRelative hU hE m

/-- A regime that survives what instructions do holds throughout a run. -/
theorem steady (hU : R.Updates) (hE : ∀ i, R.Edits i) : Machine.Steady (· ≠ .breach) R.Holds :=
  .of_keeps control.next
    fun b => execute hU (hE _) (Instruction.roundsSimply_ofByte b)

end GridFit.Regime
