import GridFit.Machine.Step
import GridFit.Proofs.Faults
import GridFit.Proofs.Opcode

/-!
# What instructions may change

`Graphics.Update` lists the changes that instructions make to the graphics state, and `Zone.Edit`
those that they make to the glyph zone, each with the condition under which it is made. A `Regime`
is a property of the graphics state and of the glyph zone. If it survives these changes, every
instruction keeps it (`Regime.execute`): what holds of the whole instruction set is then
proved by cases over a short list.

A regime comes with the number of points of each zone. The arrays of a zone have a place for each of
them (`Zone.Regular`), so an index that has been checked against one array is good for all.
-/

namespace GridFit

/-- The changes that instructions make to the graphics state, in a run of the program `initial`. -/
inductive Graphics.Update (initial : Program) (g : Graphics) : Graphics → Prop
  | vectors (pv fv dv : Vec) :
      Update initial g ({ g with pv := pv, fv := fv, dv := dv } : Graphics).updateProjection
  | reference (k : Fin 3) {p : Nat} : p ≤ maxIndex → Update initial g (g.withReference k p)
  | absoluteReferences {p : Nat} : p ≤ maxIndex → Update initial g { g with rp0 := p, rp1 := p }
  | relativeReferences {p : Nat} (sets : Bool) : p ≤ maxIndex →
      Update initial g { g with rp0 := if sets then p else g.rp0, rp1 := g.rp0, rp2 := p }
  | zone (k : Fin 3) (z : ZonePointer) : Update initial g (g.withZone k z)
  | zones (z : ZonePointer) : Update initial g { g with zp0 := z, zp1 := z, zp2 := z }
  | loop {n : Int32} : 0 ≤ n → n ≤ 0xffff → Update initial g { g with loop := n }
  | countDown : 0 < g.loop → Update initial g { g with loop := g.loop - 1 }
  | roundMode {mode : RoundMode} : mode.isSimple →
      Update initial g { g with round := { g.round with mode := mode } }
  | super (selector : Int32) :
      Update initial g { g with round := .ofSelector RoundState.squareGrid selector .super }
  | super45 (selector : Int32) :
      Update initial g { g with round := .ofSelector RoundState.diagonalGrid selector .super45 }
  | scalars (minDistance cutIn singleWidthCutIn singleWidth deltaBase : Int32) (autoFlip : Bool) :
      Update initial g
        { g with
          minDistance := minDistance, cutIn := cutIn, singleWidthCutIn := singleWidthCutIn
          singleWidth := singleWidth, deltaBase := deltaBase, autoFlip := autoFlip }
  | deltaShift {v : Int32} : 0 ≤ v → v ≤ 6 → Update initial g { g with deltaShift := v }
  | control {bit : UInt8} (selector : Int32) (on : Bool) : initial = .controlValue →
      Exec.controlBit? selector = some bit →
      ¬(bit = InstructControl.nativeClearType ∧ g.mode.linearMetrics) →
      Update initial g (Exec.setControl g bit on)
  | interpolated (a : Axis) : g.backwardCompatible → Update initial g (g.withInterpolated a)

/-- Whether an instruction puts points on or off the curve. -/
def Instruction.flips : Instruction → Bool
  | .flippt | .fliprg _ => true
  | _ => false

/-- The changes that the instruction `i` makes to the glyph zone, if it is executed in the graphics
state `g`. -/
inductive Zone.Edit (i : Instruction) (g : Graphics) (z : Zone) : Zone → Prop
  | moveX (p : Nat) (d : Int32) : ¬g.backwardCompatible →
      Edit i g z { z with points := z.points.modify p fun q => { q with x := q.x + d } }
  | moveY (p : Nat) (d : Int32) : ¬g.isFrozen →
      Edit i g z { z with points := z.points.modify p fun q => { q with y := q.y + d } }
  | mark (p : Nat) {f : PointFlags} : f.diff .hintingMask = {} →
      Edit i g z { z with flags := z.flags.modify p (·.union f) }
  | unmark (p : Nat) {f : PointFlags} : f.diff .hintingMask = {} →
      Edit i g z { z with flags := z.flags.modify p (·.diff f) }
  | flip (p : Nat) (f : PointFlags → PointFlags) : i.flips → ¬g.isFrozen → g.zp0 = .glyph →
      Edit i g z { z with flags := z.flags.modify p f }
  | intersect (p : Nat) (q : Point) : i = .isect →
      Edit i g z { z with points := z.points.modify p fun _ => q }
  | interpolate (a : Axis) (p : Nat) (v : Int32) : i = .iup a → ¬g.isFrozen →
      Edit i g z { z with points := z.points.modify p (·.withCoord a v) }

/-- A zone with a place for each of `n` points in all its arrays. -/
structure Zone.Regular (z : Zone) (n : Nat) : Prop where
  scaled : z.scaled.size = n
  points : z.points.size = n
  flags : z.flags.size = n

/-- A property of the graphics state and one of the glyph zone, in a run of the program `initial` on
zones with `size` points. -/
structure Regime where
  initial : Program
  size : ZonePointer → Nat
  graphics : Graphics → Prop
  glyph : Zone → Prop

namespace Regime

variable (R : Regime)

/-- What a regime says of a zone. -/
def zone : ZonePointer → Zone → Prop
  | .twilight, z => z.Regular (R.size .twilight)
  | .glyph, z => z.Regular (R.size .glyph) ∧ R.glyph z

/-- What a regime says of a machine. -/
structure Holds (m : Machine) : Prop where
  initial : m.flow.initial = R.initial
  graphics : R.graphics m.graphics
  twilight : R.zone .twilight m.twilight
  glyph : R.zone .glyph m.glyph

/-- The regime survives what instructions do to the graphics state. -/
def Updates : Prop :=
  ∀ g g' : Graphics, R.graphics g → g.Update R.initial g' → R.graphics g'

/-- The regime survives what a loop does to its counter. -/
structure Counts : Prop where
  loop : ∀ (g : Graphics) (n : Int32), R.graphics g → 0 ≤ n → n ≤ 0xffff →
    R.graphics { g with loop := n }
  countDown : ∀ g : Graphics, R.graphics g → 0 < g.loop → R.graphics { g with loop := g.loop - 1 }

/-- The regime survives what the instruction `i` does to the glyph zone. -/
def Edits (i : Instruction) : Prop :=
  ∀ (g : Graphics) (z z' : Zone), R.graphics g → R.glyph z → z.Edit i g z' → R.glyph z'

/-- The regime with a fixed loop counter. -/
def atLoop (n : Int32) : Regime := { R with graphics := fun g => R.graphics g ∧ g.loop = n }

variable {R}

theorem Updates.counts (hU : R.Updates) : R.Counts where
  loop g _ hg h0 h1 := hU g _ hg (.loop h0 h1)
  countDown g hg h0 := hU g _ hg (.countDown h0)

theorem regular {zp : ZonePointer} {z : Zone} (h : R.zone zp z) : z.Regular (R.size zp) :=
  match zp, h with
  | .twilight, h => h
  | .glyph, h => h.1

/-- A change of the flags or of the hinted positions that is an edit keeps the zone. -/
theorem zone_edit {zp : ZonePointer} {i : Instruction} {g : Graphics} {z z' : Zone}
    (hE : R.Edits i) (hg : R.graphics g) (hz : R.zone zp z) (hr : z'.Regular (R.size zp))
    (he : zp = .glyph → z.Edit i g z') : R.zone zp z' :=
  match zp, hz with
  | .twilight, _ => hr
  | .glyph, hz => ⟨hr, hE g z z' hg hz.2 (he rfl)⟩

end Regime

end GridFit
