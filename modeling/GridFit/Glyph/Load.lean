import GridFit.Glyph.Record
import GridFit.Hinter

/-!
# Loading glyphs

A glyph is scaled to a size and hinted. A simple glyph is hinted by its own program. The program of
a compound glyph runs after its components have been loaded, over the points of all of them. A
program that fails leaves the points of its glyph unhinted.
-/

namespace GridFit

/-- The points of a glyph in three forms, and the ends of its contours. -/
structure Contours where
  points : Array GlyphPoint := #[]
  unhinted : Array GlyphPoint := #[]
  units : Array GlyphPoint := #[]
  ends : Array Nat := #[]
  size_unhinted : unhinted.size = points.size := by rfl
  size_units : units.size = points.size := by rfl
deriving DecidableEq, Repr

instance : Inhabited Contours := ⟨{}⟩

/-- The contours of `a` followed by those of `b`. -/
def Contours.append : Contours → Contours → Contours
  | ⟨points, unhinted, units, ends, h₁, h₂⟩, b =>
    let n := points.size
    { points := points ++ b.points
      unhinted := unhinted ++ b.unhinted
      units := units ++ b.units
      ends := ends ++ b.ends.map (n + ·)
      size_unhinted := by rw [Array.size_append, Array.size_append, h₁, b.size_unhinted]
      size_units := by rw [Array.size_append, Array.size_append, h₂, b.size_units] }

/-- A glyph on its way to being loaded, or a component of one. -/
structure Piece where
  contours : Contours
  origin : Int32
  advance : Int32
  bounds : Bounds
deriving DecidableEq, Repr, Inhabited

structure Glyph where
  advance : Int32
  bounds : Bounds
  contours : Contours
  /-- The error of the last program that failed. -/
  hintError : Option HintError
deriving DecidableEq, Repr

namespace Glyph

/-- The number of glyphs from a compound glyph to its innermost component, at most. -/
def maxDepth : Nat := 4

/-- What stays the same while a glyph is loaded. -/
structure Context where
  font : Font
  /-- The 16.16 factor from font units to 26.6 pixels. -/
  factor : Int32
  hinting : Option Instance

/-- What changes while a glyph is loaded. -/
structure Progress where
  scratch : Option Scratch := none
  hintError : Option HintError := none

/-- A step of loading a glyph. -/
abbrev LoadM := EStateM FontError Progress

def ofFont {α : Type} (x : FontM α) : LoadM α := fun s =>
  match x with
  | .ok a => .ok a s
  | .error e => .error e s

/-- The phantom points of a glyph, in font units. -/
def phantoms (b : Bounds) (m : HMetric) : Array GlyphPoint :=
  let origin := b.xMin - m.bearing
  #[{ x := origin }, { x := origin + Int32.ofNat m.advance.toNat }, {}, {}]

/-- How the points of a component are moved and scaled. -/
structure Placing where
  factor : Int32
  offset : Point
  rounds : Bool

namespace Placing

def inUnits (t : Placing) (p : GlyphPoint) : GlyphPoint :=
  { p with x := p.x + t.offset.x, y := p.y + t.offset.y }

def scaledOffset (t : Placing) : Point :=
  let x := Fixed.scaleUnits t.offset.x t.factor
  let y := Fixed.scaleUnits t.offset.y t.factor
  if t.rounds then ⟨Fixed.round x, Fixed.round y⟩ else ⟨x, y⟩

/-- A point moved and scaled. A rounded offset is added after scaling, any other before. -/
def scaled (t : Placing) (p : GlyphPoint) : GlyphPoint :=
  if t.rounds then
    { p with
      x := t.scaledOffset.x + Fixed.scaleUnits p.x t.factor
      y := t.scaledOffset.y + Fixed.scaleUnits p.y t.factor }
  else
    { p with
      x := Fixed.scaleUnits (p.x + t.offset.x) t.factor
      y := Fixed.scaleUnits (p.y + t.offset.y) t.factor }

def contours (t : Placing) (points : Array GlyphPoint) (ends : Array Nat) : Contours :=
  let scaled := points.map t.scaled
  { points := scaled, unhinted := scaled, units := points.map t.inUnits, ends
    size_units := Array.size_map.trans Array.size_map.symm }

end Placing

/-- Rounds the phantom points to the grid, each in its direction. -/
def roundPhantoms (points : Array GlyphPoint) : FontM (Array GlyphPoint) :=
  let n := points.size
  let roundX (p : GlyphPoint) : GlyphPoint := { p with x := Fixed.round p.x }
  let roundY (p : GlyphPoint) : GlyphPoint := { p with y := Fixed.round p.y }
  if n < Phantom.count then .error .breach
  else
    let points := (points.modify (n - 4) roundX).modify (n - 3) roundX
    .ok ((points.modify (n - 2) roundY).modify (n - 1) roundY)

def isOnCurve (p : GlyphPoint) : Bool := SimpleGlyph.has p.flags SimpleGlyph.onCurveBit

/-- The outline that is hinted, for contours with the given points, the phantom points of which have
been rounded. -/
def outline (i : UInt16) (program : Bytes) (composite : Bool) (c : Contours)
    (rounded : Array GlyphPoint) : Outline :=
  let points := rounded.map fun p => (⟨p.x, p.y⟩ : Point)
  { glyph := i.toUInt32
    unscaled := some (c.units.map fun p => ⟨p.x, p.y⟩)
    scaled := points
    points := points
    flags := c.points.map fun p => if isOnCurve p then .onCurve else {}
    contours := c.ends.map fun e => UInt16.ofNat (e - 1)
    bytecode := program
    composite := composite }

def hintedPoint (p : GlyphPoint) (q : Point) (f : PointFlags) : GlyphPoint :=
  let other := p.flags &&& ~~~SimpleGlyph.onCurveBit
  { x := q.x, y := q.y
    flags := if f.isOnCurve then other ||| SimpleGlyph.onCurveBit else other }

/-- The points of a glyph after hinting, in place of `points`. -/
def hintedPoints (points : Array GlyphPoint) (o : Outline) :
    FontM { a : Array GlyphPoint // a.size = points.size } :=
  let n := points.size - Phantom.count
  if h : Phantom.count ≤ points.size ∧ n ≤ o.points.size ∧ n ≤ o.flags.size then
    let body : Array GlyphPoint := .ofFn fun k : Fin n => hintedPoint points[k] o.points[k] o.flags[k]
    let phantoms := o.phantom.toList.map fun p => ({ x := p.x, y := p.y } : GlyphPoint)
    .ok ⟨body ++ phantoms.toArray, by
      simp only [body, phantoms, Array.size_append, Array.size_ofFn, List.size_toArray, List.length_map]
      exact Nat.sub_add_cancel h.1⟩
  else .error .breach

/-- Hints contours whose last four points are the phantom points. After an error the points are the
unhinted ones. -/
def hint (inst : Instance) (i : UInt16) (program : Bytes) (composite : Bool) (c : Contours) :
    LoadM Contours := do
  let rounded ← ofFont (roundPhantoms c.points)
  let h := inst.hint (outline i program composite c rounded) (← get).scratch
  match h.error with
  | none =>
    modify fun s => { s with scratch := h.scratch }
    let ⟨points, hp⟩ ← ofFont (hintedPoints c.points h.outline)
    return { c with
      points, size_unhinted := c.size_unhinted.trans hp.symm, size_units := c.size_units.trans hp.symm }
  | some e =>
    set ({ scratch := h.scratch, hintError := some e } : Progress)
    return { c with
      points := c.unhinted, size_unhinted := rfl, size_units := c.size_units.trans c.size_unhinted.symm }

/-- Hints contours if there is an instance to do so and a program. -/
def hintWith (hinting : Option Instance) (i : UInt16) (program : Bytes) (composite : Bool)
    (c : Contours) : LoadM Contours :=
  match hinting with
  | none => pure c
  | some inst => if program.isEmpty then pure c else hint inst i program composite c

/-- The contours without their last four points. -/
def dropPhantoms (c : Contours) : Contours :=
  let n := c.points.size - Phantom.count
  { c with
    points := c.points.extract 0 n
    unhinted := c.unhinted.extract 0 n
    units := c.units.extract 0 n
    size_unhinted := by rw [Array.size_extract, Array.size_extract, c.size_unhinted]
    size_units := by rw [Array.size_extract, Array.size_extract, c.size_units] }

/-- Finishes a glyph whose own contours are `body`: adds its phantom points, hints it, and takes its
metrics from the phantom points. `origin?` is the origin of the component that gives its metrics. -/
def finish (ctx : Context) (i : UInt16) (bounds : Bounds) (t : Placing) (body : Contours)
    (program : Bytes) (composite : Bool) (origin? : Option Int32) : LoadM Piece := do
  let metric ← ofFont (ctx.font.hmetric i)
  let c := body.append (t.contours (phantoms bounds metric) #[])
  let c ← hintWith ctx.hinting i program composite c
  let n := body.points.size
  let start ← ofFont (FontM.elementAt c.points n)
  let stop ← ofFont (FontM.elementAt c.points (n + 1))
  return {
    contours := dropPhantoms c
    origin := origin?.getD (start.x - t.scaledOffset.x)
    advance := stop.x - start.x
    bounds }

/-- The origin of the last component that gives its metrics. -/
def metricsOrigin (pieces : List (Component × Piece)) : Option Int32 :=
  pieces.foldl (fun o (c, p) => if c.givesMetrics then some p.origin else o) none

/-- Loads a glyph, moved by `offset`, with components to a depth of less than `depth`. -/
def loadPiece (ctx : Context) :
    (depth : Nat) → UInt16 → (offset : Point) → (rounds : Bool) → LoadM Piece
  | 0, _, _, _ => throw .compoundDepth
  | depth + 1, i, offset, rounds => do
    let record ← ofFont (do GlyphRecord.read (← ctx.font.glyphData i))
    let t : Placing := { factor := ctx.factor, offset, rounds }
    match record.shape with
    | .simple g =>
      finish ctx i record.bounds t (t.contours g.points g.ends) g.program false none
    | .compound g =>
      let pieces ← g.components.mapM fun c => do
        return (c, ← loadPiece ctx depth c.glyph (offset + c.offset) c.roundsOffset)
      let program ← ofFont g.rest
      let body := pieces.foldl (fun a (_, p) => a.append p.contours) {}
      finish ctx i record.bounds t body program true (metricsOrigin pieces)

/-- The contours moved left, so that the origin is at zero. -/
def shiftOrigin (c : Contours) (origin : Int32) : Contours :=
  let move (p : GlyphPoint) : GlyphPoint := { p with x := p.x - origin }
  { c with
    points := c.points.map move
    unhinted := c.unhinted.map move
    size_unhinted := by rw [Array.size_map, Array.size_map, c.size_unhinted]
    size_units := by rw [Array.size_map, c.size_units] }

def scaleBounds (b : Bounds) (factor : Int32) : Bounds where
  xMin := Fixed.scaleUnits b.xMin factor
  yMin := Fixed.scaleUnits b.yMin factor
  xMax := Fixed.scaleUnits b.xMax factor
  yMax := Fixed.scaleUnits b.yMax factor

def loadWith (f : Font) (scale : Int32) (i : UInt16) (hinting : Option Instance) : LoadM Glyph := do
  let factor := Fixed.scaleFactor scale (Int64.ofNat f.unitsPerEm)
  let piece ← loadPiece { font := f, factor, hinting } maxDepth i {} false
  return {
    advance := piece.advance
    bounds := scaleBounds piece.bounds factor
    contours := shiftOrigin piece.contours piece.origin
    hintError := (← get).hintError }

/-- Loads a glyph for a scale, the number of 26.6 units in one em. Without a hinter, or if the
hinter cannot be configured or is switched off by the font, the glyph is not hinted. -/
def load (f : Font) (scale : Int32) (i : UInt16) (hinter? : Option Hinter) :
    FontM Glyph × Option Hinter :=
  match hinter?.map (·.prepare f scale) with
  | none =>
    match loadWith f scale i none {} with
    | .ok g _ => (.ok g, none)
    | .error e _ => (.error e, none)
  | some h =>
    match loadWith f scale i (if h.isActive then some h.current else none)
        { scratch := h.scratch } with
    | .ok g s => (.ok g, some { h with scratch := s.scratch })
    | .error e s => (.error e, some { h with scratch := s.scratch })

end Glyph

end GridFit
