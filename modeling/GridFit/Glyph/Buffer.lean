import GridFit.Glyph.Load

/-!
# Glyph buffers

Glyphs are loaded in place, one after the other into the same buffer, and a hinter lays out their
outlines in the same memory. Memory grows when a glyph needs more of it and is never cleared: past
the part in use it holds what earlier glyphs have left there.
-/

namespace GridFit

namespace Memory

variable {α : Type}

/-- Memory for `n` elements that keeps the first `count` ones. New memory has room to spare. -/
def reserve (memory : Array α) (blank : α) (count n : Nat) : Array α :=
  if n ≤ memory.size then memory
  else memory.extract 0 count ++ Array.replicate (2 * n - count) blank

def slice (memory : Array α) (start stop : Nat) : FontM (Array α) :=
  if start ≤ stop ∧ stop ≤ memory.size then .ok (memory.extract start stop) else .error .breach

/-- Writes `values` from `start` on. -/
def write (memory : Array α) (start : Nat) (values : Array α) : FontM (Array α) :=
  let stop := start + values.size
  if stop ≤ memory.size then
    .ok (memory.extract 0 start ++ values ++ memory.extract stop memory.size)
  else .error .breach

/-- Applies `f` to the elements from `start` up to `stop`. -/
def update (memory : Array α) (start stop : Nat) (f : α → α) : FontM (Array α) := do
  write memory start ((← slice memory start stop).map f)

end Memory

/-- The memory in which a hinter lays out outlines. -/
structure OutlineMemory where
  points : Array Point := #[]
  scaled : Array Point := #[]
  unscaled : Array Point := #[]
  flags : Array PointFlags := #[]
deriving DecidableEq, Repr, Inhabited

namespace OutlineMemory

/-- Lays out points, scaled and in font units. -/
def fill (m : OutlineMemory) (points units : Array GlyphPoint) : OutlineMemory :=
  let position (p : GlyphPoint) : Point := ⟨p.x, p.y⟩
  let flags (p : GlyphPoint) : PointFlags := if Glyph.isOnCurve p then .onCurve else {}
  let n := points.size
  { points := Scratch.overwrite (Memory.reserve m.points {} 0 n) (points.map position)
    scaled := Scratch.overwrite (Memory.reserve m.scaled {} 0 n) (points.map position)
    unscaled := Scratch.overwrite (Memory.reserve m.unscaled {} 0 n) (units.map position)
    flags := Scratch.overwrite (Memory.reserve m.flags {} 0 n) (points.map flags) }

/-- The outline of the first `n` points. -/
def outline (m : OutlineMemory) (n : Nat) (i : UInt16) (program : Bytes) (composite : Bool)
    (contours : Array UInt16) : Outline where
  glyph := i.toUInt32
  unscaled := some (m.unscaled.extract 0 n)
  scaled := m.scaled.extract 0 n
  points := m.points.extract 0 n
  flags := m.flags.extract 0 n
  contours := contours
  bytecode := program
  composite := composite

/-- The memory after an outline in it has been hinted. -/
def keep (m : OutlineMemory) (o : Outline) : OutlineMemory :=
  { m with
    points := Scratch.overwrite m.points o.points
    scaled := Scratch.overwrite m.scaled o.scaled
    flags := Scratch.overwrite m.flags o.flags }

end OutlineMemory

/-- A hinter with its memory for outlines. -/
structure BufferedHinter extends Hinter where
  outlines : OutlineMemory := {}
deriving DecidableEq, Repr

/-- A glyph in memory. Of `cells` the first `count` are its points. -/
structure GlyphBuffer where
  cells : Array GlyphPoint := #[]
  count : Nat := 0
  unhinted : Array GlyphPoint := #[]
  units : Array GlyphPoint := #[]
  ends : Array Nat := #[]
  advance : Int32 := 0
  bounds : Bounds := {}
  hintError : Option HintError := none
deriving DecidableEq, Repr, Inhabited

namespace GlyphBuffer

open Glyph (Placing Context)

/-! ### Steps in the buffer -/

def points (b : GlyphBuffer) : Array GlyphPoint := b.cells.extract 0 b.count

/-- The buffer without a glyph. Its memory stays as it is. -/
def reset (b : GlyphBuffer) : GlyphBuffer := { cells := b.cells }

def resize (b : GlyphBuffer) (n : Nat) : GlyphBuffer :=
  { b with cells := Memory.reserve b.cells {} b.count n, count := n }

/-- Writes `points` over `cells`, first their flags, then one coordinate after the other. -/
def overwriteCells (cells points : Array GlyphPoint) : Array GlyphPoint :=
  let cells := Array.zipWith (fun c p => { c with flags := p.flags }) cells points
  let cells := Array.zipWith (fun c p => { c with x := p.x }) cells points
  Array.zipWith (fun c p => { c with y := p.y }) cells points

/-- Adds the contours of a simple glyph, in font units, and room for its phantom points. -/
def addSimple (b : GlyphBuffer) (g : SimpleGlyph) : FontM GlyphBuffer := do
  let start := b.count
  let stop := start + g.points.size
  let b := { b with ends := b.ends ++ g.ends.map (start + ·) }.resize (stop + Phantom.count)
  let cells ← Memory.slice b.cells start stop
  return { b with cells := ← Memory.write b.cells start (overwriteCells cells g.points) }

/-- Sets the phantom points, which come last. -/
def setPhantoms (b : GlyphBuffer) (phantoms : Array GlyphPoint) : FontM GlyphBuffer := do
  return { b with cells := ← Memory.write b.cells (b.count - Phantom.count) phantoms }

/-- Moves and scales the points from `first` on. -/
def place (b : GlyphBuffer) (t : Placing) (first : Nat) : FontM GlyphBuffer := do
  let units := b.units ++ (← Memory.slice b.cells first b.count)
  let units ← Memory.update units first b.count t.inUnits
  let cells ← Memory.update b.cells first b.count t.scaled
  let unhinted := b.unhinted ++ (← Memory.slice cells first b.count)
  return { b with cells, units, unhinted }

/-- Drops the points from `n` on. -/
def truncate (b : GlyphBuffer) (n : Nat) : FontM GlyphBuffer := do
  return { b with
    count := n, unhinted := ← Memory.slice b.unhinted 0 n, units := ← Memory.slice b.units 0 n }

/-- Moves the glyph left, so that its origin is at zero. -/
def shift (b : GlyphBuffer) (origin : Int32) : FontM GlyphBuffer := do
  if origin = 0 then return b
  let move (p : GlyphPoint) : GlyphPoint := { p with x := p.x - origin }
  return { b with
    cells := ← Memory.update b.cells 0 b.count move
    unhinted := b.unhinted.map move }

/-! ### Loading -/

/-- The buffer and the memory of the hinter, while a glyph is loaded. -/
structure Bench where
  buffer : GlyphBuffer
  outlines : OutlineMemory := {}
  scratch : Option Scratch := none

/-- A step of loading a glyph in place. -/
abbrev BufferM := EStateM FontError Bench

def ofFont {α : Type} (x : FontM α) : BufferM α := fun s =>
  match x with
  | .ok a => .ok a s
  | .error e => .error e s

def buffer : BufferM GlyphBuffer := return (← get).buffer

def onBuffer (f : GlyphBuffer → FontM GlyphBuffer) : BufferM Unit := do
  let b ← ofFont (f (← get).buffer)
  modify fun s => { s with buffer := b }

/-- Hints the points from `start` on, the contours of which start with number `firstEnd`. The last
four points are the phantom points. After an error the unhinted points are put back. -/
def hint (inst : Instance) (i : UInt16) (program : Bytes) (composite : Bool) (start firstEnd : Nat) :
    BufferM Unit := do
  let b ← buffer
  let points ← ofFont (Memory.slice b.cells start b.count)
  let units ← ofFont (Memory.slice b.units start b.count)
  let ends ← ofFont (Memory.slice b.ends firstEnd b.ends.size)
  let rounded ← ofFont (Glyph.roundPhantoms points)
  let cells ← ofFont (Memory.write b.cells start rounded)
  let memory := (← get).outlines.fill rounded units
  let contours := ends.map fun e => UInt16.ofNat (e - start - 1)
  let h := inst.hint (memory.outline points.size i program composite contours) (← get).scratch
  modify fun s => { s with outlines := memory.keep h.outline, scratch := h.scratch }
  match h.error with
  | none =>
    let ⟨hinted, _⟩ ← ofFont (Glyph.hintedPoints points h.outline)
    onBuffer fun b => return { b with cells := ← Memory.write cells start hinted }
  | some e =>
    let unhinted ← ofFont (Memory.slice b.unhinted start b.count)
    onBuffer fun b => return { b with
      cells := ← Memory.write cells start unhinted, hintError := some e }

/-- Hints points if there is an instance to do so and a program. -/
def hintWith (hinting : Option Instance) (i : UInt16) (program : Bytes) (composite : Bool)
    (start firstEnd : Nat) : BufferM Unit :=
  match hinting with
  | none => pure ()
  | some inst => if program.isEmpty then pure () else hint inst i program composite start firstEnd

/-- What is known of a glyph apart from its contours. -/
structure Metrics where
  origin : Int32
  advance : Int32
  bounds : Bounds
deriving DecidableEq, Repr

/-- Finishes a glyph whose points start at `start` and of which those from `first` on are in font
units: sets its phantom points, scales and hints it, and takes its metrics from the phantom points. -/
def finish (ctx : Context) (i : UInt16) (bounds : Bounds) (t : Placing) (start firstEnd first : Nat)
    (program : Bytes) (composite : Bool) (origin? : Option Int32) : BufferM Metrics := do
  let metric ← ofFont (ctx.font.hmetric i)
  onBuffer (·.setPhantoms (Glyph.phantoms bounds metric))
  onBuffer (·.place t first)
  hintWith ctx.hinting i program composite start firstEnd
  let b ← buffer
  let n := b.count - Phantom.count
  let left ← ofFont (FontM.elementAt b.cells n)
  let right ← ofFont (FontM.elementAt b.cells (n + 1))
  onBuffer (·.truncate n)
  return {
    origin := origin?.getD (left.x - t.scaledOffset.x)
    advance := right.x - left.x
    bounds }

/-- Adds a glyph to those in the buffer, moved by `offset`, with components to a depth of less than
`depth`. -/
def add (ctx : Context) :
    (depth : Nat) → UInt16 → (offset : Point) → (rounds : Bool) → BufferM Metrics
  | 0, _, _, _ => throw .compoundDepth
  | depth + 1, i, offset, rounds => do
    let record ← ofFont (do GlyphRecord.read (← ctx.font.glyphData i))
    let t : Placing := { factor := ctx.factor, offset, rounds }
    let before ← buffer
    match record.shape with
    | .simple g =>
      onBuffer (·.addSimple g)
      finish ctx i record.bounds t before.count before.ends.size before.count g.program false none
    | .compound g =>
      let origin? ← g.components.foldlM (fun o c => do
        let m ← add ctx depth c.glyph (offset + c.offset) c.roundsOffset
        return if c.givesMetrics then some m.origin else o) none
      let program ← ofFont g.rest
      let n := (← buffer).count
      onBuffer fun b => return b.resize (n + Phantom.count)
      finish ctx i record.bounds t before.count before.ends.size n program true origin?

def loadWith (f : Font) (scale : Int32) (i : UInt16) (hinting : Option Instance) : BufferM Unit := do
  let factor := Fixed.scaleFactor scale (Int64.ofNat f.unitsPerEm)
  onBuffer fun b => return b.reset
  let m ← add { font := f, factor, hinting } Glyph.maxDepth i {} false
  onBuffer (·.shift m.origin)
  onBuffer fun b => return { b with
    advance := m.advance, bounds := Glyph.scaleBounds m.bounds factor }

/-- Loads a glyph for a scale into the buffer, in place of the one before. -/
def load (b : GlyphBuffer) (f : Font) (scale : Int32) (i : UInt16)
    (hinter? : Option BufferedHinter) : FontM Unit × GlyphBuffer × Option BufferedHinter :=
  match hinter? with
  | none =>
    match loadWith f scale i none { buffer := b } with
    | .ok () s => (.ok (), s.buffer, none)
    | .error e s => (.error e, s.buffer, none)
  | some h =>
    let p := h.prepare f scale
    let s : Bench := { buffer := b, outlines := h.outlines, scratch := p.scratch }
    match loadWith f scale i (if p.isActive then some p.current else none) s with
    | .ok () s => (.ok (), s.buffer, some { p with scratch := s.scratch, outlines := s.outlines })
    | .error e s => (.error e, s.buffer, some { p with scratch := s.scratch, outlines := s.outlines })

end GlyphBuffer

end GridFit
