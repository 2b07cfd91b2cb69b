import GridFit.Font.Basic

/-!
# Glyph records

The data of a glyph describes either the contours of a simple glyph or the components of a compound
one. The flags of the points of a simple glyph are run-length encoded, and their coordinates are
differences from the point before.
-/

namespace GridFit

/-- A point of a glyph. The lowest bit of `flags` says whether it lies on the curve. -/
structure GlyphPoint where
  x : Int32 := 0
  y : Int32 := 0
  flags : UInt8 := 0
deriving DecidableEq, Repr, Inhabited

structure Component where
  glyph : UInt16
  offset : Point
  roundsOffset : Bool
  /-- The metrics of the component are those of the compound glyph. -/
  givesMetrics : Bool
deriving DecidableEq, Repr, Inhabited

/-- The components of a compound glyph in order, and what follows them: the program of the glyph, or
the error at which reading stopped. -/
structure Compound where
  components : List Component
  rest : FontM Bytes

/-- A simple glyph. `ends` has the index just past the last point of each contour. -/
structure SimpleGlyph where
  ends : Array Nat := #[]
  program : Bytes := #[]
  points : Array GlyphPoint := #[]
deriving DecidableEq, Repr, Inhabited

/-- The description of a glyph. -/
inductive GlyphShape where
  | simple (g : SimpleGlyph)
  | compound (g : Compound)

/-- The data of a glyph. -/
structure GlyphRecord where
  bounds : Bounds := {}
  shape : GlyphShape := .simple {}

namespace SimpleGlyph

def onCurveBit : UInt8 := 0x01

def repeatBit : UInt8 := 0x08

/-- The flag bits that describe the coordinate of a point along an axis. -/
structure AxisBits where
  short : UInt8
  /-- A short difference is positive; otherwise there is no difference. -/
  same : UInt8

def axisBits : Axis → AxisBits
  | .x => ⟨0x02, 0x10⟩
  | .y => ⟨0x04, 0x20⟩

def has (flags bit : UInt8) : Bool := flags &&& bit != 0

/-- Reads the flags of `remaining` points from `offset` on. Returns them after `acc`, and where they
end. -/
def decodeFlags (d : Bytes) (offset remaining : Nat) (acc : Array UInt8) :
    FontM (Array UInt8 × Nat) :=
  match remaining with
  | 0 => .ok (acc, offset)
  | n + 1 =>
    if h : offset < d.size then
      let c := d[offset]
      if has c repeatBit then
        if h : offset + 1 < d.size then
          let count := d[offset + 1].toNat
          if n < count then .error .flagRepeat
          else decodeFlags d (offset + 2) (n - count) (acc ++ Array.replicate (count + 1) c)
        else .error .flagsTooShort
      else decodeFlags d (offset + 1) n (acc.push c)
    else .error .flagsTooShort
termination_by remaining
decreasing_by all_goals omega

/-- Reads the coordinates of points with the given flags along an axis, from `offset` on and
starting from `v`. Returns them after `acc`, and where they end. -/
def decodeCoords (bits : AxisBits) (d : Bytes) (offset : Nat) (v : Int16) (acc : Array Int16) :
    List UInt8 → FontM (Array Int16 × Nat)
  | [] => .ok (acc, offset)
  | f :: rest =>
    if has f bits.short then
      if h : offset < d.size then
        let delta := Int16.ofNat d[offset].toNat
        let v := if has f bits.same then v + delta else v - delta
        decodeCoords bits d (offset + 1) v (acc.push v) rest
      else .error .coordinatesTooShort
    else if has f bits.same then decodeCoords bits d offset v (acc.push v) rest
    else if h : offset + 1 < d.size then
      let v := v + (Bytes.word d[offset] d[offset + 1]).toInt16
      decodeCoords bits d (offset + 2) v (acc.push v) rest
    else .error .coordinatesTooShort

def decodePoints (d : Bytes) (offset n : Nat) : FontM (Array GlyphPoint) := do
  let (flags, offset) ← decodeFlags d offset n #[]
  let (xs, offset) ← decodeCoords (axisBits .x) d offset 0 #[] flags.toList
  let (ys, _) ← decodeCoords (axisBits .y) d offset 0 #[] flags.toList
  let points ← (List.range n).mapM fun i => do
    return ({ x := (← FontM.elementAt xs i).toInt32, y := (← FontM.elementAt ys i).toInt32
              flags := ← FontM.elementAt flags i } : GlyphPoint)
  return points.toArray

/-- Reads the ends of `n` contours from `offset` on, each of which must lie past the one before. -/
def readEnds (d : Bytes) (offset : Nat) (acc : Array Nat) : Nat → FontM (Array Nat)
  | 0 => .ok acc
  | n + 1 => do
    let stop := (← d.u16At offset).toNat + 1
    if acc.back?.any (stop ≤ ·) then throw .contourOrder
    readEnds d (offset + 2) (acc.push stop) n

def read (d : Bytes) (n : Nat) : FontM SimpleGlyph := do
  if d.size < 10 + 2 * n + 2 then throw .glyphTooShort
  let ends ← readEnds d 10 #[] n
  let start := 10 + 2 * n + 2
  let length := (← d.u16At (10 + 2 * n)).toNat
  if d.size < start + length then throw .instructionsTooLong
  let program ← d.slice start (start + length)
  let points ← decodePoints d (start + length) (ends.back?.getD 0)
  return { ends, program, points }

end SimpleGlyph

namespace Compound

structure ComponentBits where
  words : Bool
  offsets : Bool
  roundsOffset : Bool
  more : Bool
  transformed : Bool
  instructions : Bool
  givesMetrics : Bool
deriving DecidableEq, Repr

def ComponentBits.ofWord (w : UInt16) : ComponentBits where
  words := w &&& 0x0001 != 0
  offsets := w &&& 0x0002 != 0
  roundsOffset := w &&& 0x0004 != 0
  more := w &&& 0x0020 != 0
  transformed := w &&& 0x00c8 != 0
  instructions := w &&& 0x0100 != 0
  givesMetrics := w &&& 0x0200 != 0

def signedByte (b : UInt8) : Int32 := b.toInt8.toInt32

/-- The number of bytes of a component. -/
def ComponentBits.length (b : ComponentBits) : Nat := if b.words then 8 else 6

/-- Reads the offset of the component at `offset`, in two words or in two bytes. -/
def readOffset (d : Bytes) (offset : Nat) (words : Bool) : FontM Point := do
  if words then
    if d.size < offset + 8 then throw .compoundTooShort
    return ⟨← d.i16At (offset + 4), ← d.i16At (offset + 6)⟩
  else return ⟨signedByte (← d.u8At (offset + 4)), signedByte (← d.u8At (offset + 5))⟩

/-- Reads the component at `offset`, at which there are six bytes at least. Returns it with its
flags. -/
def readComponent (d : Bytes) (offset : Nat) : FontM (Component × ComponentBits) := do
  let bits := ComponentBits.ofWord (← d.u16At offset)
  let glyph ← d.u16At (offset + 2)
  let shift ← readOffset d offset bits.words
  if !bits.offsets then throw .compoundVector
  if bits.transformed then throw .compoundTransform
  let component : Component :=
    { glyph, offset := shift, roundsOffset := bits.roundsOffset, givesMetrics := bits.givesMetrics }
  return (component, bits)

def readProgram (d : Bytes) (offset : Nat) : FontM Bytes := do
  if d.size < offset + 2 then throw .compoundTooShort
  let length := (← d.u16At offset).toNat
  if d.size < offset + 2 + length then throw .compoundInstructions
  d.slice (offset + 2) (offset + 2 + length)

/-- Reads the components from `offset` on and the program after them. -/
def readFrom (d : Bytes) (offset : Nat) : Compound :=
  if _h : d.size < offset + 6 then ⟨[], .error .compoundTooShort⟩
  else
    match readComponent d offset with
    | .error e => ⟨[], .error e⟩
    | .ok (c, bits) =>
      if bits.more then
        let g := readFrom d (offset + bits.length)
        { g with components := c :: g.components }
      else ⟨[c], if bits.instructions then readProgram d (offset + bits.length) else .ok #[]⟩
termination_by d.size - offset
decreasing_by
  unfold ComponentBits.length
  split <;> omega

def read (d : Bytes) : Compound := readFrom d 10

end Compound

namespace GlyphRecord

/-- Reads the data of a glyph. Empty data is a glyph without contours. -/
def read (d : Bytes) : FontM GlyphRecord := do
  if d.isEmpty then return {}
  if d.size < 10 then throw .glyphTooShort
  let n ← d.i16At 0
  let bounds : Bounds :=
    { xMin := ← d.i16At 2, yMin := ← d.i16At 4, xMax := ← d.i16At 6, yMax := ← d.i16At 8 }
  if 0 ≤ n then return { bounds, shape := .simple (← SimpleGlyph.read d n.toNatClampNeg) }
  if n ≠ -1 then throw .negativeContours
  return { bounds, shape := .compound (Compound.read d) }

end GlyphRecord

end GridFit
