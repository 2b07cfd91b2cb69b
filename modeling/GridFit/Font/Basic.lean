import GridFit.Font.CharMap
import GridFit.Font.Directory
import GridFit.Font.Kerning
import GridFit.Font.Names
import GridFit.Instance

/-!
# Fonts

A font is read from a file once; the sizes of its tables are checked against each other then. Glyphs
are numbered, and numbers past the last glyph have no data and no metrics.
-/

namespace GridFit

/-- A range of coordinates, ends included. -/
structure Bounds where
  xMin : Int32 := 0
  yMin : Int32 := 0
  xMax : Int32 := 0
  yMax : Int32 := 0
deriving DecidableEq, Repr, Inhabited

/-- The form of the offsets of glyphs. -/
inductive LocaFormat where
  | short
  | long
deriving DecidableEq, Repr, Inhabited

def LocaFormat.width : LocaFormat → Nat
  | .short => 2
  | .long => 4

/-- The horizontal metrics of a glyph. -/
structure HMetric where
  advance : UInt16 := 0
  bearing : Int32 := 0
deriving DecidableEq, Repr, Inhabited

structure Head where
  unitsPerEm : Nat
  bounds : Bounds
  locaFormat : LocaFormat
deriving DecidableEq, Repr, Inhabited

structure Font where
  unitsPerEm : Nat
  bounds : Bounds
  locaFormat : LocaFormat
  glyphCount : Nat
  maxima : Maxima
  charMap : CharMap
  kern : KernTable
  /-- How many glyphs have an advance width of their own. -/
  hmetricCount : Nat
  controlValues : Array Int16
  glyf : Bytes
  loca : Bytes
  hmtx : Bytes
  name : Bytes
  fpgm : Bytes
  prep : Bytes
deriving DecidableEq, Repr, Inhabited

namespace Font

def readHead (head : Bytes) : FontM Head := do
  if head.size ≠ 54 then throw (.headLength head.size)
  let unitsPerEm := (← head.u16At 18).toNat
  if unitsPerEm = 0 then throw .zeroUnitsPerEm
  let bounds : Bounds :=
    { xMin := ← head.i16At 36, yMin := ← head.i16At 38
      xMax := ← head.i16At 40, yMax := ← head.i16At 42 }
  match (← head.u16At 50).toNat with
  | 0 => return ⟨unitsPerEm, bounds, .short⟩
  | 1 => return ⟨unitsPerEm, bounds, .long⟩
  | n => throw (.locaFormat n)

/-- Reads the number of glyphs and the limits of the programs. -/
def readMaxp (maxp : Bytes) : FontM (Nat × Maxima) := do
  if maxp.size < 6 then throw (.maxpLength maxp.size)
  let version ← maxp.u32At 0
  let glyphs := (← maxp.u16At 4).toNat
  if version = 0x00005000 then return (glyphs, {})
  if version ≠ 0x00010000 then throw (.maxpVersion version)
  if maxp.size ≠ 32 then throw (.maxpLength maxp.size)
  return (glyphs,
    { twilight := (← maxp.u16At 16).toNat
      storage := (← maxp.u16At 18).toNat
      functions := (← maxp.u16At 20).toNat
      instructions := (← maxp.u16At 22).toNat
      stack := (← maxp.u16At 24).toNat })

/-- Checks that there are offsets for all glyphs. -/
def checkLoca (loca : Bytes) (format : LocaFormat) (glyphs : Nat) : FontM Unit :=
  if loca.size < (glyphs + 1) * format.width then throw (.locaLength loca.size) else pure ()

/-- Reads the number of glyphs with an advance width, and checks that there are metrics for all
glyphs. -/
def readHhea (hhea hmtx : Bytes) (glyphs : Nat) : FontM Nat := do
  if hhea.size ≠ 36 then throw (.hheaLength hhea.size)
  let n := (← hhea.u16At 34).toNat
  if n = 0 ∨ glyphs < n then throw (.hmetricCount n)
  if 4 * n + 2 * (glyphs - n) ≠ hmtx.size then throw (.hmtxLength hmtx.size)
  return n

def readCvt (cvt : Bytes) : FontM (Array Int16) := do
  if cvt.size % 2 ≠ 0 then throw (.cvtLength cvt.size)
  return (← cvt.u16sAt 0 (cvt.size / 2)).map (·.toInt16)

def parse (file : Bytes) : FontM Font := do
  let t ← Tables.read file
  let head ← readHead t.head
  let (glyphCount, maxima) ← readMaxp t.maxp
  checkLoca t.loca head.locaFormat glyphCount
  let charMap ← CharMap.read t.cmap
  let kern ← KernTable.read t.kern
  let hmetricCount ← readHhea t.hhea t.hmtx glyphCount
  let controlValues ← readCvt t.cvt
  return {
    unitsPerEm := head.unitsPerEm, bounds := head.bounds, locaFormat := head.locaFormat
    glyphCount, maxima, charMap, kern, hmetricCount, controlValues
    glyf := t.glyf, loca := t.loca, hmtx := t.hmtx, name := t.name, fpgm := t.fpgm, prep := t.prep }

/-- What the font supplies for hinting. It has no variation axes. -/
def source (f : Font) : Source where
  maxima := f.maxima
  fontProgram := f.fpgm
  controlValueProgram := f.prep
  controlValues := f.controlValues

def index (f : Font) (code : Int) : FontM UInt16 := f.charMap.glyph code

/-- The horizontal metrics of a glyph. Glyphs without an advance width of their own have the last
one. -/
def hmetric (f : Font) (i : UInt16) : FontM HMetric := do
  let j := i.toNat
  if f.glyphCount ≤ j then return {}
  if f.hmetricCount ≤ j then
    let last := 4 * (f.hmetricCount - 1)
    return { advance := ← f.hmtx.u16At last
             bearing := ← f.hmtx.i16At (last + 2 * (j - f.hmetricCount) + 4) }
  return { advance := ← f.hmtx.u16At (4 * j), bearing := ← f.hmtx.i16At (4 * j + 2) }

def kerning (f : Font) (left right : UInt16) : FontM Int32 := f.kern.kerning left right

def nameOf (f : Font) (id : UInt16) (decoder : TextDecoder := .standard) : FontM String :=
  Names.find decoder f.name id

/-- The offset of glyph `i`, or of the end of the last one. -/
def glyphOffset (f : Font) (i : Nat) : FontM Nat := do
  match f.locaFormat with
  | .short => return 2 * (← f.loca.u16At (2 * i)).toNat
  | .long => return (← f.loca.u32At (4 * i)).toNat

/-- The data of a glyph. It is empty for a glyph without contours. -/
def glyphData (f : Font) (i : UInt16) : FontM Bytes := do
  if f.glyphCount ≤ i.toNat then throw (.glyphIndex i.toNat)
  let start ← f.glyphOffset i.toNat
  let stop ← f.glyphOffset (i.toNat + 1)
  if stop < start ∨ f.glyf.size < stop then throw (.locaEntry i.toNat)
  f.glyf.slice start stop

end Font

end GridFit
