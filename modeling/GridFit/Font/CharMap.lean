import GridFit.Font.Reader

/-!
# Character maps

A character map has segments of consecutive character codes. The glyph of a code is found by adding
a number to it, or through an array of glyphs that follows the segments.
-/

namespace GridFit

/-- A segment of consecutive codes. -/
structure CharSegment where
  start : UInt16
  stop : UInt16
  delta : UInt16
  offset : UInt16
deriving DecidableEq, Repr, Inhabited

def CharSegment.contains (s : CharSegment) (c : UInt16) : Bool := s.start ≤ c && c ≤ s.stop

/-- A character map. `glyphs` are the bytes after the last segment offset. -/
structure CharMap where
  segments : Array CharSegment := #[]
  glyphs : Bytes := #[]
deriving DecidableEq, Repr, Inhabited

namespace CharMap

/-- The platform and encoding of a Unicode 2.0 subtable. -/
def unicode : UInt32 := 0x00000003

/-- The platform and encoding of a Microsoft UCS-2 subtable. -/
def microsoft : UInt32 := 0x00030001

/-- The offset of the subtable to use among the entries from `i` on, of which there are `n`: the
first Unicode entry, or else the last Microsoft entry, or else `found`. -/
def chooseSubtable (cmap : Bytes) (found : Option UInt32) (i : Nat) : Nat → FontM (Option UInt32)
  | 0 => return found
  | n + 1 => do
    let encoding ← cmap.u32At (8 * i + 4)
    let offset ← cmap.u32At (8 * i + 8)
    if encoding = unicode then return some offset
    else chooseSubtable cmap (if encoding = microsoft then some offset else found) (i + 1) n

/-- Reads segment number `i` of `n`. The arrays of their parts follow each other from `base` on. -/
def readSegment (cmap : Bytes) (base n i : Nat) : FontM CharSegment := do
  return {
    stop := ← cmap.u16At (base + 2 * i)
    start := ← cmap.u16At (base + 2 * n + 2 + 2 * i)
    delta := ← cmap.u16At (base + 4 * n + 2 + 2 * i)
    offset := ← cmap.u16At (base + 6 * n + 2 + 2 * i) }

def readSubtable (cmap : Bytes) (offset : Nat) : FontM CharMap := do
  let format ← cmap.u16At offset
  if format ≠ 4 then throw (.cmapFormat format.toNat)
  let language ← cmap.u16At (offset + 4)
  if language ≠ 0 then throw (.cmapLanguage language.toNat)
  let twice := (← cmap.u16At (offset + 6)).toNat
  if twice % 2 = 1 then throw (.cmapSegments twice)
  let n := twice / 2
  let base := offset + 14
  if cmap.size - base < 8 * n + 2 then throw .cmapTooShort
  let segments ← (List.range n).mapM (readSegment cmap base n)
  return { segments := segments.toArray, glyphs := ← cmap.slice (base + 8 * n + 2) cmap.size }

def read (cmap : Bytes) : FontM CharMap := do
  if cmap.size < 4 then throw .cmapTooShort
  let n := (← cmap.u16At 2).toNat
  if cmap.size < 8 * n + 4 then throw .cmapTooShort
  match ← chooseSubtable cmap none 0 n with
  | none => throw .cmapEncoding
  | some offset =>
    let offset := offset.toNat
    if offset = 0 ∨ cmap.size < offset + 14 then throw .cmapOffset
    readSubtable cmap offset

/-- The glyph of code `c` in segment number `i`. An offset counts from its own place, so from before
`glyphs` for all but the last segment. -/
def glyphIn (m : CharMap) (i : Nat) (s : CharSegment) (c : UInt16) : FontM UInt16 := do
  if s.offset = 0 then return c + s.delta
  let offset : Int :=
    s.offset.toNat + 2 * ((i : Int) - m.segments.size + ((c - s.start).toNat : Int))
  if offset < 0 ∨ m.glyphs.size < offset + 2 then return 0
  let g ← m.glyphs.u16At offset.toNat
  return if g = 0 then 0 else g + s.delta

/-- The glyph of a code. It is 0 for codes that the map does not hold. -/
def glyph (m : CharMap) (code : Int) : FontM UInt16 :=
  if 0 ≤ code ∧ code ≤ 0xffff then
    let c := UInt16.ofNat code.toNat
    match m.segments.findFinIdx? (·.contains c) with
    | none => .ok 0
    | some i => m.glyphIn i m.segments[i] c
  else .ok 0

end CharMap

end GridFit
