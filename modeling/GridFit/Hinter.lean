import GridFit.Font.Basic

/-!
# Hinters

A hinter hints glyphs of a font at a size. The programs of the font run again only when the font,
the size or the mode has changed since the last glyph.
-/

namespace GridFit

/-- What a configuration depends on. -/
structure HinterKey where
  source : Source
  unitsPerEm : Nat
  scale : Int32
  mode : Mode
deriving DecidableEq, Repr

structure Hinter where
  mode : Mode
  current : Instance := {}
  scratch : Option Scratch := none
  /-- What the instance was last configured for. -/
  key : Option HinterKey := none
  failure : Option Failure := none
deriving DecidableEq, Repr

namespace Hinter

/-- The pixels per em of a scale, the number of 26.6 units in one em. -/
def pixels (scale : Int32) : Int32 := (scale + 32) >>> 6

/-- Configures the hinter, unless it is configured already. -/
def prepare (h : Hinter) (f : Font) (scale : Int32) : Hinter :=
  let key : HinterKey := ⟨f.source, f.unitsPerEm, scale, h.mode⟩
  if h.key = some key then h
  else
    let factor := Fixed.scaleFactor scale (Int64.ofNat f.unitsPerEm)
    match h.current.reconfigure f.source factor (pixels scale) h.mode #[] with
    | (none, i) =>
      { h with current := i, scratch := i.newScratch, key := some key, failure := none }
    | (some e, i) => { h with current := i, scratch := none, key := some key, failure := some e }

/-- Whether glyphs are hinted: the last configuration succeeded, and the font wants it. -/
def isActive (h : Hinter) : Bool := h.failure.isNone && h.current.isEnabled

/-- Whether the last configuration hints with backward compatibility. -/
def isBackwardCompatible (h : Hinter) : Bool :=
  h.failure.isNone && h.current.isBackwardCompatible

end Hinter

end GridFit
