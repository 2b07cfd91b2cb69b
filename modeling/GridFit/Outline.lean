import GridFit.Zone

/-!
# Outlines

An outline is a scaled glyph that is to be hinted. Its last four points are the phantom points,
which stand for the metrics of the glyph.
-/

namespace GridFit

structure Phantom where
  origin : Point := {}
  advance : Point := {}
  top : Point := {}
  bottom : Point := {}
deriving DecidableEq, Repr, Inhabited

namespace Phantom

def count : Nat := 4

def ofEnd (points : Array Point) (h : count ≤ points.size) : Phantom :=
  have : 4 ≤ points.size := h
  { origin := points[points.size - 4]
    advance := points[points.size - 3]
    top := points[points.size - 2]
    bottom := points[points.size - 1] }

def toList (p : Phantom) : List Point := [p.origin, p.advance, p.top, p.bottom]

end Phantom

/-- A glyph to be hinted. `unscaled` may be missing; otherwise all arrays have a place for each
point, the phantom points last. -/
structure Outline where
  glyph : UInt32 := 0
  unscaled : Option (Array Point) := none
  scaled : Array Point
  points : Array Point
  flags : Array PointFlags
  contours : Array UInt16 := #[]
  bytecode : Bytes := #[]
  composite : Bool := false
  phantom : Phantom := {}
deriving DecidableEq, Repr, Inhabited

namespace Outline

/-- Whether the arrays agree in size and have room for the phantom points. -/
def isConsistent (o : Outline) : Bool :=
  let n := o.points.size
  Phantom.count ≤ n && o.scaled.size = n && o.flags.size = n && o.unscaled.all (·.size = n)

theorem isConsistent_iff (o : Outline) :
    o.isConsistent ↔ Phantom.count ≤ o.points.size ∧ o.scaled.size = o.points.size ∧
      o.flags.size = o.points.size ∧ ∀ u ∈ o.unscaled, u.size = o.points.size := by
  cases h : o.unscaled <;> simp [isConsistent, h, and_assoc]

theorem count_le_scaled {o : Outline} (h : o.isConsistent) : Phantom.count ≤ o.scaled.size := by
  obtain ⟨hp, hs, -, -⟩ := (isConsistent_iff o).1 h
  omega

/-- The glyph zone in which an outline is hinted. Marks of earlier hinting are removed. -/
def zone (o : Outline) : Zone :=
  { unscaled := o.unscaled.getD #[]
    scaled := o.scaled
    points := o.points
    flags := o.flags
    contours := o.contours : Zone }.clearHintingFlags

end Outline

end GridFit
