import GridFit.Hinter

/-!
# Options

The size of a font in points and the resolution of the display give the scale at which glyphs are
loaded.
-/

namespace GridFit

inductive Hinting where
  | none
  | vertical
  | full
deriving DecidableEq, Repr, Inhabited

/-- The options of a rendering. A size or a resolution that is not positive stands for its
default. -/
structure Options where
  size : Float := 0
  dpi : Float := 0
  hinting : Hinting := .none

namespace Options

def points (o : Options) : Float := if o.size > 0 then o.size else 12

def resolution (o : Options) : Float := if o.dpi > 0 then o.dpi else 72

/-- The integer part of `f`, or the least value if that does not fit. -/
def truncate (f : Float) : Int32 :=
  if f > -2147483649 ∧ f < 2147483648 then f.toInt32 else Int32.minValue

/-- The number of 26.6 units in one em. -/
def scale (o : Options) : Int32 := truncate (0.5 + o.points * o.resolution * 64 / 72)

def mode? (o : Options) : Option Mode :=
  match o.hinting with
  | .none => Option.none
  | .vertical => some { target := .smooth }
  | .full => some { target := .mono }

def newHinter (o : Options) : Option Hinter := o.mode?.map fun mode => { mode }

end Options

end GridFit
