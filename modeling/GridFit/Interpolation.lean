import GridFit.Zone

/-!
# Interpolation of untouched points

Along one axis, the untouched points of a contour follow the touched ones. With one touched point
the whole contour moves by as much as that point. With more, every run of untouched points is placed
relative to the touched points before and after it, in cyclic order.
-/

namespace GridFit

/-- Two reference points along an axis, the one with the smaller unscaled coordinate first. -/
structure Span where
  /-- The unscaled coordinate of the first reference. -/
  unit1 : Int32
  old1 : Int32
  old2 : Int32
  cur1 : Int32
  cur2 : Int32
  /-- The factor from unscaled to hinted distances, if the references do not coincide. -/
  scale? : Option Int32
deriving DecidableEq, Repr

namespace Span

/-- The span of two references, given their unscaled, scaled and current coordinates. -/
def ofReferences (unit1 old1 cur1 unit2 old2 cur2 : Int32) : Span :=
  if unit2 < unit1 then ordered unit2 old2 cur2 unit1 old1 cur1
  else ordered unit1 old1 cur1 unit2 old2 cur2
where
  ordered (unit1 old1 cur1 unit2 old2 cur2 : Int32) : Span :=
    { unit1, old1, old2, cur1, cur2
      scale? := if cur1 = cur2 ∨ unit1 = unit2 then none
        else some (Fixed.divFix (cur2 - cur1) (unit2 - unit1)) }

/-- The new coordinate of a point with scaled coordinate `old` and unscaled coordinate `unit`. A
point outside the references moves with the nearer one. -/
def place (s : Span) (old unit : Int32) : Int32 :=
  if old ≤ s.old1 then old + (s.cur1 - s.old1)
  else if s.old2 ≤ old then old + (s.cur2 - s.old2)
  else
    match s.scale? with
    | none => s.cur1
    | some k => s.cur1 + Fixed.mulFix (unit - s.unit1) k

end Span

namespace ZoneM

def currentCoord (a : Axis) (i : Nat) : ZoneM Int32 := do return (← pointAt i).coord a

def scaledCoord (a : Axis) (i : Nat) : ZoneM Int32 := do return (← scaledAt i).coord a

/-- The unscaled coordinate of a point, or its scaled one in an outline without. -/
def unitCoord (a : Axis) (i : Nat) : ZoneM Int32 := do
  match (← get).unscaled[i]? with
  | some p => return p.coord a
  | none => scaledCoord a i

def setCoord (a : Axis) (i : Nat) (v : Int32) : ZoneM Unit := modifyPoint i (·.withCoord a v)

def forPoints (first last : Nat) (f : Nat → ZoneM Unit) : ZoneM Unit :=
  (List.range' first (last + 1 - first)).forM f

/-- Moves the points from `first` to `last`, other than `p`, by as much as `p` has moved. -/
def followPoint (a : Axis) (first last p : Nat) : ZoneM Unit := do
  let delta := (← currentCoord a p) - (← scaledCoord a p)
  if delta ≠ 0 then
    forPoints first last fun i => do
      if i ≠ p then setCoord a i ((← currentCoord a i) + delta)

def span (a : Axis) (ref1 ref2 : Nat) : ZoneM Span := do
  return .ofReferences (← unitCoord a ref1) (← scaledCoord a ref1) (← currentCoord a ref1)
    (← unitCoord a ref2) (← scaledCoord a ref2) (← currentCoord a ref2)

/-- Places the points from `first` to `last` relative to `ref1` and `ref2`. -/
def interpolate (a : Axis) (first last ref1 ref2 : Nat) : ZoneM Unit := do
  if first ≤ last then
    let s ← span a ref1 ref2
    forPoints first last fun i => do
      setCoord a i (s.place (← scaledCoord a i) (← unitCoord a i))

/-- The points from `first` to `last` that are touched along an axis. -/
def touchedBetween (a : Axis) (first last : Nat) : ZoneM (List Nat) :=
  (List.range' first (last + 1 - first)).filterM fun i => do
    return (← flagsAt i).meets (.touched a)

/-- Interpolates between consecutive points of a list that starts with `p`, and returns the last. -/
def interpolateChain (a : Axis) (p : Nat) : List Nat → ZoneM Nat
  | [] => pure p
  | q :: rest => do
    interpolate a (p + 1) (q - 1) p q
    interpolateChain a q rest

def interpolateContour (a : Axis) (first last : Nat) : ZoneM Unit := do
  match ← touchedBetween a first last with
  | [] => pure ()
  | [p] => followPoint a first last p
  | p :: rest =>
    let q ← interpolateChain a p rest
    interpolate a (q + 1) last q p
    if first < p then interpolate a first (p - 1) q p

/-- Interpolates all contours. A contour that is out of bounds stops at that contour. -/
def interpolateUntouched (a : Axis) : ZoneM Unit := do
  (List.range (← get).contours.size).forM fun c => do
    let (first, last) ← contour c
    interpolateContour a first last

end ZoneM

end GridFit
