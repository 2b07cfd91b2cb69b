import GridFit.Fixed

/-!
# Rounding of distances

A round state turns a distance into a distance on a grid. The five simple modes round the magnitude
and put the sign back. The two super modes have a period, a phase and a threshold of their own.
Rounding never changes the sign of a distance.
-/

namespace GridFit

/-- How distances are rounded. `reserved` stands for a mode number that has no meaning: such a mode
leaves distances as they are. -/
inductive RoundMode where
  | grid
  | halfGrid
  | doubleGrid
  | downToGrid
  | upToGrid
  | off
  | super
  | super45
  | reserved (code : UInt8)
deriving DecidableEq, Repr, Inhabited

namespace RoundMode

/-- The mode with number `code`. -/
def ofCode (code : UInt8) : RoundMode :=
  match code.toNat with
  | 0 => .grid
  | 1 => .halfGrid
  | 2 => .doubleGrid
  | 3 => .downToGrid
  | 4 => .upToGrid
  | 5 => .off
  | 6 => .super
  | 7 => .super45
  | _ => .reserved code

/-- The number of a mode. -/
def code : RoundMode → UInt8
  | .grid => 0
  | .halfGrid => 1
  | .doubleGrid => 2
  | .downToGrid => 3
  | .upToGrid => 4
  | .off => 5
  | .super => 6
  | .super45 => 7
  | .reserved code => code

/-- The name of a mode. -/
def name : RoundMode → String
  | .grid => "grid"
  | .halfGrid => "half grid"
  | .doubleGrid => "double grid"
  | .downToGrid => "down to grid"
  | .upToGrid => "up to grid"
  | .off => "off"
  | .super => "super"
  | .super45 => "super 45"
  | .reserved _ => "unknown"

end RoundMode

/-- The rounding part of the graphics state. Threshold, phase and period matter to the super modes
only. -/
structure RoundState where
  mode : RoundMode := .grid
  threshold : Int32 := 0
  phase : Int32 := 0
  period : Int32 := 64
deriving DecidableEq, Repr, Inhabited

namespace RoundState

open Fixed

/-- Rounds the magnitude of `d` by `f`. A result that wrapped around past zero becomes zero. -/
def keepSign (f : Int32 → Int32) (d : Int32) : Int32 :=
  if 0 ≤ d then max (f d) 0 else min (-f (-d)) 0

/-- Rounds to `phase` plus a multiple of the period, where `step` goes down to a multiple of the
period. A result on the other side of zero becomes the phase. -/
def onGrid (r : RoundState) (step : Int32 → Int32) (d : Int32) : Int32 :=
  if 0 ≤ d then
    let v := step (d + r.threshold - r.phase) + r.phase
    if v < 0 then r.phase else v
  else
    let v := -(step (r.threshold - r.phase - d) + r.phase)
    if 0 < v then -r.phase else v

/-- Rounds the distance `d`. -/
def round (r : RoundState) (d : Int32) : Int32 :=
  match r.mode with
  | .grid => keepSign Fixed.round d
  | .halfGrid => keepSign (fun x => floor x + 32) d
  | .doubleGrid => keepSign (fun x => roundTo x 32) d
  | .downToGrid => keepSign floor d
  | .upToGrid => keepSign ceil d
  | .off => d
  | .super => r.onGrid (fun x => clearBits x (r.period - 1)) d
  | .super45 =>
    if h : r.period = 0 then d else r.onGrid (fun x => quotient x r.period h * r.period) d
  | .reserved _ => d

/-- The period that bits 6 and 7 of a selector choose. -/
def selectPeriod (gridPeriod selector : Int32) : Int32 :=
  match (selector &&& 0xc0).toInt with
  | 0x00 => gridPeriod / 2
  | 0x80 => gridPeriod * 2
  | _ => gridPeriod

/-- The phase that bits 4 and 5 of a selector choose. -/
def selectPhase (period selector : Int32) : Int32 :=
  match (selector &&& 0x30).toInt with
  | 0x10 => period / 4
  | 0x20 => period / 2
  | 0x30 => period * 3 / 4
  | _ => 0

/-- The threshold that the low four bits of a selector choose. -/
def selectThreshold (period selector : Int32) : Int32 :=
  let n := selector &&& 0x0f
  if n = 0 then period - 1 else (n - 4) * period / 8

/-- The super round state of a selector, for a grid period in 18.14. -/
def ofSelector (gridPeriod selector : Int32) (mode : RoundMode) : RoundState :=
  let period := selectPeriod gridPeriod selector
  let phase := selectPhase period selector
  let threshold := selectThreshold period selector
  let pixels := period >>> 8
  { mode
    threshold := threshold >>> 8
    phase := phase >>> 8
    period := if pixels = 0 then 1 else pixels }

/-- One pixel in 18.14, the grid of `super`. -/
def squareGrid : Int32 := 0x4000

/-- Half the square root of two in 18.14, the grid of `super45`. -/
def diagonalGrid : Int32 := 0x2d41

end RoundState

end GridFit
