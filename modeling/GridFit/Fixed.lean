/-!
# Fixed-point arithmetic

Distances and coordinates are 26.6 numbers, scale factors are 16.16 numbers and the components of
unit vectors are 2.14 numbers. All of them are held in 32 bits. Products and quotients are formed
from magnitudes in 64 bits, rounded to the nearest integer with ties away from zero, and the low
32 bits of the result are kept.
-/

namespace GridFit.Fixed

/-- The quotient of a division by zero. -/
def maxValue : Int32 := 2147483647

/-- Clears the bits of `x` that are set in `mask`. -/
def clearBits (x mask : Int32) : Int32 := x &&& ~~~mask

/-- The largest multiple of 64, one pixel, that is at most `x`. -/
def floor (x : Int32) : Int32 := clearBits x 63

/-- The smallest multiple of 64 that is at least `x`. -/
def ceil (x : Int32) : Int32 := clearBits (x + 63) 63

/-- The multiple of 64 nearest to `x`; half a pixel goes up. -/
def round (x : Int32) : Int32 := clearBits (x + 32) 63

/-- The multiple of `n` nearest to `x`, for a power of two `n`. -/
def roundTo (x n : Int32) : Int32 := clearBits (x + n / 2) (n - 1)

/-- The magnitude of `x`. The least value has no positive counterpart and stays as it is. -/
def magnitude (x : Int32) : Int32 := if x < 0 then -x else x

/-- The quotient of `a` by `b`, truncated towards zero. Only a divisor other than zero has one. -/
def quotient {α : Type} [OfNat α 0] [Div α] (a b : α) (_ : b ≠ 0) : α := a / b

theorem toInt64_ne_zero {c : Int32} (h : c ≠ 0) : c.toInt64 ≠ 0 := by
  intro h0
  have h1 := congrArg Int64.toInt h0
  exact h (by simpa [← Int32.toInt_inj] using h1)

theorem abs_ne_zero {c : Int32} (h : c ≠ 0) : c.toInt64.abs ≠ 0 := by
  intro h0
  have h1 : c.toInt64.toBitVec.abs = 0 := congrArg Int64.toBitVec h0
  rw [BitVec.abs_eq] at h1
  split at h1
  · exact toInt64_ne_zero h (Int64.toBitVec_inj.1 (BitVec.neg_eq_zero_iff.1 h1))
  · exact toInt64_ne_zero h (Int64.toBitVec_inj.1 h1)

/-- The low 32 bits of `q`, negated if `negative`. -/
def signed (negative : Bool) (q : Int64) : Int32 := (if negative then -q else q).toInt32

/-- `a * b / c`, rounded to nearest. -/
def mulDiv (a b c : Int32) : Int32 :=
  if h : c = 0 then maxValue
  else
    let x := a.toInt64.abs
    let y := b.toInt64.abs
    let z := c.toInt64.abs
    signed (((a < 0) ^^ (b < 0)) ^^ (c < 0)) (quotient (x * y + z / 2) z (abs_ne_zero h))

/-- `a * b / c`, truncated towards zero. -/
def mulDivTrunc (a b c : Int32) : Int32 :=
  if h : c = 0 then maxValue
  else (quotient (a.toInt64 * b.toInt64) c.toInt64 (toInt64_ne_zero h)).toInt32

/-- `a` times the 16.16 number `b`, rounded to nearest. -/
def mulFix (a b : Int32) : Int32 :=
  signed ((a < 0) ^^ (b < 0)) ((a.toInt64.abs * b.toInt64.abs + 0x8000) >>> 16)

/-- `a / b` as a 16.16 number, rounded to nearest. -/
def divFix (a b : Int32) : Int32 :=
  if h : b = 0 then maxValue
  else
    let y := b.toInt64.abs
    signed ((a < 0) ^^ (b < 0)) (quotient ((a.toInt64.abs <<< 16) + y / 2) y (abs_ne_zero h))

/-- `a` times the 2.14 number `b`, rounded to nearest. -/
def mul14 (a b : Int32) : Int32 :=
  signed ((a < 0) ^^ (b < 0)) ((a.toInt64.abs * b.toInt64.abs + 0x2000) >>> 14)

/-- The dot product of `(px, py)` and the 2.14 vector `(vx, vy)`. The sign bit is added before the
shift, so that ties go away from zero on both sides. -/
def dot14 (px py vx vy : Int32) : Int32 :=
  let l := px.toInt64 * vx.toInt64 + py.toInt64 * vy.toInt64
  let sign := l >>> 63
  ((l + (0x2000 + sign)) >>> 14).toInt32

/-- The 16.16 factor from font units to 26.6 pixels, for `ppem` pixels per em in 26.6. -/
def scaleFactor (ppem : Int32) (unitsPerEm : Int64) : Int32 :=
  if h : unitsPerEm ≤ 0 then 0
  else
    let n := (ppem.toInt64 <<< 16) + unitsPerEm / 2
    (quotient n unitsPerEm fun h0 => h (h0 ▸ Int64.le_refl 0)).toInt32

/-- The font unit coordinate `x` in 26.6 pixels, for the 16.16 factor `s`. -/
def scaleUnits (x s : Int32) : Int32 :=
  let v := x.toInt64 * s.toInt64
  if v < 0 then -((-v + 0x8000) >>> 16).toInt32 else ((v + 0x8000) >>> 16).toInt32

end GridFit.Fixed
