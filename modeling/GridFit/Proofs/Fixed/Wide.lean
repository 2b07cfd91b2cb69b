import GridFit.Fixed
import Mathlib.Tactic.Linarith

/-!
# Computations in 64 bits

The products and quotients of fixed-point numbers are computed in 64 bits. Such a computation is
written down here as a term (`Fixed.Wide`), which has a value in 64 bits and one among the integers.
The two are equal if no part of the term leaves the 64-bit range (`Wide.toInt_eval`), and for the
computations of this library none does.
-/

namespace GridFit.Fixed

/-! ### Words of 32 and of 64 bits -/

theorem natAbs_le (x : Int32) : x.toInt.natAbs ≤ 2 ^ 31 := by
  have h1 := x.le_toInt
  have h2 := x.toInt_lt
  omega

theorem natAbs_mul_natAbs_le (x y : Int32) : x.toInt.natAbs * y.toInt.natAbs ≤ 2 ^ 62 := by
  have h := Nat.mul_le_mul (natAbs_le x) (natAbs_le y)
  omega

theorem natAbs_pos {x : Int32} (h : x ≠ 0) : 0 < x.toInt.natAbs :=
  Int.natAbs_pos.2 fun h0 => h (Int32.toInt_inj.1 h0)

theorem toInt_abs {x : Int64} (h : (x.toInt.natAbs : Int) < 2 ^ 63) :
    x.abs.toInt = x.toInt.natAbs := by
  have hne : x.toBitVec ≠ BitVec.intMin 64 := by
    intro hmin
    have hx : x.toInt = -2 ^ 63 := congrArg BitVec.toInt hmin
    omega
  exact BitVec.toInt_abs_eq_natAbs_of_ne_intMin hne

theorem smod_ofNat : ∀ k : Fin 64, ((Int64.ofNat k).toBitVec.smod 64).toNat = k := by decide

theorem toInt_shiftLeft {b : Int64} {k : Nat} (hb : (b.toBitVec.smod 64).toNat = k) (x : Int64) :
    (x <<< b).toInt = (x.toInt * 2 ^ k).bmod (2 ^ 64) := by
  have hs : (x <<< b).toInt = (x.toBitVec <<< k).toInt := by
    subst hb
    rfl
  have hx : x.toInt = (x.toBitVec.toNat : Int).bmod (2 ^ 64) := BitVec.toInt_eq_toNat_bmod _
  rw [hs, BitVec.toInt_shiftLeft, Nat.shiftLeft_eq, hx, Int.bmod_mul_bmod, Int.natCast_mul,
    Int.natCast_pow]
  rfl

/-- A shift to the right divides by a power of two, and rounds down. -/
theorem toInt_shiftRight {b : Int64} {k : Nat} (hb : (b.toBitVec.smod 64).toNat = k) (x : Int64) :
    (x >>> b).toInt = x.toInt / 2 ^ k := by
  have hs : (x >>> b).toInt = x.toInt >>> k := by
    subst hb
    exact BitVec.toInt_sshiftRight'
  rw [hs, Int.shiftRight_eq_div_pow]
  norm_cast

/-! ### Terms -/

/-- A computation in 64 bits from 32-bit numbers. -/
inductive Wide where
  | word (a : Int32)
  | literal (v : Int64)
  | neg (x : Wide)
  | abs (x : Wide)
  | add (x y : Wide)
  | mul (x y : Wide)
  | div (x y : Wide)
  | shiftLeft (x : Wide) (k : Fin 64)
  | shiftRight (x : Wide) (k : Fin 64)

namespace Wide

/-- The value in 64 bits, where each operation keeps the low 64 bits of its result. -/
def eval : Wide → Int64
  | word a => a.toInt64
  | literal v => v
  | neg x => -x.eval
  | abs x => x.eval.abs
  | add x y => x.eval + y.eval
  | mul x y => x.eval * y.eval
  | div x y => x.eval / y.eval
  | shiftLeft x k => x.eval <<< Int64.ofNat k
  | shiftRight x k => x.eval >>> Int64.ofNat k

/-- The value among the integers. -/
def exact : Wide → Int
  | word a => a.toInt
  | literal v => v.toInt
  | neg x => -x.exact
  | abs x => x.exact.natAbs
  | add x y => x.exact + y.exact
  | mul x y => x.exact * y.exact
  | div x y => x.exact.tdiv y.exact
  | shiftLeft x k => x.exact * 2 ^ k.val
  | shiftRight x k => x.exact / 2 ^ k.val

/-- A number of 64 bits. -/
def InRange (n : Int) : Prop := -2 ^ 63 ≤ n ∧ n < 2 ^ 63

/-- The values of a term and of all its parts are numbers of 64 bits, and no divisor is zero. -/
def Fits : Wide → Prop
  | word _ => True
  | literal _ => True
  | neg x => x.Fits ∧ InRange (-x.exact)
  | abs x => x.Fits ∧ InRange x.exact.natAbs
  | add x y => x.Fits ∧ y.Fits ∧ InRange (x.exact + y.exact)
  | mul x y => x.Fits ∧ y.Fits ∧ InRange (x.exact * y.exact)
  | div x y => x.Fits ∧ y.Fits ∧ y.exact ≠ 0 ∧ InRange (x.exact.tdiv y.exact)
  | shiftLeft x k => x.Fits ∧ InRange (x.exact * 2 ^ k.val)
  | shiftRight x _ => x.Fits

variable {t x y : Wide}

theorem InRange.bmod_eq {n : Int} (h : InRange n) : n.bmod (2 ^ 64) = n :=
  Int.bmod_eq_of_le h.1 h.2

theorem inRange_natCast {n : Nat} (h : n < 2 ^ 63) : InRange n := by
  constructor <;> omega

/-- A term that fits has the same value in 64 bits as among the integers. -/
theorem Fits.toInt_eval (h : t.Fits) : t.eval.toInt = t.exact := by
  induction t with
  | word a => exact Int32.toInt_toInt64 a
  | literal v => rfl
  | neg x ih => rw [eval, exact, Int64.toInt_neg, ih h.1, h.2.bmod_eq]
  | abs x ih =>
    have hx := ih h.1
    rw [eval, exact, toInt_abs, hx]
    rw [hx]
    exact h.2.2
  | add x y ihx ihy => rw [eval, exact, Int64.toInt_add, ihx h.1, ihy h.2.1, h.2.2.bmod_eq]
  | mul x y ihx ihy => rw [eval, exact, Int64.toInt_mul, ihx h.1, ihy h.2.1, h.2.2.bmod_eq]
  | div x y ihx ihy => rw [eval, exact, Int64.toInt_div, ihx h.1, ihy h.2.1, h.2.2.2.bmod_eq]
  | shiftLeft x k ih => rw [eval, exact, toInt_shiftLeft (smod_ofNat k), ih h.1, h.2.bmod_eq]
  | shiftRight x k ih => rw [eval, exact, toInt_shiftRight (smod_ofNat k), ih h]

theorem Fits.inRange (h : t.Fits) : InRange t.exact := by
  rw [← h.toInt_eval]
  exact ⟨t.eval.le_toInt, t.eval.toInt_lt⟩

/-- `t` comes to `n`, without overflow on the way. -/
structure Yields (t : Wide) (n : Int) : Prop where
  fits : t.Fits
  exact : t.exact = n

theorem Yields.toInt_toInt32 {n : Int} (h : t.Yields n) :
    t.eval.toInt32.toInt = n.bmod (2 ^ 32) := by
  rw [Int64.toInt_toInt32, h.fits.toInt_eval, h.exact]

/-! ### Parts of computations -/

/-- The product of two magnitudes. -/
def product (a b : Int32) : Wide := .mul (.abs (.word a)) (.abs (.word b))

/-- `n` divided by the magnitude of `c`, after half of the divisor has been added. -/
def quotient (n : Wide) (c : Int32) : Wide :=
  .div (.add n (.div (.abs (.word c)) (.literal 2))) (.abs (.word c))

/-- `n` shifted by `k` places, after `half` has been added. -/
def shifted (n : Wide) (half : Int64) (k : Fin 64) : Wide := .shiftRight (.add n (.literal half)) k

/-- `q`, negated if `negative`. -/
def signed (negative : Bool) (q : Wide) : Wide := if negative then .neg q else q

theorem signed_eval (negative : Bool) (q : Wide) :
    Fixed.signed negative q.eval = (signed negative q).eval.toInt32 := by
  cases negative <;> rfl

variable {m : Nat}

theorem yields_magnitude (a : Int32) : (abs (word a)).Yields a.toInt.natAbs where
  fits := ⟨trivial, inRange_natCast (Nat.lt_of_le_of_lt (natAbs_le a) (by decide))⟩
  exact := rfl

theorem yields_product (a b : Int32) :
    (product a b).Yields (a.toInt.natAbs * b.toInt.natAbs : Nat) where
  fits := by
    have h := natAbs_mul_natAbs_le a b
    refine ⟨(yields_magnitude a).fits, (yields_magnitude b).fits, ?_⟩
    rw [(yields_magnitude a).exact, (yields_magnitude b).exact, ← Int.natCast_mul]
    exact inRange_natCast (by omega)
  exact := (Int.natCast_mul _ _).symm

theorem yields_shiftLeft {k : Fin 64} (hx : x.Yields m) (hm : m * 2 ^ k.val < 2 ^ 63) :
    (shiftLeft x k).Yields (m * 2 ^ k.val : Nat) := by
  have he : (shiftLeft x k).exact = (m * 2 ^ k.val : Nat) := by
    rw [Wide.exact, hx.exact, Int.natCast_mul, Int.natCast_pow]
    rfl
  refine ⟨⟨hx.fits, ?_⟩, he⟩
  show InRange (shiftLeft x k).exact
  rw [he]
  exact inRange_natCast hm

/-- What has been added and divided is the quotient rounded to nearest. -/
theorem yields_quotient {c : Int32} (hc : c ≠ 0) (hx : x.Yields m) (hm : m ≤ 2 ^ 62) :
    (quotient x c).Yields ((m + c.toInt.natAbs / 2) / c.toInt.natAbs : Nat) := by
  have hle := natAbs_le c
  have hpos := natAbs_pos hc
  have hc' := yields_magnitude c
  have hhalf : (div (abs (word c)) (literal 2)).exact = (c.toInt.natAbs / 2 : Nat) := rfl
  have hsum : (add x (div (abs (word c)) (literal 2))).exact = (m + c.toInt.natAbs / 2 : Nat) := by
    rw [Wide.exact, hx.exact, hhalf, Int.natCast_add]
  have hquot : (quotient x c).exact = ((m + c.toInt.natAbs / 2) / c.toInt.natAbs : Nat) := by
    rw [quotient, Wide.exact, hsum, hc'.exact]
    rfl
  have hsmall := Nat.div_le_self (m + c.toInt.natAbs / 2) c.toInt.natAbs
  refine ⟨⟨⟨hx.fits, ⟨hc'.fits, trivial, by decide, ?_⟩, ?_⟩, hc'.fits, ?_, ?_⟩, hquot⟩
  · show InRange (div (abs (word c)) (literal 2)).exact
    rw [hhalf]
    exact inRange_natCast (by omega)
  · show InRange (add x (div (abs (word c)) (literal 2))).exact
    rw [hsum]
    exact inRange_natCast (by omega)
  · rw [hc'.exact]
    omega
  · show InRange (quotient x c).exact
    rw [hquot]
    exact inRange_natCast (by omega)

theorem yields_shifted (half : Int64) (k : Fin 64) (hx : x.Yields m) (hm : m ≤ 2 ^ 62)
    (hk : k.val ≤ 62) (hhalf : half.toInt = (2 ^ k.val / 2 : Nat)) :
    (shifted x half k).Yields ((m + 2 ^ k.val / 2) / 2 ^ k.val : Nat) := by
  have hle : 2 ^ k.val ≤ 2 ^ 62 := Nat.pow_le_pow_right (by decide) hk
  have hsum : (add x (literal half)).exact = (m + 2 ^ k.val / 2 : Nat) := by
    rw [Wide.exact, hx.exact, Wide.exact, hhalf, Int.natCast_add]
  refine ⟨⟨hx.fits, trivial, ?_⟩, ?_⟩
  · show InRange (add x (literal half)).exact
    rw [hsum]
    exact inRange_natCast (by omega)
  · rw [shifted, Wide.exact, hsum, Int.natCast_ediv, Int.natCast_pow]
    rfl

theorem yields_signed (negative : Bool) (hx : x.Yields m) :
    (signed negative x).Yields ((if negative then -1 else 1) * m) := by
  cases negative with
  | false => simpa [signed] using hx
  | true =>
    have hrange := hx.fits.inRange
    rw [hx.exact] at hrange
    have he : (neg x).exact = -m := by rw [Wide.exact, hx.exact]
    refine ⟨⟨hx.fits, ?_⟩, by rw [signed, if_pos rfl, he]; simp⟩
    show InRange (neg x).exact
    rw [he]
    have := hrange.2
    constructor <;> omega

theorem yields_mul (a b : Int32) : (mul (word a) (word b)).Yields (a.toInt * b.toInt) where
  fits := by
    have h := natAbs_mul_natAbs_le a b
    rw [← Int.natAbs_mul] at h
    refine ⟨trivial, trivial, ?_⟩
    show InRange (a.toInt * b.toInt)
    constructor <;> omega
  exact := rfl

theorem eval_neg_iff {n : Int} (hx : x.Yields n) : x.eval < 0 ↔ n < 0 := by
  rw [Int64.lt_iff_toInt_lt, hx.fits.toInt_eval, hx.exact]
  rfl

/-- A number that is negated if it is negative is its magnitude. -/
theorem yields_unsigned {n : Int} (hx : x.Yields n) (hn : n.natAbs < 2 ^ 63) :
    (signed (x.eval < 0) x).Yields n.natAbs := by
  by_cases h : n < 0
  · rw [decide_eq_true ((eval_neg_iff hx).2 h), signed, if_pos rfl]
    refine ⟨⟨hx.fits, ?_⟩, ?_⟩
    · rw [hx.exact]
      constructor <;> omega
    · rw [Wide.exact, hx.exact]
      omega
  · rw [decide_eq_false (mt (eval_neg_iff hx).1 h), signed, if_neg Bool.false_ne_true]
    exact ⟨hx.fits, hx.exact.trans (by omega)⟩

/-! ### The computations of this library

Each term is the body of the function of the same name, as the equations below say. -/

def mulDiv (a b c : Int32) : Wide :=
  signed (((a < 0) ^^ (b < 0)) ^^ (c < 0)) (quotient (product a b) c)

def mulFix (a b : Int32) : Wide := signed ((a < 0) ^^ (b < 0)) (shifted (product a b) 0x8000 16)

def mul14 (a b : Int32) : Wide := signed ((a < 0) ^^ (b < 0)) (shifted (product a b) 0x2000 14)

def divFix (a b : Int32) : Wide :=
  signed ((a < 0) ^^ (b < 0)) (quotient (.shiftLeft (.abs (.word a)) 16) b)

def dot14 (px py vx vy : Int32) : Wide :=
  let l := .add (.mul (.word px) (.word vx)) (.mul (.word py) (.word vy))
  .shiftRight (.add l (.add (.literal 0x2000) (.shiftRight l 63))) 14

def scaleUnits (x s : Int32) : Wide :=
  let v := .mul (.word x) (.word s)
  signed (v.eval < 0) (shifted (signed (v.eval < 0) v) 0x8000 16)

theorem mulDiv_eq_eval (a b : Int32) {c : Int32} (hc : c ≠ 0) :
    Fixed.mulDiv a b c = (mulDiv a b c).eval.toInt32 := by
  rw [Fixed.mulDiv, dif_neg hc]
  exact signed_eval _ (quotient (product a b) c)

theorem mulFix_eq_eval (a b : Int32) : Fixed.mulFix a b = (mulFix a b).eval.toInt32 :=
  signed_eval _ (shifted (product a b) 0x8000 16)

theorem mul14_eq_eval (a b : Int32) : Fixed.mul14 a b = (mul14 a b).eval.toInt32 :=
  signed_eval _ (shifted (product a b) 0x2000 14)

theorem divFix_eq_eval (a : Int32) {b : Int32} (hb : b ≠ 0) :
    Fixed.divFix a b = (divFix a b).eval.toInt32 := by
  rw [Fixed.divFix, dif_neg hb]
  exact signed_eval _ (quotient (.shiftLeft (.abs (.word a)) 16) b)

theorem dot14_eq_eval (px py vx vy : Int32) :
    Fixed.dot14 px py vx vy = (dot14 px py vx vy).eval.toInt32 := rfl

theorem scaleUnits_eq_eval (x s : Int32) :
    Fixed.scaleUnits x s = (scaleUnits x s).eval.toInt32 := by
  by_cases hv : x.toInt64 * s.toInt64 < 0
  · have hv' : (mul (word x) (word s)).eval < 0 := hv
    simp only [Fixed.scaleUnits, if_pos hv, scaleUnits, hv', decide_true, signed, if_true]
    -- the sign can be changed before or after the cut to 32 bits
    exact (Int64.toInt32_neg _).symm
  · have hv' : ¬(mul (word x) (word s)).eval < 0 := hv
    simp only [Fixed.scaleUnits, if_neg hv, scaleUnits, hv', decide_false, signed,
      Bool.false_eq_true, if_false]
    rfl

end Wide

end GridFit.Fixed
