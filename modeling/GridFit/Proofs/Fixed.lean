import GridFit.Proofs.Fixed.Wide
import GridFit.Vec
import Mathlib.Tactic.Positivity

/-!
# Fixed-point arithmetic as integer arithmetic

The products and quotients of fixed-point numbers are formed from magnitudes in 64 bits. Nothing
overflows on the way (`Wide.Yields`), so each is the low 32 bits of the quotient of two integers,
rounded to the nearest one with ties away from zero (`Fixed.nearest`).
-/

namespace GridFit.Fixed

/-- The integer nearest to `n / d`, with ties away from zero. -/
def nearest (n d : Int) : Int := n.sign * d.sign * ((n.natAbs + d.natAbs / 2) / d.natAbs : Nat)

/-! ### Rounding to the nearest integer -/

section Nearest

variable {n n' d k : Int}

theorem nearest_of_nonneg (hn : 0 ≤ n) (hd : 0 < d) : nearest n d = (n + d / 2) / d := by
  obtain ⟨n, rfl⟩ := Int.eq_ofNat_of_zero_le hn
  obtain ⟨d, rfl⟩ := Int.eq_ofNat_of_zero_le hd.le
  rcases Nat.eq_zero_or_pos n with rfl | hpos
  · have : (d : Int) / 2 / d = 0 := Int.ediv_eq_zero_of_lt (by omega) (by omega)
    simp [nearest, this]
  · rw [nearest, Int.sign_eq_one_of_pos (by omega), Int.sign_eq_one_of_pos hd]
    simp

theorem nearest_neg_left (n d : Int) : nearest (-n) d = -nearest n d := by
  rw [nearest, nearest, Int.sign_neg, Int.natAbs_neg, Int.neg_mul, Int.neg_mul]

theorem nearest_neg_right (n d : Int) : nearest n (-d) = -nearest n d := by
  rw [nearest, nearest, Int.sign_neg, Int.natAbs_neg, Int.mul_neg, Int.neg_mul]

theorem nearest_of_neg (hn : n < 0) (hd : 0 < d) : nearest n d = -((-n + d / 2) / d) := by
  have h := nearest_neg_left (-n) d
  rw [Int.neg_neg] at h
  rw [h, nearest_of_nonneg (by omega) hd]

theorem nearest_nonneg (hn : 0 ≤ n) (hd : 0 < d) : 0 ≤ nearest n d := by
  rw [nearest_of_nonneg hn hd]
  exact Int.ediv_nonneg (by omega) hd.le

theorem nearest_mono (hn : 0 ≤ n) (hd : 0 < d) (h : n ≤ n') : nearest n d ≤ nearest n' d := by
  rw [nearest_of_nonneg hn hd, nearest_of_nonneg (hn.trans h) hd]
  exact Int.ediv_le_ediv hd (by omega)

theorem nearest_le (hn : 0 ≤ n) (hd : 0 < d) (h : n + d / 2 < (k + 1) * d) : nearest n d ≤ k := by
  rw [nearest_of_nonneg hn hd]
  exact Int.lt_add_one_iff.1 (Int.ediv_lt_of_lt_mul hd h)

theorem nearest_mul_self (k : Int) (hd : 0 < d) : nearest (k * d) d = k := by
  have hq : (k.natAbs * d.natAbs + d.natAbs / 2) / d.natAbs = k.natAbs := by
    rw [Nat.add_comm, Nat.add_mul_div_right _ _ (by omega), Nat.div_eq_of_lt (by omega),
      Nat.zero_add]
  rw [nearest, Int.natAbs_mul, hq, Int.sign_mul, Int.sign_eq_one_of_pos hd, mul_one, mul_one]
  exact Int.sign_mul_natAbs k

theorem natAbs_nearest_le (n d : Int) :
    (nearest n d).natAbs ≤ (n.natAbs + d.natAbs / 2) / d.natAbs := by
  have hsign (k : Int) : k.sign.natAbs ≤ 1 := by
    rw [Int.natAbs_sign]
    split <;> decide
  rw [nearest, Int.natAbs_mul, Int.natAbs_mul, Int.natAbs_natCast]
  calc n.sign.natAbs * d.sign.natAbs * ((n.natAbs + d.natAbs / 2) / d.natAbs)
    _ ≤ 1 * 1 * ((n.natAbs + d.natAbs / 2) / d.natAbs) :=
      Nat.mul_le_mul_right _ (Nat.mul_le_mul (hsign n) (hsign d))
    _ = (n.natAbs + d.natAbs / 2) / d.natAbs := Nat.one_mul _

end Nearest

/-! ### Products and quotients -/

theorem sign_of_ne_zero {x : Int32} (h : x.toInt ≠ 0) :
    x.toInt.sign = if decide (x < 0) then -1 else 1 := by
  have h0 : (0 : Int32).toInt = 0 := rfl
  rcases Int.lt_or_gt_of_ne h with hneg | hpos
  · have : x < 0 := by rwa [Int32.lt_iff_toInt_lt, h0]
    simp [this, Int.sign_eq_neg_one_of_neg hneg]
  · have : ¬x < 0 := by
      rw [Int32.lt_iff_toInt_lt, h0]
      omega
    simp [this, Int.sign_eq_one_of_pos hpos]

/-- Signs multiply as their minus signs cancel. -/
theorem sign_xor (p q : Bool) : (if p ^^ q then -1 else 1 : Int) =
    (if p then -1 else 1) * (if q then -1 else 1) := by
  cases p <;> cases q <;> rfl

namespace Wide

/-- A quotient of magnitudes with the sign of the quotient is the nearest integer. -/
theorem yields_nearest {negative : Bool} {q : Wide} {n d : Int} (hd : d ≠ 0)
    (hq : q.Yields ((n.natAbs + d.natAbs / 2) / d.natAbs : Nat))
    (hs : n ≠ 0 → (if negative then -1 else 1 : Int) = n.sign * d.sign) :
    (signed negative q).Yields (nearest n d) := by
  have h := yields_signed negative hq
  refine ⟨h.fits, h.exact.trans ?_⟩
  rw [nearest]
  by_cases hn : n = 0
  · have h0 : (0 + d.natAbs / 2) / d.natAbs = 0 := Nat.div_eq_of_lt (by omega)
    rw [hn, Int.natAbs_zero, h0]
    simp
  · rw [hs hn]

theorem yields_mulDiv (a b : Int32) {c : Int32} (hc : c ≠ 0) :
    (mulDiv a b c).Yields (nearest (a.toInt * b.toInt) c.toInt) := by
  have hc0 : c.toInt ≠ 0 := fun h => hc (Int32.toInt_inj.1 h)
  have hq := yields_quotient hc (yields_product a b) (natAbs_mul_natAbs_le a b)
  rw [← Int.natAbs_mul] at hq
  refine yields_nearest hc0 hq fun hn => ?_
  obtain ⟨ha, hb⟩ := mul_ne_zero_iff.1 hn
  rw [sign_xor, sign_xor, Int.sign_mul, sign_of_ne_zero ha, sign_of_ne_zero hb,
    sign_of_ne_zero hc0]

/-- A product of fixed-point numbers, one of which has `k` fractional bits. -/
theorem yields_fixedProduct (a b : Int32) {half : Int64} {k : Fin 64} (hk : k.val ≤ 62)
    (hhalf : half.toInt = (2 ^ k.val / 2 : Nat)) :
    (signed ((a < 0) ^^ (b < 0)) (shifted (product a b) half k)).Yields
      (nearest (a.toInt * b.toInt) (2 ^ k.val)) := by
  have hd : ((2 : Int) ^ k.val).natAbs = 2 ^ k.val := Int.natAbs_pow 2 k.val
  have hpos : (0 : Int) < 2 ^ k.val := by positivity
  have hq := yields_shifted half k (yields_product a b) (natAbs_mul_natAbs_le a b) hk hhalf
  rw [← Int.natAbs_mul, ← hd] at hq
  refine yields_nearest hpos.ne' hq fun hn => ?_
  obtain ⟨ha, hb⟩ := mul_ne_zero_iff.1 hn
  rw [sign_xor, Int.sign_mul, sign_of_ne_zero ha, sign_of_ne_zero hb,
    Int.sign_eq_one_of_pos hpos, mul_one]

theorem yields_mulFix (a b : Int32) :
    (mulFix a b).Yields (nearest (a.toInt * b.toInt) 0x10000) :=
  yields_fixedProduct a b (by decide) rfl

theorem yields_mul14 (a b : Int32) :
    (mul14 a b).Yields (nearest (a.toInt * b.toInt) 0x4000) :=
  yields_fixedProduct a b (by decide) rfl

theorem yields_divFix (a : Int32) {b : Int32} (hb : b ≠ 0) :
    (divFix a b).Yields (nearest (a.toInt * 0x10000) b.toInt) := by
  have hb0 : b.toInt ≠ 0 := fun h => hb (Int32.toInt_inj.1 h)
  have hal : a.toInt.natAbs * 2 ^ (16 : Fin 64).val ≤ 2 ^ 47 :=
    Nat.mul_le_mul_right _ (natAbs_le a)
  have hscaled : (a.toInt * 0x10000).natAbs = a.toInt.natAbs * 2 ^ (16 : Fin 64).val :=
    Int.natAbs_mul _ _
  have hshift := yields_shiftLeft (k := 16) (yields_magnitude a) (by omega)
  have hq := yields_quotient hb hshift (by omega)
  rw [← hscaled] at hq
  refine yields_nearest hb0 hq fun hn => ?_
  obtain ⟨ha, -⟩ := mul_ne_zero_iff.1 hn
  rw [sign_xor, Int.sign_mul, sign_of_ne_zero ha, sign_of_ne_zero hb0,
    Int.sign_eq_one_of_pos (by decide), mul_one]

/-- The sign bit turns the shift of a negative sum, which rounds down, into rounding to nearest. -/
theorem add_sign_ediv {n : Int} (hn : n.natAbs ≤ 2 ^ 46) :
    (n + (0x2000 + n / 2 ^ 63)) / 2 ^ 14 = nearest n 0x4000 := by
  rcases lt_or_ge n 0 with hneg | hpos
  · have hsign : n / 2 ^ 63 = -1 := by omega
    rw [nearest_of_neg hneg (by decide), hsign]
    omega
  · have hsign : n / 2 ^ 63 = 0 := by omega
    rw [nearest_of_nonneg hpos (by decide), hsign]
    rfl

theorem yields_dot14 (px py : Int32) {vx vy : Int32} (hx : vx.toInt.natAbs ≤ 0x4000)
    (hy : vy.toInt.natAbs ≤ 0x4000) : (dot14 px py vx vy).Yields
      (nearest (px.toInt * vx.toInt + py.toInt * vy.toInt) 0x4000) := by
  have hpx := Nat.mul_le_mul (natAbs_le px) hx
  have hpy := Nat.mul_le_mul (natAbs_le py) hy
  rw [← Int.natAbs_mul] at hpx hpy
  have hsum : (px.toInt * vx.toInt + py.toInt * vy.toInt).natAbs ≤ 2 ^ 46 := by omega
  refine ⟨?_, add_sign_ediv hsum⟩
  simp only [dot14, Fits, Wide.exact, InRange, true_and]
  generalize px.toInt * vx.toInt = u at hpx
  generalize py.toInt * vy.toInt = w at hpy
  have hhalf : (0x2000 : Int64).toInt = 0x2000 := rfl
  have hplaces : (63 : Fin 64).val = 63 := rfl
  rw [hhalf, hplaces]
  omega

/-- Here the sign is taken from the product, not from its factors. -/
theorem yields_scaleUnits (x s : Int32) :
    (scaleUnits x s).Yields (nearest (x.toInt * s.toInt) 0x10000) := by
  have hv := yields_mul x s
  have hle := natAbs_mul_natAbs_le x s
  rw [← Int.natAbs_mul] at hle
  have hq := yields_shifted 0x8000 16 (yields_unsigned hv (by omega)) hle (by decide) rfl
  refine yields_nearest (by decide) hq fun hn => ?_
  simp only [eval_neg_iff hv, decide_eq_true_eq]
  rcases lt_or_gt_of_ne hn with h | h
  · rw [if_pos h, Int.sign_eq_neg_one_of_neg h]
    rfl
  · rw [if_neg h.le.not_gt, Int.sign_eq_one_of_pos h]
    rfl

end Wide

theorem toInt_mulDiv (a b : Int32) {c : Int32} (hc : c ≠ 0) :
    (mulDiv a b c).toInt = (nearest (a.toInt * b.toInt) c.toInt).bmod (2 ^ 32) := by
  rw [Wide.mulDiv_eq_eval a b hc, (Wide.yields_mulDiv a b hc).toInt_toInt32]

theorem toInt_mulFix (a b : Int32) :
    (mulFix a b).toInt = (nearest (a.toInt * b.toInt) 0x10000).bmod (2 ^ 32) := by
  rw [Wide.mulFix_eq_eval, (Wide.yields_mulFix a b).toInt_toInt32]

theorem toInt_divFix (a : Int32) {b : Int32} (hb : b ≠ 0) :
    (divFix a b).toInt = (nearest (a.toInt * 0x10000) b.toInt).bmod (2 ^ 32) := by
  rw [Wide.divFix_eq_eval a hb, (Wide.yields_divFix a hb).toInt_toInt32]

theorem toInt_dot14 (px py : Int32) {vx vy : Int32} (hx : vx.toInt.natAbs ≤ 0x4000)
    (hy : vy.toInt.natAbs ≤ 0x4000) : (dot14 px py vx vy).toInt =
      (nearest (px.toInt * vx.toInt + py.toInt * vy.toInt) 0x4000).bmod (2 ^ 32) := by
  rw [Wide.dot14_eq_eval, (Wide.yields_dot14 px py hx hy).toInt_toInt32]

/-- Coordinates in font units are scaled as all other values are. -/
theorem scaleUnits_eq_mulFix (x s : Int32) : scaleUnits x s = mulFix x s := by
  rw [← Int32.toInt_inj, toInt_mulFix, Wide.scaleUnits_eq_eval,
    (Wide.yields_scaleUnits x s).toInt_toInt32]

/-! ### Results that fit -/

theorem toInt_sub_of_fits {x y : Int32} (h : -2 ^ 31 ≤ x.toInt - y.toInt)
    (h' : x.toInt - y.toInt < 2 ^ 31) : (x - y).toInt = x.toInt - y.toInt := by
  rw [Int32.toInt_sub]
  exact Int.bmod_eq_of_le (by omega) (by omega)

theorem toInt_add_of_fits {x y : Int32} (h : -2 ^ 31 ≤ x.toInt + y.toInt)
    (h' : x.toInt + y.toInt < 2 ^ 31) : (x + y).toInt = x.toInt + y.toInt := by
  rw [Int32.toInt_add]
  exact Int.bmod_eq_of_le (by omega) (by omega)

theorem toInt_neg_of_fits {x : Int32} (h : x.toInt.natAbs < 2 ^ 31) : (-x).toInt = -x.toInt := by
  rw [Int32.toInt_neg]
  exact Int.bmod_eq_of_le (by omega) (by omega)

/-- A truncated quotient goes towards zero, so that nothing overflows. -/
theorem toInt_div_of_pos (x : Int32) {y : Int32} (hy : 0 < y.toInt) :
    (x / y).toInt = x.toInt.tdiv y.toInt := by
  have hlow := x.le_toInt
  have hhigh := x.toInt_lt
  have hle : (x.toInt.tdiv y.toInt).natAbs ≤ x.toInt.natAbs := by
    rw [Int.natAbs_tdiv]
    exact Nat.div_le_self _ _
  have hsign : x.toInt < 0 → x.toInt.tdiv y.toInt ≤ 0 := fun hneg => by
    simpa using Int.tdiv_le_tdiv hy hneg.le
  rw [Int32.toInt_div]
  exact Int.bmod_eq_of_le (by omega) (by omega)

theorem toInt_max (a b : Int32) : (max a b).toInt = max a.toInt b.toInt := by
  show (if a ≤ b then b else a).toInt = _
  rw [Int.max_def, apply_ite Int32.toInt]
  simp only [Int32.le_iff_toInt_le]

theorem toInt_min (a b : Int32) : (min a b).toInt = min a.toInt b.toInt := by
  show (if a ≤ b then a else b).toInt = _
  rw [Int.min_def, apply_ite Int32.toInt]
  simp only [Int32.le_iff_toInt_le]

theorem bmod_toInt (x : Int32) : x.toInt.bmod (2 ^ 32) = x.toInt :=
  Int.bmod_eq_of_le x.le_toInt x.toInt_lt

theorem bmod_le_self {n : Int} (hn : 0 ≤ n) : n.bmod (2 ^ 32) ≤ n := by
  rcases lt_or_ge n (2 ^ 31) with hlt | hge
  · rw [Int.bmod_eq_of_le (by omega) (by omega)]
  · have hbound := Int.bmod_lt (x := n) (m := 2 ^ 32) (by decide)
    omega

/-- A distance that is scaled down and up again is the same. -/
theorem mulDiv_cancel (x : Int32) {c : Int32} (hc : c ≠ 0) : mulDiv x c c = x := by
  have hne : c.toInt ≠ 0 := fun h => hc (Int32.toInt_inj.1 h)
  have hround : nearest (x.toInt * c.toInt) c.toInt = x.toInt := by
    rcases lt_or_gt_of_ne hne with hneg | hpos
    · have hopposite := nearest_mul_self (-x.toInt) (d := -c.toInt) (by omega)
      rwa [neg_mul_neg, nearest_neg_right, neg_inj] at hopposite
    · exact nearest_mul_self _ hpos
  rw [← Int32.toInt_inj, toInt_mulDiv x c hc, hround, bmod_toInt]

theorem mulDiv_neg (x y : Int32) {c : Int32} (hc : c ≠ 0) (hfits : c.toInt.natAbs < 2 ^ 31) :
    mulDiv x y (-c) = -mulDiv x y c := by
  have hneg := toInt_neg_of_fits hfits
  have hne : -c ≠ 0 := by
    intro h
    rw [h] at hneg
    exact hc (Int32.toInt_inj.1 (neg_eq_zero.1 hneg.symm))
  rw [← Int32.toInt_inj, Int32.toInt_neg, toInt_mulDiv x y hne, toInt_mulDiv x y hc, hneg,
    nearest_neg_right, Int.bmod_neg_bmod]

theorem toInt_magnitude {x : Int32} (h : x.toInt.natAbs < 2 ^ 31) :
    (magnitude x).toInt = x.toInt.natAbs := by
  have hzero : (0 : Int32).toInt = 0 := rfl
  unfold magnitude
  split
  · rename_i hneg
    rw [Int32.lt_iff_toInt_lt, hzero] at hneg
    rw [toInt_neg_of_fits h]
    omega
  · rename_i hpos
    rw [Int32.lt_iff_toInt_lt, hzero] at hpos
    omega

theorem magnitude_neg (x : Int32) : magnitude (-x) = magnitude x := by
  have hzero : (0 : Int32).toInt = 0 := rfl
  by_cases hfits : x.toInt.natAbs < 2 ^ 31
  · have hneg := toInt_neg_of_fits hfits
    unfold magnitude
    simp only [Int32.lt_iff_toInt_lt, hneg, hzero]
    rcases lt_trichotomy x.toInt 0 with hx | hx | hx
    · rw [if_neg (by omega), if_pos hx]
    · rw [if_neg (by omega), if_neg (by omega), ← Int32.toInt_inj]
      omega
    · rw [if_pos (by omega), if_neg (by omega), Int32.neg_neg]
  · -- the least value is its own negative
    have hmin : x.toInt = -2 ^ 31 := by
      have hle := natAbs_le x
      have hlt := x.toInt_lt
      omega
    have hneg : -x = x := by
      rw [← Int32.toInt_inj, Int32.toInt_neg, hmin]
      rfl
    rw [hneg]

/-! ### Masks of low bits -/

theorem and_add_and_not (x m : BitVec 32) : (x &&& m) + (x &&& ~~~m) = x := by
  have hz : (x &&& m) &&& (x &&& ~~~m) = 0#32 := by
    ext i hi
    simp only [BitVec.getElem_and, BitVec.getElem_not, BitVec.getElem_zero]
    cases x[i] <;> cases m[i] <;> rfl
  rw [BitVec.add_eq_or_of_and_eq_zero _ _ hz]
  ext i hi
  simp only [BitVec.getElem_or, BitVec.getElem_and, BitVec.getElem_not]
  cases x[i] <;> cases m[i] <;> rfl

theorem clearBits_eq_sub (x mask : Int32) : clearBits x mask = x - (x &&& mask) := by
  have h : (x &&& mask) + clearBits x mask = x :=
    Int32.toBitVec_inj.1 (and_add_and_not x.toBitVec mask.toBitVec)
  grind

section Mask

variable {mask : Int32} {k : Nat} (hk : k ≤ 31) (hm : mask.toBitVec.toNat = 2 ^ k - 1) (x : Int32)
include hk hm

theorem toInt_and_mask : (x &&& mask).toInt = x.toInt % 2 ^ k := by
  have hlow : (x &&& mask).toBitVec.toNat = x.toBitVec.toNat % 2 ^ k := by
    rw [Int32.toBitVec_and, BitVec.toNat_and, hm, Nat.and_two_pow_sub_one_eq_mod]
  have hlt : x.toBitVec.toNat % 2 ^ k < 2 ^ k := Nat.mod_lt _ (Nat.two_pow_pos k)
  have hle : 2 ^ k ≤ 2 ^ 31 := Nat.pow_le_pow_right (by decide) hk
  have hdvd : (2 : Int) ^ k ∣ x.toBitVec.toNat - x.toInt := by
    rw [← Int32.toInt_toBitVec, BitVec.toInt_eq_toNat_bmod]
    refine Int.dvd_trans ?_ Int.dvd_self_sub_bmod
    exact_mod_cast Nat.pow_dvd_pow 2 (by omega : k ≤ 32)
  rw [← Int32.toInt_toBitVec, BitVec.toInt_eq_toNat_of_lt (by omega), hlow]
  exact_mod_cast Int.emod_eq_emod_iff_emod_sub_eq_zero.2 (Int.emod_eq_zero_of_dvd hdvd)

/-- Without its lowest `k` bits a number is the multiple of `2 ^ k` that it was at or above. -/
theorem toInt_clearBits : (clearBits x mask).toInt = x.toInt / 2 ^ k * 2 ^ k := by
  have hpos : (0 : Int) < 2 ^ k := by positivity
  obtain ⟨c, hc⟩ : (2 : Int) ^ k ∣ 2 ^ 31 := by exact_mod_cast Nat.pow_dvd_pow 2 hk
  have hmod := Int.emod_add_ediv_mul x.toInt (2 ^ k)
  have hlow : -c ≤ x.toInt / 2 ^ k := by
    have := x.le_toInt
    exact Int.le_ediv_of_mul_le hpos (by linarith)
  have hfits : -2 ^ 31 ≤ x.toInt / 2 ^ k * 2 ^ k := by nlinarith
  have hnonneg := Int.emod_nonneg x.toInt hpos.ne'
  have hlt := x.toInt_lt
  rw [clearBits_eq_sub, toInt_sub_of_fits, toInt_and_mask hk hm]
  · omega
  · rw [toInt_and_mask hk hm]; omega
  · rw [toInt_and_mask hk hm]; omega

end Mask

end GridFit.Fixed

namespace GridFit.Vec

/-- The projection on an axis is the coordinate. -/
theorem dot_ofAxis (a : Axis) (p : Point) : (ofAxis a).dot p = p.coord a := by
  have hone : (0x4000 : Int32).toInt = 0x4000 := rfl
  have hzero : (0 : Int32).toInt = 0 := rfl
  rw [← Int32.toInt_inj]
  cases a with
  | x =>
    show (Fixed.dot14 p.x p.y 0x4000 0).toInt = p.x.toInt
    rw [Fixed.toInt_dot14 _ _ (by decide) (by decide), hone, hzero, mul_zero, add_zero,
      Fixed.nearest_mul_self _ (by decide), Fixed.bmod_toInt]
  | y =>
    show (Fixed.dot14 p.x p.y 0 0x4000).toInt = p.y.toInt
    rw [Fixed.toInt_dot14 _ _ (by decide) (by decide), hone, hzero, mul_zero, zero_add,
      Fixed.nearest_mul_self _ (by decide), Fixed.bmod_toInt]

end GridFit.Vec
