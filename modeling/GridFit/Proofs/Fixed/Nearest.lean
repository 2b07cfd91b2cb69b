import GridFit.Instance
import GridFit.Proofs.Fixed
import Mathlib.Algebra.Order.Field.Basic
import Mathlib.Algebra.Order.Ring.Rat
import Mathlib.Tactic.Ring

/-!
# Fixed-point arithmetic as rational arithmetic

Each product, quotient and dot product of fixed-point numbers is computed in 64 bits without
overflow, and is the low 32 bits of the integer nearest to the rational number that it stands for,
where ties go away from zero (`Fixed.computes_nearest`). Coordinates and control values are scaled
by two different computations; they give the same.
-/

namespace GridFit.Fixed

/-! ### Nearest integers -/

/-- `q` is the integer nearest to `x`. Of two that are equally near, it is the one farther from
zero. -/
structure RoundsTo (x : ℚ) (q : ℤ) : Prop where
  nearest : ∀ k : ℤ, |x - q| ≤ |x - k|
  away : ∀ k : ℤ, |x - k| = |x - q| → |k| ≤ |q|

section RoundsTo

variable {x : ℚ} {q : ℤ}

/-- No integer less than half a unit away from `q` is nearer, and at half a unit `q` is the upper
one of two. -/
theorem RoundsTo.of_bounds (hx : 0 ≤ x) (hlow : q - 1 / 2 ≤ x) (hhigh : x < q + 1 / 2) :
    RoundsTo x q := by
  have hq : 0 ≤ q := by
    by_contra hneg
    have : (q : ℚ) ≤ -1 := by exact_mod_cast (by omega : q ≤ -1)
    linarith
  have hclose : |x - q| ≤ 1 / 2 := abs_le.2 ⟨by linarith, by linarith⟩
  have hbelow {k : ℤ} (hk : k < q) : 1 / 2 ≤ |x - k| := by
    have hk' : (k : ℚ) + 1 ≤ q := by exact_mod_cast (by omega : k + 1 ≤ q)
    exact le_abs.2 (.inl (by linarith))
  have habove {k : ℤ} (hk : q < k) : 1 / 2 < |x - k| := by
    have hk' : (q : ℚ) + 1 ≤ k := by exact_mod_cast (by omega : q + 1 ≤ k)
    exact lt_abs.2 (.inr (by linarith))
  constructor
  · intro k
    rcases lt_trichotomy k q with hk | rfl | hk
    · exact hclose.trans (hbelow hk)
    · exact le_rfl
    · exact hclose.trans (habove hk).le
  · intro k heq
    rcases lt_trichotomy k q with hk | rfl | hk
    · -- an integer below `q` that is as near as `q` is not negative, since `x` is not
      have hnear : x - k ≤ 1 / 2 := (le_abs_self _).trans (heq ▸ hclose)
      have hlarge : (-1 : ℚ) < k := by linarith
      have hk' : -1 < k := by exact_mod_cast hlarge
      rw [abs_of_nonneg hq, abs_of_nonneg (by omega)]
      exact hk.le
    · exact le_rfl
    · exact absurd (heq ▸ habove hk) (not_lt.2 hclose)

theorem RoundsTo.neg (h : RoundsTo x q) : RoundsTo (-x) (-q) := by
  have hflip (k : ℤ) : |-x - k| = |x - (-k : ℤ)| := by
    rw [← abs_neg]
    congr 1
    push_cast
    ring
  constructor
  · intro k
    rw [hflip, hflip, neg_neg]
    exact h.nearest (-k)
  · intro k hk
    rw [hflip, hflip, neg_neg] at hk
    simpa using h.away (-k) hk

theorem roundsTo_natDiv (n : ℕ) {d : ℕ} (hd : 0 < d) :
    RoundsTo ((n : ℚ) / d) ((n + d / 2) / d : ℕ) := by
  have hdiv := Nat.div_add_mod (n + d / 2) d
  have hmod := Nat.mod_lt (n + d / 2) hd
  generalize (n + d / 2) / d = q at hdiv ⊢
  have hlow : 2 * (q * d) ≤ 2 * n + d := by
    rw [Nat.mul_comm q d]
    omega
  have hhigh : 2 * n < 2 * (q * d) + d := by
    rw [Nat.mul_comm q d]
    omega
  have hdpos : (0 : ℚ) < d := by exact_mod_cast hd
  have hlow' : 2 * (q * d : ℚ) ≤ 2 * n + d := by exact_mod_cast hlow
  have hhigh' : 2 * (n : ℚ) < 2 * (q * d) + d := by exact_mod_cast hhigh
  refine .of_bounds (by positivity) ?_ ?_
  · rw [le_div_iff₀ hdpos]
    push_cast
    linarith
  · rw [div_lt_iff₀ hdpos]
    push_cast
    linarith

theorem roundsTo_nearest (n : ℤ) {d : ℤ} (hd : d ≠ 0) : RoundsTo ((n : ℚ) / d) (nearest n d) := by
  have hbase (m : ℕ) {e : ℕ} (he : 0 < e) : RoundsTo (((m : ℤ) : ℚ) / (e : ℤ)) (nearest m e) := by
    rw [nearest_of_nonneg (Int.natCast_nonneg m) (by omega)]
    exact roundsTo_natDiv m he
  obtain ⟨m, rfl | rfl⟩ := n.eq_nat_or_neg <;> obtain ⟨e, rfl | rfl⟩ := d.eq_nat_or_neg
  · exact hbase m (by omega)
  · rw [nearest_neg_right, Int.cast_neg, div_neg]
    exact (hbase m (by omega)).neg
  · rw [nearest_neg_left, Int.cast_neg, neg_div]
    exact (hbase m (by omega)).neg
  · rw [nearest_neg_left, nearest_neg_right, neg_neg, Int.cast_neg, Int.cast_neg, neg_div_neg_eq]
    exact hbase m (by omega)

end RoundsTo

/-! ### Computations that are exact -/

/-- `t` computes `r` without overflow, and `r` is the low 32 bits of the integer nearest to `x`. -/
structure Computes (t : Wide) (r : Int32) (x : ℚ) : Prop where
  eval : t.eval.toInt32 = r
  fits : t.Fits
  nearest : RoundsTo x t.exact
  low : r = Int32.ofInt t.exact

theorem Wide.Yields.computes {t : Wide} {r : Int32} {n d : ℤ} {x : ℚ}
    (h : t.Yields (Fixed.nearest n d)) (hr : r = t.eval.toInt32) (hd : d ≠ 0)
    (hx : x = (n : ℚ) / d) : Computes t r x where
  eval := hr.symm
  fits := h.fits
  nearest := by
    rw [h.exact, hx]
    exact roundsTo_nearest n hd
  low := by
    have hlow : r.toInt = t.exact.bmod (2 ^ 32) := by rw [hr, h.toInt_toInt32, h.exact]
    exact Int32.toInt_inj.1 (hlow.trans Int32.toInt_ofInt.symm)

/-- Products and quotients are computed without overflow, and are the low 32 bits of the integers
nearest to the exact results, ties going away from zero. So are dot products with vectors whose
components are at most one. Coordinates are scaled as control values are. -/
theorem computes_nearest :
    (∀ a b c : Int32, c ≠ 0 →
      Computes (.mulDiv a b c) (mulDiv a b c) (a.toInt * b.toInt / c.toInt)) ∧
    (∀ a b : Int32, Computes (.mulFix a b) (mulFix a b) (a.toInt * b.toInt / 2 ^ 16)) ∧
    (∀ a b : Int32, Computes (.mul14 a b) (mul14 a b) (a.toInt * b.toInt / 2 ^ 14)) ∧
    (∀ a b : Int32, b ≠ 0 → Computes (.divFix a b) (divFix a b) (a.toInt * 2 ^ 16 / b.toInt)) ∧
    (∀ px py vx vy : Int32, |vx.toInt| ≤ 2 ^ 14 → |vy.toInt| ≤ 2 ^ 14 →
      Computes (.dot14 px py vx vy) (dot14 px py vx vy)
        ((px.toInt * vx.toInt + py.toInt * vy.toInt) / 2 ^ 14)) ∧
    (∀ x s : Int32, Computes (.scaleUnits x s) (scaleUnits x s) (x.toInt * s.toInt / 2 ^ 16) ∧
      scaleUnits x s = mulFix x s) ∧
    ∀ (src : Source) (scale ppem : Int32) (mode : Mode) (coords : Array Int16),
      (src.machine scale ppem mode coords).controlValues =
        .owned (src.controlValues.map fun v => scaleUnits v.toInt32 scale) := by
  refine ⟨fun a b c hc => ?_, fun a b => ?_, fun a b => ?_, fun a b hb => ?_,
    fun px py vx vy hx hy => ?_, fun x s => ⟨?_, scaleUnits_eq_mulFix x s⟩,
    fun src scale ppem mode coords => ?_⟩
  · have hc0 : c.toInt ≠ 0 := fun h => hc (Int32.toInt_inj.1 h)
    exact (Wide.yields_mulDiv a b hc).computes (Wide.mulDiv_eq_eval a b hc) hc0 (by norm_num)
  · exact (Wide.yields_mulFix a b).computes (Wide.mulFix_eq_eval a b) (by decide) (by norm_num)
  · exact (Wide.yields_mul14 a b).computes (Wide.mul14_eq_eval a b) (by decide) (by norm_num)
  · have hb0 : b.toInt ≠ 0 := fun h => hb (Int32.toInt_inj.1 h)
    exact (Wide.yields_divFix a hb).computes (Wide.divFix_eq_eval a hb) hb0 (by norm_num)
  · rw [Int.abs_eq_natAbs] at hx hy
    exact (Wide.yields_dot14 px py (by omega) (by omega)).computes (Wide.dot14_eq_eval px py vx vy)
      (by decide) (by norm_num)
  · exact (Wide.yields_scaleUnits x s).computes (Wide.scaleUnits_eq_eval x s) (by decide)
      (by norm_num)
  · simp only [scaleUnits_eq_mulFix]
    rfl

/-- The least number of 32 bits, which has no positive counterpart, by itself; a tie below zero; and
a dot product that leaves the 32 bits. -/
theorem computes_nearest_least :
    let m : Int32 := -2147483648
    (m ≠ 0 ∧ Computes (.mulDiv m m m) (mulDiv m m m) (m.toInt * m.toInt / m.toInt) ∧
      mulDiv m m m = m) ∧
    ((0x20000 : Int32) ≠ 0 ∧ Computes (.divFix (-1) 0x20000) (divFix (-1) 0x20000)
        ((-1 : Int32).toInt * 2 ^ 16 / (0x20000 : Int32).toInt) ∧
      divFix (-1) 0x20000 = -1) ∧
    (|(0x4000 : Int32).toInt| ≤ 2 ^ 14 ∧ |(-0x4000 : Int32).toInt| ≤ 2 ^ 14 ∧
      Computes (.dot14 m 1 0x4000 (-0x4000)) (dot14 m 1 0x4000 (-0x4000))
        ((m.toInt * (0x4000 : Int32).toInt + (1 : Int32).toInt * (-0x4000 : Int32).toInt) /
          2 ^ 14) ∧
      dot14 m 1 0x4000 (-0x4000) = 2147483647) := by
  obtain ⟨hmulDiv, -, -, hdivFix, hdot, -⟩ := computes_nearest
  exact ⟨⟨by decide, hmulDiv _ _ _ (by decide), by decide⟩,
    ⟨by decide, hdivFix _ _ (by decide), by decide⟩,
    by decide, by decide, hdot _ _ _ _ (by decide) (by decide), by decide⟩

end GridFit.Fixed
