import GridFit.Proofs.Fixed
import GridFit.Proofs.Success

/-!
# When two lines intersect clearly

`ISECT` moves a point to the intersection of two lines, or to the middle of their end points if the
lines are nearly parallel. To find out, it compares the inner product of the lines with 19 times
their cross product. For end points within 1024 pixels the products are exact, but the multiple may
wrap around: then lines at a right angle count as parallel (`Exec.clear_lines_parallel`). The
crossing is never taken where it should not be, and the test is exact as long as the multiple fits,
which it does within 469 pixels (`Exec.intersects_clearly`).
-/

namespace GridFit

open Fixed

/-- Both coordinates have a magnitude of at most `n`. -/
def Point.Within (p : Point) (n : Nat) : Prop := p.x.toInt.natAbs ≤ n ∧ p.y.toInt.natAbs ≤ n

instance (p : Point) (n : Nat) : Decidable (p.Within n) := inferInstanceAs (Decidable (_ ∧ _))

theorem natAbs_sub_le {x y : Int} {n : Nat} (hx : x.natAbs ≤ n) (hy : y.natAbs ≤ n) :
    (x - y).natAbs ≤ 2 * n := by omega

theorem toInt_sub_of_natAbs {x y : Int32} {n : Nat} (hn : n ≤ 65536) (hx : x.toInt.natAbs ≤ n)
    (hy : y.toInt.natAbs ≤ n) :
    (x - y).toInt = x.toInt - y.toInt ∧ (x - y).toInt.natAbs ≤ 2 * n := by
  have hle := natAbs_sub_le hx hy
  have hsub := toInt_sub_of_fits (x := x) (y := y) (by omega) (by omega)
  exact ⟨hsub, hsub ▸ hle⟩

namespace Exec

/-! ### Products without bounds -/

/-- The sum of two products, in units of a pixel. -/
def wideSum (x y u v : Int) : Int := nearest (x * y) 64 + nearest (u * v) 64

/-- The cross product of the lines from `a₀` to `a₁` and from `b₀` to `b₁`. -/
def wideCross (a₀ a₁ b₀ b₁ : Point) : Int :=
  wideSum (a₁.x.toInt - a₀.x.toInt) (-(b₁.y.toInt - b₀.y.toInt)) (a₁.y.toInt - a₀.y.toInt)
    (b₁.x.toInt - b₀.x.toInt)

/-- The inner product of the lines from `a₀` to `a₁` and from `b₀` to `b₁`. -/
def wideInner (a₀ a₁ b₀ b₁ : Point) : Int :=
  wideSum (a₁.x.toInt - a₀.x.toInt) (b₁.x.toInt - b₀.x.toInt) (a₁.y.toInt - a₀.y.toInt)
    (b₁.y.toInt - b₀.y.toInt)

/-- The angle between the lines is large enough to intersect them. -/
def Clear (a₀ a₁ b₀ b₁ : Point) : Prop :=
  (wideInner a₀ a₁ b₀ b₁).natAbs < 19 * (wideCross a₀ a₁ b₀ b₁).natAbs

instance (a₀ a₁ b₀ b₁ : Point) : Decidable (Clear a₀ a₁ b₀ b₁) :=
  inferInstanceAs (Decidable (_ < _))

section Sums

variable {n : Nat}

theorem natAbs_product_le {x y : Int} (hx : x.natAbs ≤ 2 * n) (hy : y.natAbs ≤ 2 * n) :
    (nearest (x * y) 64).natAbs ≤ (4 * (n * n) + 32) / 64 := by
  have hprod : (x * y).natAbs ≤ 4 * (n * n) := by
    rw [Int.natAbs_mul]
    calc x.natAbs * y.natAbs
      _ ≤ 2 * n * (2 * n) := Nat.mul_le_mul hx hy
      _ = 4 * (n * n) := by rw [Nat.mul_mul_mul_comm]
  exact (natAbs_nearest_le _ _).trans (Nat.div_le_div_right (Nat.add_le_add_right hprod 32))

theorem natAbs_wideSum_le {x y u v : Int} (hx : x.natAbs ≤ 2 * n) (hy : y.natAbs ≤ 2 * n)
    (hu : u.natAbs ≤ 2 * n) (hv : v.natAbs ≤ 2 * n) :
    (wideSum x y u v).natAbs ≤ 2 * ((4 * (n * n) + 32) / 64) := by
  have hxy := natAbs_product_le hx hy
  have huv := natAbs_product_le hu hv
  unfold wideSum
  omega

theorem toInt_mulDiv_64 {x y : Int32} (hn : n ≤ 65536) (hx : x.toInt.natAbs ≤ 2 * n)
    (hy : y.toInt.natAbs ≤ 2 * n) :
    (mulDiv x y 0x40).toInt = nearest (x.toInt * y.toInt) 64 := by
  have hsquare := Nat.mul_le_mul hn hn
  have hle := natAbs_product_le hx hy
  have hpixel : (0x40 : Int32).toInt = 64 := rfl
  rw [toInt_mulDiv x y (by decide), hpixel]
  exact Int.bmod_eq_of_le (by omega) (by omega)

theorem toInt_sum {x y u v : Int32} (hn : n ≤ 65536) (hx : x.toInt.natAbs ≤ 2 * n)
    (hy : y.toInt.natAbs ≤ 2 * n) (hu : u.toInt.natAbs ≤ 2 * n) (hv : v.toInt.natAbs ≤ 2 * n) :
    (mulDiv x y 0x40 + mulDiv u v 0x40).toInt = wideSum x.toInt y.toInt u.toInt v.toInt := by
  have hsquare := Nat.mul_le_mul hn hn
  have hle := natAbs_wideSum_le hx hy hu hv
  have hxy := toInt_mulDiv_64 hn hx hy
  have huv := toInt_mulDiv_64 hn hu hv
  unfold wideSum at hle
  rw [toInt_add_of_fits (by omega) (by omega), hxy, huv, wideSum]

/-- Four coordinates have their average in the middle. -/
theorem toInt_quarter {x y u v : Int32} (hn : n ≤ 65536) (hx : x.toInt.natAbs ≤ n)
    (hy : y.toInt.natAbs ≤ n) (hu : u.toInt.natAbs ≤ n) (hv : v.toInt.natAbs ≤ n) :
    ((x + y + u + v) / 4).toInt = (x.toInt + y.toInt + u.toInt + v.toInt).tdiv 4 := by
  have hxy : (x + y).toInt = x.toInt + y.toInt := toInt_add_of_fits (by omega) (by omega)
  have hxyu : (x + y + u).toInt = (x + y).toInt + u.toInt :=
    toInt_add_of_fits (by omega) (by omega)
  have hsum : (x + y + u + v).toInt = (x + y + u).toInt + v.toInt :=
    toInt_add_of_fits (by omega) (by omega)
  have hfour : (4 : Int32).toInt = 4 := rfl
  rw [toInt_div_of_pos _ (by decide), hsum, hxyu, hxy, hfour]

end Sums

/-! ### The test -/

/-- The place on the first line at which the cross products say that the lines meet. -/
def crossing (a₀ a₁ b₀ b₁ : Point) : Point :=
  let d := cross (a₁ - a₀) (b₁ - b₀)
  let v := cross (b₀ - a₀) (b₁ - b₀)
  ⟨a₀.x + mulDiv v (a₁ - a₀).x d, a₀.y + mulDiv v (a₁ - a₀).y d⟩

def middle (a₀ a₁ b₀ b₁ : Point) : Point :=
  ⟨(a₀.x + a₁.x + b₀.x + b₁.x) / 4, (a₀.y + a₁.y + b₀.y + b₁.y) / 4⟩

theorem intersection_eq (a₀ a₁ b₀ b₁ : Point) : intersection a₀ a₁ b₀ b₁ =
    if meetsClearly (a₁ - a₀) (b₁ - b₀) then crossing a₀ a₁ b₀ b₁ else middle a₀ a₁ b₀ b₁ := rfl

section Lines

variable {a₀ a₁ b₀ b₁ : Point} {n : Nat} (ha₀ : a₀.Within n) (ha₁ : a₁.Within n)
  (hb₀ : b₀.Within n) (hb₁ : b₁.Within n)
include ha₀ ha₁ hb₀ hb₁

theorem natAbs_wideCross_le : (wideCross a₀ a₁ b₀ b₁).natAbs ≤ 2 * ((4 * (n * n) + 32) / 64) :=
  natAbs_wideSum_le (natAbs_sub_le ha₁.1 ha₀.1)
    ((Int.natAbs_neg _).trans_le (natAbs_sub_le hb₁.2 hb₀.2)) (natAbs_sub_le ha₁.2 ha₀.2)
    (natAbs_sub_le hb₁.1 hb₀.1)

theorem natAbs_wideInner_le : (wideInner a₀ a₁ b₀ b₁).natAbs ≤ 2 * ((4 * (n * n) + 32) / 64) :=
  natAbs_wideSum_le (natAbs_sub_le ha₁.1 ha₀.1) (natAbs_sub_le hb₁.1 hb₀.1)
    (natAbs_sub_le ha₁.2 ha₀.2) (natAbs_sub_le hb₁.2 hb₀.2)

theorem toInt_products (hn : n ≤ 65536) :
    (cross (a₁ - a₀) (b₁ - b₀)).toInt = wideCross a₀ a₁ b₀ b₁ ∧
      (inner (a₁ - a₀) (b₁ - b₀)).toInt = wideInner a₀ a₁ b₀ b₁ := by
  obtain ⟨hax, hlax⟩ := toInt_sub_of_natAbs hn ha₁.1 ha₀.1
  obtain ⟨hay, hlay⟩ := toInt_sub_of_natAbs hn ha₁.2 ha₀.2
  obtain ⟨hbx, hlbx⟩ := toInt_sub_of_natAbs hn hb₁.1 hb₀.1
  obtain ⟨hby, hlby⟩ := toInt_sub_of_natAbs hn hb₁.2 hb₀.2
  have hneg : (-(b₁.y - b₀.y)).toInt = -(b₁.y - b₀.y).toInt := toInt_neg_of_fits (by omega)
  constructor
  · show (mulDiv (a₁.x - a₀.x) (-(b₁.y - b₀.y)) 0x40 +
      mulDiv (a₁.y - a₀.y) (b₁.x - b₀.x) 0x40).toInt = _
    rw [toInt_sum hn hlax (by rwa [hneg, Int.natAbs_neg]) hlay hlbx, hneg, hax, hay, hbx, hby]
    rfl
  · show (mulDiv (a₁.x - a₀.x) (b₁.x - b₀.x) 0x40 +
      mulDiv (a₁.y - a₀.y) (b₁.y - b₀.y) 0x40).toInt = _
    rw [toInt_sum hn hlax hlbx hlay hlby, hax, hay, hbx, hby]
    rfl

/-- The test compares integers, one of which may have wrapped around. -/
theorem meetsClearly_iff (hn : n ≤ 65536) : meetsClearly (a₁ - a₀) (b₁ - b₀) ↔
    ((wideInner a₀ a₁ b₀ b₁).natAbs : Int) <
      (19 * (wideCross a₀ a₁ b₀ b₁).natAbs : Int).bmod (2 ^ 32) := by
  have hsquare := Nat.mul_le_mul hn hn
  have hcross := natAbs_wideCross_le ha₀ ha₁ hb₀ hb₁
  have hinner := natAbs_wideInner_le ha₀ ha₁ hb₀ hb₁
  obtain ⟨hc, hi⟩ := toInt_products ha₀ ha₁ hb₀ hb₁ hn
  have hnineteen : (19 : Int32).toInt = 19 := rfl
  rw [meetsClearly, decide_eq_true_iff, Int32.lt_iff_toInt_lt, Int32.toInt_mul, hnineteen,
    toInt_magnitude (by omega), toInt_magnitude (by omega), hc, hi]

/-- Lines that pass the test meet clearly. -/
theorem clear_of_meetsClearly (hn : n ≤ 65536) (h : meetsClearly (a₁ - a₀) (b₁ - b₀)) :
    Clear a₀ a₁ b₀ b₁ := by
  have hlt := (meetsClearly_iff ha₀ ha₁ hb₀ hb₁ hn).1 h
  have hle := bmod_le_self (n := 19 * (wideCross a₀ a₁ b₀ b₁).natAbs) (by omega)
  unfold Clear
  omega

/-- The test is exact as long as the multiple fits. -/
theorem meetsClearly_iff_clear (hn : n ≤ 65536)
    (hfits : 19 * (wideCross a₀ a₁ b₀ b₁).natAbs < 2 ^ 31) :
    meetsClearly (a₁ - a₀) (b₁ - b₀) ↔ Clear a₀ a₁ b₀ b₁ := by
  rw [meetsClearly_iff ha₀ ha₁ hb₀ hb₁ hn, Int.bmod_eq_of_le (by omega) (by omega), Clear]
  omega

/-- 30069 units are almost 470 pixels. One unit more and the multiple may wrap around. -/
theorem multiple_fits (hn : n ≤ 30069) : 19 * (wideCross a₀ a₁ b₀ b₁).natAbs < 2 ^ 31 := by
  have hsquare := Nat.mul_le_mul hn hn
  have hcross := natAbs_wideCross_le ha₀ ha₁ hb₀ hb₁
  omega

theorem toInt_middle (hn : n ≤ 65536) :
    (middle a₀ a₁ b₀ b₁).x.toInt =
        (a₀.x.toInt + a₁.x.toInt + b₀.x.toInt + b₁.x.toInt).tdiv 4 ∧
      (middle a₀ a₁ b₀ b₁).y.toInt =
        (a₀.y.toInt + a₁.y.toInt + b₀.y.toInt + b₁.y.toInt).tdiv 4 :=
  ⟨toInt_quarter hn ha₀.1 ha₁.1 hb₀.1 hb₁.1, toInt_quarter hn ha₀.2 ha₁.2 hb₀.2 hb₁.2⟩

end Lines

end Exec

/-! ### The instruction -/

/-- The operands on the stack are the point `i` and the end points of two lines. -/
def Machine.Crosses (m : Machine) (i : Nat) (a₀ a₁ b₀ b₁ : Point) : Prop :=
  ∃ v k₀ k₁ n₀ n₁ l, m.stack.pile = n₁ :: n₀ :: k₁ :: k₀ :: v :: l ∧ OperandStack.toIndex v = i ∧
    (m.zone m.graphics.zp1).points[OperandStack.toIndex k₀]? = some a₀ ∧
    (m.zone m.graphics.zp1).points[OperandStack.toIndex k₁]? = some a₁ ∧
    (m.zone m.graphics.zp0).points[OperandStack.toIndex n₀]? = some b₀ ∧
    (m.zone m.graphics.zp0).points[OperandStack.toIndex n₁]? = some b₁

theorem Machine.Crosses.eq {m : Machine} {i i' : Nat} {a₀ a₁ b₀ b₁ a₀' a₁' b₀' b₁' : Point}
    (h : m.Crosses i a₀ a₁ b₀ b₁) (h' : m.Crosses i' a₀' a₁' b₀' b₁') :
    i = i' ∧ a₀ = a₀' ∧ a₁ = a₁' ∧ b₀ = b₀' ∧ b₁ = b₁' := by
  obtain ⟨v, k₀, k₁, n₀, n₁, l, hpile, rfl, h₁, h₂, h₃, h₄⟩ := h
  obtain ⟨v', k₀', k₁', n₀', n₁', l', hpile', rfl, h₁', h₂', h₃', h₄'⟩ := h'
  rw [hpile] at hpile'
  cases hpile'
  exact ⟨rfl, Option.some.inj (h₁.symm.trans h₁'), Option.some.inj (h₂.symm.trans h₂'),
    Option.some.inj (h₃.symm.trans h₃'), Option.some.inj (h₄.symm.trans h₄')⟩

namespace Exec

open OperandStack

variable {m m' : Machine} {u : Unit}

theorem moveToIntersection_ok (hx : moveToIntersection m = .ok u m') :
    ∃ i a₀ a₁ b₀ b₁, m.Crosses i a₀ a₁ b₀ b₁ ∧
      (m'.zone m.graphics.zp2).points[i]? = some (intersection a₀ a₁ b₀ b₁) := by
  obtain ⟨_, m₁, hn₁, hx⟩ := exists_of_bind_ok hx
  obtain ⟨_, m₂, hn₀, hx⟩ := exists_of_bind_ok hx
  obtain ⟨_, m₃, hk₁, hx⟩ := exists_of_bind_ok hx
  obtain ⟨_, m₄, hk₀, hx⟩ := exists_of_bind_ok hx
  obtain ⟨_, m₅, hv, hx⟩ := exists_of_bind_ok hx
  obtain ⟨g, m₆, hg, hx⟩ := exists_of_bind_ok hx
  obtain ⟨⟨⟩, m₇, hcheck, hx⟩ := exists_of_bind_ok hx
  obtain ⟨a₀, m₈, h₁, hx⟩ := exists_of_bind_ok hx
  obtain ⟨a₁, m₉, h₂, hx⟩ := exists_of_bind_ok hx
  obtain ⟨b₀, m₁₀, h₃, hx⟩ := exists_of_bind_ok hx
  obtain ⟨b₁, m₁₁, h₄, hzone⟩ := exists_of_bind_ok hx
  obtain ⟨n₁, s₁, hs₁, rfl, rfl⟩ := popIndex_ok hn₁
  obtain ⟨n₀, s₂, hs₂, rfl, rfl⟩ := popIndex_ok hn₀
  obtain ⟨k₁, s₃, hs₃, rfl, rfl⟩ := popIndex_ok hk₁
  obtain ⟨k₀, s₄, hs₄, rfl, rfl⟩ := popIndex_ok hk₀
  obtain ⟨v, s₅, hs₅, rfl, rfl⟩ := popIndex_ok hv
  cases hg
  obtain ⟨hi, rfl⟩ := onZone_check_ok hcheck
  obtain ⟨ha₀, rfl⟩ := onZone_point_ok h₁
  obtain ⟨ha₁, rfl⟩ := onZone_point_ok h₂
  obtain ⟨hb₀, rfl⟩ := onZone_point_ok h₃
  obtain ⟨hb₁, rfl⟩ := onZone_point_ok h₄
  obtain ⟨z, hz, rfl⟩ := onZone_ok hzone
  obtain ⟨⟨⟩, z₁, hplace, htouch⟩ := exists_of_bind_ok hz
  have hpile : m.stack.pile = n₁ :: n₀ :: k₁ :: k₀ :: v :: s₅.pile := by
    simp only [Machine.stack_withStack] at hs₂ hs₃ hs₄ hs₅
    rw [hs₁, hs₂, hs₃, hs₄, hs₅]
  simp only [Machine.graphics_withStack, Machine.zone_withStack] at hi ha₀ ha₁ hb₀ hb₁
  refine ⟨_, a₀, a₁, b₀, b₁, ⟨v, k₀, k₁, n₀, n₁, _, hpile, rfl, ha₀, ha₁, hb₀, hb₁⟩, ?_⟩
  simp [ZoneM.touch_ok htouch, ZoneM.modifyPoint_ok hplace, hi, Array.getElem_modify]

/-- `ISECT` between end points within 1024 pixels. The point goes to the crossing if 19 times the
cross product, which may wrap around, is larger than the inner product. Then the lines do meet
clearly. Within 469 pixels nothing wraps around and the test is exact. -/
theorem intersects_clearly (hx : execute .isect m = .ok () m') :
    ∃ i a₀ a₁ b₀ b₁, m.Crosses i a₀ a₁ b₀ b₁ ∧
      ((∀ p ∈ [a₀, a₁, b₀, b₁], p.Within 65536) →
        (m'.zone m.graphics.zp2).points[i]? =
          some (if ((wideInner a₀ a₁ b₀ b₁).natAbs : Int) <
              (19 * (wideCross a₀ a₁ b₀ b₁).natAbs : Int).bmod (2 ^ 32)
            then crossing a₀ a₁ b₀ b₁ else middle a₀ a₁ b₀ b₁) ∧
        (¬Clear a₀ a₁ b₀ b₁ →
          (m'.zone m.graphics.zp2).points[i]? = some (middle a₀ a₁ b₀ b₁)) ∧
        (19 * (wideCross a₀ a₁ b₀ b₁).natAbs < 2 ^ 31 → (m'.zone m.graphics.zp2).points[i]? =
          some (if Clear a₀ a₁ b₀ b₁ then crossing a₀ a₁ b₀ b₁ else middle a₀ a₁ b₀ b₁)) ∧
        ((∀ p ∈ [a₀, a₁, b₀, b₁], p.Within 30069) →
          19 * (wideCross a₀ a₁ b₀ b₁).natAbs < 2 ^ 31) ∧
        (middle a₀ a₁ b₀ b₁).x.toInt =
          (a₀.x.toInt + a₁.x.toInt + b₀.x.toInt + b₁.x.toInt).tdiv 4 ∧
        (middle a₀ a₁ b₀ b₁).y.toInt =
          (a₀.y.toInt + a₁.y.toInt + b₀.y.toInt + b₁.y.toInt).tdiv 4) := by
  obtain ⟨i, a₀, a₁, b₀, b₁, hcrosses, hpoint⟩ := moveToIntersection_ok hx
  refine ⟨i, a₀, a₁, b₀, b₁, hcrosses, fun hwithin => ?_⟩
  simp only [List.mem_cons, List.not_mem_nil, or_false, forall_eq_or_imp, forall_eq] at hwithin ⊢
  obtain ⟨ha₀, ha₁, hb₀, hb₁⟩ := hwithin
  rw [hpoint, intersection_eq]
  refine ⟨?_, fun hunclear => ?_, fun hfits => ?_, fun ⟨ha₀, ha₁, hb₀, hb₁⟩ => ?_,
    toInt_middle ha₀ ha₁ hb₀ hb₁ (Nat.le_refl _)⟩
  · simp only [meetsClearly_iff ha₀ ha₁ hb₀ hb₁ (Nat.le_refl _)]
  · rw [if_neg fun h => hunclear (clear_of_meetsClearly ha₀ ha₁ hb₀ hb₁ (Nat.le_refl _) h)]
  · simp only [meetsClearly_iff_clear ha₀ ha₁ hb₀ hb₁ (Nat.le_refl _) hfits]
  · exact multiple_fits ha₀ ha₁ hb₀ hb₁ (Nat.le_refl _)

/-- A machine that is about to intersect the lines between points 0 and 1 and points 2 and 3. -/
def crossingMachine (a₀ a₁ b₀ b₁ : Point) : Machine :=
  { (default : Machine) with
    graphics := Graphics.start (.initial 65536 16 {}) false
    stack := ⟨#[4, 0, 1, 2, 3], 5, by decide⟩
    glyph := { Zone.blank 5 with points := #[a₀, a₁, b₀, b₁, ⟨10, 20⟩] } }

theorem crosses_crossingMachine (a₀ a₁ b₀ b₁ : Point) :
    (crossingMachine a₀ a₁ b₀ b₁).Crosses 4 a₀ a₁ b₀ b₁ :=
  ⟨4, 0, 1, 2, 3, [], rfl, rfl, rfl, rfl, rfl, rfl⟩

/-- Lines at a right angle, with end points as far out as nothing wraps around. -/
theorem intersects_clearly_exact :
    ∃ m', execute .isect (crossingMachine ⟨-30069, 0⟩ ⟨30069, 0⟩ ⟨64, -30069⟩ ⟨64, 30069⟩) =
      .ok () m' ∧ (m'.zone .glyph).points[4]? = some ⟨64, 0⟩ := by
  obtain ⟨m', hrun⟩ := exists_ok (x := execute .isect)
    (m := crossingMachine ⟨-30069, 0⟩ ⟨30069, 0⟩ ⟨64, -30069⟩ ⟨64, 30069⟩) (by decide +kernel)
  obtain ⟨i, a₀, a₁, b₀, b₁, hcrosses, hpoint⟩ := intersects_clearly hrun
  obtain ⟨rfl, rfl, rfl, rfl, rfl⟩ := hcrosses.eq (crosses_crossingMachine _ _ _ _)
  obtain ⟨-, -, hexact, hfits, -⟩ := hpoint (by decide)
  refine ⟨m', hrun, (hexact (hfits (by decide))).trans ?_⟩
  decide +kernel

/-- Lines at a right angle count as parallel, since 19 times their cross product wraps around. -/
theorem clear_lines_parallel :
    (∀ p ∈ [Point.mk (-65536) 0, ⟨65536, 0⟩, ⟨6400, 0⟩, ⟨6400, 65536⟩], p.Within 65536) ∧
      Clear ⟨-65536, 0⟩ ⟨65536, 0⟩ ⟨6400, 0⟩ ⟨6400, 65536⟩ ∧
      crossing ⟨-65536, 0⟩ ⟨65536, 0⟩ ⟨6400, 0⟩ ⟨6400, 65536⟩ = ⟨6400, 0⟩ ∧
      ∃ m', execute .isect (crossingMachine ⟨-65536, 0⟩ ⟨65536, 0⟩ ⟨6400, 0⟩ ⟨6400, 65536⟩) =
        .ok () m' ∧ (m'.zone .glyph).points[4]? = some ⟨3200, 16384⟩ := by
  obtain ⟨m', hrun⟩ := exists_ok (x := execute .isect)
    (m := crossingMachine ⟨-65536, 0⟩ ⟨65536, 0⟩ ⟨6400, 0⟩ ⟨6400, 65536⟩) (by decide +kernel)
  obtain ⟨i, a₀, a₁, b₀, b₁, hcrosses, hpoint⟩ := moveToIntersection_ok hrun
  obtain ⟨rfl, rfl, rfl, rfl, rfl⟩ := hcrosses.eq (crosses_crossingMachine _ _ _ _)
  exact ⟨by decide, by decide +kernel, by decide +kernel, m', hrun,
    hpoint.trans (by decide +kernel)⟩

end Exec

end GridFit
