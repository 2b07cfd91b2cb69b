import GridFit.Proofs.Fixed
import GridFit.Proofs.Interpolation.Coordinates

/-!
# Interpolation keeps points in order

Between two references a point is placed by a factor that is rounded to 16 bits behind the point,
and the product is rounded again. As long as the references are at most `0x10000` apart, both errors
together stay below half a unit at the upper reference, so no point passes it
(`Span.stretch_le`). Then the three pieces of `Span.place` meet in ascending order.
-/

namespace GridFit

namespace Span

open Fixed

/-! ### The scaled distance -/

/-- A distance `d` of a span of width `w`, when the span becomes `k` wide. -/
def stretch (w k d : Int) : Int := nearest (d * nearest (k * 0x10000) w) 0x10000

section Stretch

variable {w k d d' : Int} (hw : 0 < w) (hk : 0 ≤ k)
include hw hk

theorem factor_nonneg : 0 ≤ nearest (k * 0x10000) w :=
  nearest_nonneg (by omega) hw

theorem factor_le (hkw : k ≤ 0x4000 * w) : nearest (k * 0x10000) w ≤ 2 ^ 30 := by
  refine nearest_le (by omega) hw ?_
  omega

theorem stretch_nonneg (hd : 0 ≤ d) : 0 ≤ stretch w k d :=
  nearest_nonneg (Int.mul_nonneg hd (factor_nonneg hw hk)) (by decide)

theorem stretch_mono (hd : 0 ≤ d) (h : d ≤ d') : stretch w k d ≤ stretch w k d' := by
  have hf := factor_nonneg hw hk
  exact nearest_mono (Int.mul_nonneg hd hf) (by decide) (Int.mul_le_mul_of_nonneg_right h hf)

/-- The factor is too large by half a unit in the last place at most. -/
theorem mul_factor_le : w * nearest (k * 0x10000) w ≤ k * 0x10000 + w / 2 := by
  rw [nearest_of_nonneg (by omega) hw]
  exact Int.mul_ediv_self_le hw.ne'

/-- No point passes the upper reference. -/
theorem stretch_le (hw' : w ≤ 0x10000) (hd : 0 ≤ d) (hdw : d ≤ w) : stretch w k d ≤ k := by
  have hf := factor_nonneg hw hk
  have hprod := Int.mul_le_mul_of_nonneg_right hdw hf
  refine nearest_le (Int.mul_nonneg hd hf) (by decide) ?_
  rcases Int.lt_or_eq_of_le hw' with hlt | rfl
  · have := mul_factor_le hw hk
    omega
  · -- A span of this width is scaled without any error.
    rw [nearest_mul_self k (by decide)] at hprod ⊢
    omega

end Stretch

theorem stretch_zero (w d : Int) : stretch w 0 d = 0 := by
  simp [stretch, nearest]

theorem toInt_mulFix_divFix {w k d : Int32} (hw : 0 < w.toInt) (hw' : w.toInt ≤ 0x10000)
    (hk : 0 ≤ k.toInt) (hkw : k.toInt ≤ 0x4000 * w.toInt) (hd : 0 ≤ d.toInt)
    (hdw : d.toInt ≤ w.toInt) :
    (mulFix d (divFix k w)).toInt = stretch w.toInt k.toInt d.toInt := by
  have hne : w ≠ 0 := by
    rintro rfl
    exact absurd hw (by decide)
  have hfactor : (divFix k w).toInt = nearest (k.toInt * 0x10000) w.toInt := by
    have hlow := factor_nonneg hw hk
    have hhigh := factor_le hw hk hkw
    rw [toInt_divFix k hne]
    exact Int.bmod_eq_of_le (by omega) (by omega)
  have hlow := stretch_nonneg hw hk hd
  have hhigh := stretch_le hw hk hw' hd hdw
  have hfits := k.toInt_lt
  rw [toInt_mulFix, hfactor]
  exact Int.bmod_eq_of_le (by rw [stretch] at hlow; omega) (by rw [stretch] at hhigh; omega)

/-! ### The three pieces -/

/-- The references move from `o₁` and `o₂` to `c₁` and `c₂`, in the same order, and what is between
them is not stretched too much. -/
structure Gentle (o₁ c₁ o₂ c₂ : Int) : Prop where
  old : o₁ ≤ o₂
  cur : c₁ ≤ c₂
  slope : o₂ - o₁ ≤ 0x10000 ∧ c₂ - c₁ ≤ 0x4000 * (o₂ - o₁) ∨ o₁ = o₂

/-- Where a coordinate goes, in integers. -/
def image (o₁ c₁ o₂ c₂ v : Int) : Int :=
  if v ≤ o₁ then v + (c₁ - o₁)
  else if o₂ ≤ v then v + (c₂ - o₂)
  else c₁ + stretch (o₂ - o₁) (c₂ - c₁) (v - o₁)

section Image

variable {o₁ c₁ o₂ c₂ v v' : Int}

/-- A coordinate between the references is placed between them. -/
theorem Gentle.stretch_mem (h : Gentle o₁ c₁ o₂ c₂) (hv : o₁ < v) (hv' : v < o₂) :
    0 ≤ stretch (o₂ - o₁) (c₂ - c₁) (v - o₁) ∧
      stretch (o₂ - o₁) (c₂ - c₁) (v - o₁) ≤ c₂ - c₁ := by
  have hcur := h.cur
  have hwidth : o₂ - o₁ ≤ 0x10000 := by
    rcases h.slope with hs | hs
    · exact hs.1
    · omega
  constructor
  · exact stretch_nonneg (by omega) (by omega) (by omega)
  · exact stretch_le (by omega) (by omega) hwidth (by omega) (by omega)

theorem image_mono (h : Gentle o₁ c₁ o₂ c₂) (hv : v ≤ v') :
    image o₁ c₁ o₂ c₂ v ≤ image o₁ c₁ o₂ c₂ v' := by
  have hold := h.old
  have hcur := h.cur
  rcases le_or_gt v o₁ with hlow | hlow
  · rcases le_or_gt v' o₁ with hlow' | hlow'
    · rw [image, image, if_pos hlow, if_pos hlow']
      omega
    rcases le_or_gt o₂ v' with hhigh' | hhigh'
    · rw [image, image, if_pos hlow, if_neg (by omega), if_pos hhigh']
      omega
    · have := h.stretch_mem hlow' hhigh'
      rw [image, image, if_pos hlow, if_neg (by omega), if_neg (by omega)]
      omega
  rcases le_or_gt o₂ v with hhigh | hhigh
  · rw [image, image, if_neg (by omega), if_pos hhigh, if_neg (by omega), if_pos (by omega)]
    omega
  have hmem := h.stretch_mem hlow hhigh
  rw [image, image, if_neg (by omega), if_neg (by omega), if_neg (by omega)]
  rcases le_or_gt o₂ v' with hhigh' | hhigh'
  · rw [if_pos hhigh']
    omega
  · have hmono : stretch (o₂ - o₁) (c₂ - c₁) (v - o₁) ≤ stretch (o₂ - o₁) (c₂ - c₁) (v' - o₁) :=
      stretch_mono (by omega) (by omega) (by omega) (by omega)
    rw [if_neg (by omega)]
    omega

theorem image_mem (h : Gentle o₁ c₁ o₂ c₂) (hne : o₁ < o₂) (hv : o₁ ≤ v) (hv' : v ≤ o₂) :
    c₁ ≤ image o₁ c₁ o₂ c₂ v ∧ image o₁ c₁ o₂ c₂ v ≤ c₂ := by
  have hlow : image o₁ c₁ o₂ c₂ o₁ = c₁ := by
    rw [image, if_pos (Int.le_refl o₁)]
    omega
  have hhigh : image o₁ c₁ o₂ c₂ o₂ = c₂ := by
    rw [image, if_neg (by omega), if_pos (Int.le_refl o₂)]
    omega
  have hl := image_mono h hv
  have hh := image_mono h hv'
  omega

end Image

theorem toInt_place {o₁ c₁ o₂ c₂ v : Int32}
    (h : Gentle o₁.toInt c₁.toInt o₂.toInt c₂.toInt) (ho₁ : o₁.toInt.natAbs ≤ 2 ^ 29)
    (hc₁ : c₁.toInt.natAbs ≤ 2 ^ 29) (ho₂ : o₂.toInt.natAbs ≤ 2 ^ 29)
    (hc₂ : c₂.toInt.natAbs ≤ 2 ^ 29) (hv : v.toInt.natAbs ≤ 2 ^ 29) :
    ((ofReferences.ordered o₁ o₁ c₁ o₂ o₂ c₂).place v v).toInt =
      image o₁.toInt c₁.toInt o₂.toInt c₂.toInt v.toInt := by
  have hshift {o c : Int32} (ho : o.toInt.natAbs ≤ 2 ^ 29) (hc : c.toInt.natAbs ≤ 2 ^ 29) :
      (v + (c - o)).toInt = v.toInt + (c.toInt - o.toInt) := by
    have hsub : (c - o).toInt = c.toInt - o.toInt := toInt_sub_of_fits (by omega) (by omega)
    rw [toInt_add_of_fits (by omega) (by omega), hsub]
  simp only [place, ofReferences.ordered, image, Int32.le_iff_toInt_le]
  by_cases hlow : v.toInt ≤ o₁.toInt
  · rw [if_pos hlow, if_pos hlow, hshift ho₁ hc₁]
  by_cases hhigh : o₂.toInt ≤ v.toInt
  · rw [if_neg hlow, if_neg hlow, if_pos hhigh, if_pos hhigh, hshift ho₂ hc₂]
  rw [if_neg hlow, if_neg hlow, if_neg hhigh, if_neg hhigh]
  by_cases hc : c₁ = c₂
  · simp [hc, stretch_zero]
  have hne : ¬(c₁ = c₂ ∨ o₁ = o₂) := by
    rintro (heq | rfl)
    · exact hc heq
    · omega
  obtain ⟨hwidth, hslope⟩ : o₂.toInt - o₁.toInt ≤ 0x10000 ∧
      c₂.toInt - c₁.toInt ≤ 0x4000 * (o₂.toInt - o₁.toInt) := by
    rcases h.slope with hs | hs
    · exact hs
    · omega
  have hcur := h.cur
  have hw : (o₂ - o₁).toInt = o₂.toInt - o₁.toInt := toInt_sub_of_fits (by omega) (by omega)
  have hk : (c₂ - c₁).toInt = c₂.toInt - c₁.toInt := toInt_sub_of_fits (by omega) (by omega)
  have hd : (v - o₁).toInt = v.toInt - o₁.toInt := toInt_sub_of_fits (by omega) (by omega)
  have hprod := toInt_mulFix_divFix (w := o₂ - o₁) (k := c₂ - c₁) (d := v - o₁) (by omega)
    (by omega) (by omega) (by omega) (by omega) (by omega)
  have hmem := h.stretch_mem (v := v.toInt) (by omega) (by omega)
  rw [hw, hk, hd] at hprod
  rw [if_neg hne]
  show (c₁ + mulFix (v - o₁) (divFix (c₂ - c₁) (o₂ - o₁))).toInt = _
  rw [toInt_add_of_fits (by omega) (by omega), hprod]

end Span

/-! ### Points of a zone -/

namespace Zone

variable {z : Zone} {n : Nat} {a : Axis} {p q r s : Nat}

/-- Two references in the order of their coordinates before hinting. -/
def ordered (z : Zone) (a : Axis) (p q : Nat) : Nat × Nat :=
  if z.scaledCoord a q < z.scaledCoord a p then (q, p) else (p, q)

theorem unitCoord_of_empty (h : z.unscaled = #[]) (a : Axis) (i : Nat) :
    z.unitCoord a i = z.scaledCoord a i := by
  simp [unitCoord, h]

theorem between_of_ordered (hunits : z.unscaled = #[]) (hr : z.ordered a p q = (r, s))
    (f : Nat → Int32) (i : Nat) : z.between a p (f p) q (f q) i =
      (Span.ofReferences.ordered (z.scaledCoord a r) (z.scaledCoord a r) (f r)
        (z.scaledCoord a s) (z.scaledCoord a s) (f s)).place
        (z.scaledCoord a i) (z.scaledCoord a i) := by
  simp only [between, span, Span.ofReferences, unitCoord_of_empty hunits]
  rw [ordered] at hr
  split at hr
  · next hlt =>
    obtain ⟨rfl, rfl⟩ := Prod.mk.inj hr
    rw [if_pos hlt]
  · next hge =>
    obtain ⟨rfl, rfl⟩ := Prod.mk.inj hr
    rw [if_neg hge]

theorem ordered_cases (hr : z.ordered a p q = (r, s)) : r = p ∧ s = q ∨ r = q ∧ s = p := by
  rw [ordered] at hr
  split at hr
  · obtain ⟨rfl, rfl⟩ := Prod.mk.inj hr
    exact .inr ⟨rfl, rfl⟩
  · obtain ⟨rfl, rfl⟩ := Prod.mk.inj hr
    exact .inl ⟨rfl, rfl⟩

end Zone

namespace ZoneM

variable {z : Zone} {n : Nat} {a : Axis} {p q r s last : Nat}

section Interpolate

variable (hz : z.Regular n) (hunits : z.unscaled = #[])
  (hscaled : ∀ i < n, (z.scaledCoord a i).toInt.natAbs ≤ 2 ^ 29)
  (hcurrent : ∀ i < n, (z.currentCoord a i).toInt.natAbs ≤ 2 ^ 29)
  (hp : p < n) (hq : q < n) (hlast : last < n) (hr : z.ordered a p q = (r, s))
  (hgentle : Span.Gentle (z.scaledCoord a r).toInt (z.currentCoord a r).toInt
    (z.scaledCoord a s).toInt (z.currentCoord a s).toInt)
  (first : Nat)
include hz hunits hscaled hcurrent hp hq hlast hr hgentle

theorem interpolate_image :
    ∃ z', interpolate a first last p q z = .ok () z' ∧
      ∀ i, first ≤ i → i ≤ last → (z'.currentCoord a i).toInt =
        Span.image (z.scaledCoord a r).toInt (z.currentCoord a r).toInt
          (z.scaledCoord a s).toInt (z.currentCoord a s).toInt (z.scaledCoord a i).toInt := by
  have hrun : interpolate a first last p q (z.placed a (z.currentCoord a)) = .ok () _ :=
    interpolate_placed hz hlast hp hq
  rw [z.placed_currentCoord] at hrun
  refine ⟨_, hrun, fun i hi hil => ?_⟩
  have hin : i < z.points.size := by
    rw [hz.points]
    omega
  obtain ⟨hrn, hsn⟩ : r < n ∧ s < n := by
    rcases Zone.ordered_cases hr with ⟨rfl, rfl⟩ | ⟨rfl, rfl⟩
    · exact ⟨hp, hq⟩
    · exact ⟨hq, hp⟩
  rw [Zone.currentCoord_placed hin, if_pos ⟨hi, hil⟩, Zone.between_of_ordered hunits hr]
  exact Span.toInt_place hgentle (hscaled r hrn) (hcurrent r hrn) (hscaled s hsn) (hcurrent s hsn)
    (hscaled i (by omega))

/-- In an outline without units, points that are interpolated between two references keep their
order, and those between the references stay between them. -/
theorem interpolate_keeps_order :
    ∃ z', interpolate a first last p q z = .ok () z' ∧
      (∀ i j, first ≤ i → i ≤ last → first ≤ j → j ≤ last →
        z.scaledCoord a i ≤ z.scaledCoord a j → z'.currentCoord a i ≤ z'.currentCoord a j) ∧
      ∀ i, first ≤ i → i ≤ last → z.scaledCoord a r < z.scaledCoord a s →
        z.scaledCoord a r ≤ z.scaledCoord a i → z.scaledCoord a i ≤ z.scaledCoord a s →
        z.currentCoord a r ≤ z'.currentCoord a i ∧ z'.currentCoord a i ≤ z.currentCoord a s := by
  obtain ⟨z', hrun, himage⟩ :=
    interpolate_image hz hunits hscaled hcurrent hp hq hlast hr hgentle first
  refine ⟨z', hrun, fun i j hi hil hj hjl hij => ?_, fun i hi hil hne hlow hhigh => ?_⟩
  · rw [Int32.le_iff_toInt_le, himage i hi hil, himage j hj hjl]
    exact Span.image_mono hgentle (Int32.le_iff_toInt_le.1 hij)
  · rw [Int32.le_iff_toInt_le, Int32.le_iff_toInt_le, himage i hi hil]
    exact Span.image_mem hgentle (Int32.lt_iff_toInt_lt.1 hne) (Int32.le_iff_toInt_le.1 hlow)
      (Int32.le_iff_toInt_le.1 hhigh)

end Interpolate

/-- The references are the third point and the first one, and are as far apart as they may be. -/
def wideZone : Zone where
  scaled := #[⟨0, -5⟩, ⟨0, 0⟩, ⟨0, 65531⟩, ⟨0, 65530⟩, ⟨0, 7⟩]
  points := #[⟨0, 1⟩, ⟨0, 0⟩, ⟨0, 100004⟩, ⟨0, 0⟩, ⟨0, 0⟩]
  flags := #[.touchedY, {}, .touchedY, {}, {}]

theorem interpolate_keeps_order_wide :
    wideZone.Regular 5 ∧ wideZone.ordered .y 2 0 = (0, 2) ∧
      ∃ z', interpolate .y 1 4 2 0 wideZone = .ok () z' ∧
        (∀ i j, 1 ≤ i → i ≤ 4 → 1 ≤ j → j ≤ 4 →
          wideZone.scaledCoord .y i ≤ wideZone.scaledCoord .y j →
          z'.currentCoord .y i ≤ z'.currentCoord .y j) ∧
        ∀ i, 1 ≤ i → i ≤ 4 → 1 ≤ z'.currentCoord .y i ∧ z'.currentCoord .y i ≤ 100004 := by
  have hregular : wideZone.Regular 5 := ⟨rfl, rfl, rfl⟩
  have hordered : wideZone.ordered .y 2 0 = (0, 2) := by decide
  have hinside : ∀ i < 5, wideZone.scaledCoord .y 0 ≤ wideZone.scaledCoord .y i ∧
      wideZone.scaledCoord .y i ≤ wideZone.scaledCoord .y 2 := by decide
  have hlast : 4 < 5 := by decide
  obtain ⟨z', hrun, hmono, hmem⟩ := interpolate_keeps_order hregular rfl (by decide) (by decide)
    (by decide) (by decide) hlast hordered ⟨by decide, by decide, by decide⟩ 1
  refine ⟨hregular, hordered, z', hrun, hmono, fun i hi hil => ?_⟩
  obtain ⟨hlow, hhigh⟩ := hinside i (by omega)
  exact hmem i hi hil (by decide) hlow hhigh

end ZoneM

end GridFit
