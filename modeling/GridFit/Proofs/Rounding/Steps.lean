import GridFit.Proofs.Fixed
import GridFit.Proofs.GraphicsState
import GridFit.Proofs.Rounding.Grid
import GridFit.Proofs.Success

/-!
# Rounding goes to a grid

Every round state that programs can set up (`RoundState.Reached`) rounds to the lines of a grid
(`RoundState.grid`), up to the distances at which sums wrap around. The simple modes clear bits, the
super modes clear bits or divide; a result on the wrong side of zero becomes the first line. What
is true of grids is then true of rounding: it is odd and monotone (`Session.rounds_in_steps`), and
idempotent exactly if the threshold lies within one period (`Exec.rounds_idempotently`).
-/

namespace GridFit.RoundState

open Fixed

/-- The grid of the super modes. -/
def superGrid (r : RoundState) : Grid := ⟨r.period.toInt, r.phase.toInt, r.threshold.toInt⟩

/-- The grid to which a round state rounds. A mode without a grid has a line at every distance. -/
def grid (r : RoundState) : Grid :=
  match r.mode with
  | .grid => ⟨64, 0, 32⟩
  | .halfGrid => ⟨64, 32, 32⟩
  | .doubleGrid => ⟨32, 0, 16⟩
  | .downToGrid => ⟨64, 0, 0⟩
  | .upToGrid => ⟨64, 0, 63⟩
  | .super | .super45 => r.superGrid
  | .off | .reserved _ => ⟨1, 0, 0⟩

variable {r : RoundState} {g : Grid} {d : Int32}

section Simple

variable {f : Int32 → Int32} (hg : g.Proper)
  (hf : ∀ x : Int32, 0 ≤ x.toInt → x.toInt + g.threshold < 2 ^ 31 → (f x).toInt = g.line x.toInt)
include hg hf

theorem toInt_keepSign (hd : d.toInt.natAbs < 2 ^ 31) (hT : d.toInt.natAbs + g.threshold < 2 ^ 31) :
    (keepSign f d).toInt = g.round d.toInt := by
  have hzero : (0 : Int32).toInt = 0 := rfl
  unfold keepSign
  split
  · rename_i hsign
    rw [Int32.le_iff_toInt_le, hzero] at hsign
    have hline := hf d hsign (by omega)
    rw [toInt_max, hline, hzero, max_eq_left (hg.line_nonneg _), Grid.round_of_nonneg hsign]
  · rename_i hsign
    rw [Int32.le_iff_toInt_le, hzero] at hsign
    have hneg := toInt_neg_of_fits hd
    have hline := hf (-d) (by omega) (by omega)
    have hnonneg := hg.line_nonneg (-d.toInt)
    have hlt := (f (-d)).toInt_lt
    rw [hneg] at hline
    rw [toInt_min, toInt_neg_of_fits (by omega), hline, hzero, min_eq_left (by omega),
      Grid.round_of_neg (by omega)]

end Simple

/-- What `onGrid` needs of the way down to a multiple: below zero, only that it reaches zero or
leaves the first period. -/
structure StepsDown (step : Int32 → Int32) (p : Int) : Prop where
  nonneg : ∀ x, 0 ≤ x.toInt → (step x).toInt = x.toInt / p * p
  neg : ∀ x, x.toInt < 0 → (step x).toInt = 0 ∨ (step x).toInt ≤ -p
  sub_lt : ∀ x, x.toInt < 0 → x.toInt - p < (step x).toInt

theorem stepsDown_clearBits {k : Nat} {mask : Int32} (hk : k ≤ 31)
    (hm : mask.toBitVec.toNat = 2 ^ k - 1) : StepsDown (fun x => clearBits x mask) (2 ^ k) where
  nonneg x _ := toInt_clearBits hk hm x
  neg x hx := by
    have hpos : (0 : Int) < 2 ^ k := by positivity
    have hq : x.toInt / 2 ^ k ≤ -1 := Int.le_of_lt_add_one (Int.ediv_neg_of_neg_of_pos hx hpos)
    right
    calc (clearBits x mask).toInt
      _ = x.toInt / 2 ^ k * 2 ^ k := toInt_clearBits hk hm x
      _ ≤ -1 * 2 ^ k := Int.mul_le_mul_of_nonneg_right hq hpos.le
      _ = -2 ^ k := Int.neg_one_mul _
  sub_lt x _ := by
    have hlt := Int.lt_ediv_add_one_mul_self x.toInt (b := 2 ^ k) (by positivity)
    rw [Int.add_mul, Int.one_mul] at hlt
    rw [toInt_clearBits hk hm]
    omega

theorem toInt_quotient_mul {p : Int32} (hp : 0 < p.toInt) (h0 : p ≠ 0) (x : Int32) :
    (quotient x p h0 * p).toInt = x.toInt.tdiv p.toInt * p.toInt := by
  have hlow := x.le_toInt
  have hhigh := x.toInt_lt
  have hle : (x.toInt.tdiv p.toInt * p.toInt).natAbs ≤ x.toInt.natAbs := by
    rw [Int.natAbs_mul, Int.natAbs_tdiv]
    exact Nat.div_mul_le_self _ _
  have hsign : x.toInt < 0 → x.toInt.tdiv p.toInt * p.toInt ≤ 0 := fun hneg =>
    Int.mul_nonpos_of_nonpos_of_nonneg (by simpa using Int.tdiv_le_tdiv hp hneg.le) hp.le
  rw [quotient, Int32.toInt_mul, toInt_div_of_pos x hp]
  exact Int.bmod_eq_of_le (by omega) (by omega)

theorem stepsDown_quotient {p : Int32} (hp : 0 < p.toInt) (h0 : p ≠ 0) :
    StepsDown (fun x => quotient x p h0 * p) p.toInt where
  nonneg x hx := by
    rw [toInt_quotient_mul hp, Int.tdiv_eq_ediv_of_nonneg hx]
  neg x hx := by
    rw [toInt_quotient_mul hp, ← Int.neg_neg x.toInt, Int.neg_tdiv,
      Int.tdiv_eq_ediv_of_nonneg (by omega)]
    have hq := Int.ediv_nonneg (a := -x.toInt) (b := p.toInt) (by omega) hp.le
    rcases hq.eq_or_lt with hzero | hpos
    · left
      rw [← hzero]
      simp
    · right
      nlinarith
  sub_lt x hx := by
    have hle := Int.ediv_mul_le (-x.toInt) hp.ne'
    rw [toInt_quotient_mul hp, ← Int.neg_neg x.toInt, Int.neg_tdiv,
      Int.tdiv_eq_ediv_of_nonneg (by omega), Int.neg_mul]
    omega

section OnGrid

variable (h : r.superGrid.Narrow) {step : Int32 → Int32} (hstep : StepsDown step r.period.toInt)
include h hstep

/-- Below the first line the sum is the phase or negative. -/
theorem line_of_step {x : Int32} {n : Int} (hx : x.toInt = n + r.threshold.toInt - r.phase.toInt)
    (hn : n + r.threshold.toInt < 2 ^ 31) :
    (step x + r.phase).toInt = r.superGrid.line n ∨
      x.toInt - r.period.toInt < (step x + r.phase).toInt ∧ (step x + r.phase).toInt < 0 ∧
        r.phase.toInt = r.superGrid.line n := by
  have hphase : 0 ≤ r.phase.toInt := h.phase_nonneg
  have hlt : r.phase.toInt < r.period.toInt := h.phase_lt
  have hperiod : r.period.toInt ≤ 128 := h.period_le
  have hline : r.superGrid.line n =
      r.phase.toInt + max x.toInt 0 / r.period.toInt * r.period.toInt := by rw [hx]; rfl
  rw [hline]
  rcases lt_or_ge x.toInt 0 with hneg | hnonneg
  · have hlow := (step x).le_toInt
    have hbelow := hstep.sub_lt x hneg
    have hstep := hstep.neg x hneg
    have hsum : (step x + r.phase).toInt = _ := toInt_add_of_fits (by omega) (by omega)
    rw [max_eq_right hneg.le, Int.zero_ediv, Int.zero_mul]
    omega
  · have hstep := hstep.nonneg x hnonneg
    have hle := Int.ediv_mul_le x.toInt (b := r.period.toInt) (by omega)
    have hge := Int.mul_nonneg (Int.ediv_nonneg hnonneg (by omega : 0 ≤ r.period.toInt))
      (by omega : 0 ≤ r.period.toInt)
    have hsum : (step x + r.phase).toInt = _ := toInt_add_of_fits (by omega) (by omega)
    rw [max_eq_left hnonneg]
    omega

theorem toInt_onGrid (hT : d.toInt.natAbs + r.threshold.toInt < 2 ^ 31) :
    (r.onGrid step d).toInt = r.superGrid.round d.toInt := by
  have hphase : 0 ≤ r.phase.toInt := h.phase_nonneg
  have hlt : r.phase.toInt < r.period.toInt := h.phase_lt
  have hperiod : r.period.toInt ≤ 128 := h.period_le
  have hlow : -64 ≤ r.threshold.toInt := h.threshold_ge
  have hhigh : r.threshold.toInt ≤ 192 := h.threshold_le
  have hzero : (0 : Int32).toInt = 0 := rfl
  unfold onGrid
  simp only [Int32.le_iff_toInt_le, Int32.lt_iff_toInt_lt, hzero]
  by_cases hsign : 0 ≤ d.toInt
  · have hsum : (d + r.threshold).toInt = _ := toInt_add_of_fits (by omega) (by omega)
    have hx : (d + r.threshold - r.phase).toInt = _ := toInt_sub_of_fits (by omega) (by omega)
    rw [hsum] at hx
    have hnonneg := h.line_nonneg d.toInt
    rw [if_pos hsign, Grid.round_of_nonneg hsign]
    rcases line_of_step h hstep hx (by omega) with hv | ⟨-, hv, hline⟩
    · rw [if_neg (by omega), hv]
    · rw [if_pos hv, hline]
  · have hsum : (r.threshold - r.phase).toInt = _ := toInt_sub_of_fits (by omega) (by omega)
    have hdiff : (r.threshold - r.phase - d).toInt = _ := toInt_sub_of_fits (by omega) (by omega)
    have hx : (r.threshold - r.phase - d).toInt =
        -d.toInt + r.threshold.toInt - r.phase.toInt := by omega
    have hnonneg := h.line_nonneg (-d.toInt)
    have hlt' := (step (r.threshold - r.phase - d) + r.phase).toInt_lt
    rw [if_neg hsign, Grid.round_of_neg (by omega)]
    rcases line_of_step h hstep hx (by omega) with hv | ⟨hlow, hv, hline⟩
    · rw [toInt_neg_of_fits (by omega), if_neg (by omega), toInt_neg_of_fits (by omega), hv]
    · rw [toInt_neg_of_fits (by omega), if_pos (by omega), toInt_neg_of_fits (by omega), hline]

end OnGrid

/-! ### The states that programs set up -/

/-- The round states that instructions can set up, one after the other. A simple mode keeps the
parameters of the last super mode. -/
inductive Reached : RoundState → Prop
  | start : Reached {}
  | mode {r : RoundState} {mode : RoundMode} : Reached r → mode.isSimple →
      Reached { r with mode := mode }
  | super (selector : Int32) : Reached (ofSelector squareGrid selector .super)
  | super45 (selector : Int32) : Reached (ofSelector diagonalGrid selector .super45)

theorem selectThreshold_mem (period selector : Int32) :
    selectThreshold period selector ∈
      (List.range 16).map fun n => selectThreshold period (Int32.ofNat n) := by
  have hlt : (selector &&& 0x0f).toBitVec.toNat < 16 := by
    rw [Int32.toBitVec_and, BitVec.toNat_and]
    exact Nat.lt_of_le_of_lt Nat.and_le_right (by decide)
  have hlow : Int32.ofNat (selector &&& 0x0f).toBitVec.toNat = selector &&& 0x0f := by
    rw [← Int32.toBitVec_inj]
    exact BitVec.ofNat_toNat _ _
  refine List.mem_map.2 ⟨_, List.mem_range.2 hlt, ?_⟩
  rw [hlow, selectThreshold, selectThreshold, Int32.and_assoc, Int32.and_self]

/-- A grid has three periods with sixteen thresholds each. -/
theorem threshold_ofSelector {gridPeriod : Int32}
    (h : ([gridPeriod / 2, gridPeriod * 2, gridPeriod].all fun period =>
      (List.range 16).all fun n =>
        decide (-64 ≤ (selectThreshold period (Int32.ofNat n) >>> 8).toInt ∧
          (selectThreshold period (Int32.ofNat n) >>> 8).toInt ≤ 192)) = true)
    (selector : Int32) (mode : RoundMode) :
    -64 ≤ (ofSelector gridPeriod selector mode).threshold.toInt ∧
      (ofSelector gridPeriod selector mode).threshold.toInt ≤ 192 := by
  have hperiod := List.all_eq_true.1 h _ (selectPeriod_mem gridPeriod selector)
  obtain ⟨n, hn, heq⟩ :=
    List.mem_map.1 (selectThreshold_mem (selectPeriod gridPeriod selector) selector)
  have hthreshold := of_decide_eq_true (List.all_eq_true.1 hperiod n hn)
  rwa [heq] at hthreshold

theorem narrow_superGrid {periods : List Int32} (hmem : r.period ∈ periods)
    (hperiods : (periods.all fun p => decide (p.toInt ≤ 128)) = true)
    (hphase : 0 ≤ r.phase ∧ r.phase < r.period)
    (hthreshold : -64 ≤ r.threshold.toInt ∧ r.threshold.toInt ≤ 192) : r.superGrid.Narrow where
  phase_nonneg := Int32.le_iff_toInt_le.1 hphase.1
  phase_lt := Int32.lt_iff_toInt_lt.1 hphase.2
  period_le := of_decide_eq_true (List.all_eq_true.1 hperiods _ hmem)
  threshold_ge := hthreshold.1
  threshold_le := hthreshold.2

theorem narrow_grid (hm : r.mode.isSimple) : r.grid.Narrow := by
  unfold grid
  cases hmode : r.mode with
  | super | super45 => rw [hmode] at hm; cases hm
  | _ =>
    dsimp only
    exact ⟨⟨by decide, by decide⟩, by decide, by decide, by decide⟩

/-- The parameters are those of a mode, and sums with them are out of range only near its ends. -/
structure Gridded (r : RoundState) : Prop extends r.WellFormed where
  narrow : r.grid.Narrow

theorem gridded_of_isSimple (h : r.mode.isSimple) : r.Gridded :=
  ⟨.of_isSimple h, narrow_grid h⟩

theorem gridded_super (selector : Int32) : (ofSelector squareGrid selector .super).Gridded := by
  have hw := WellFormed.ofSelector_super selector
  obtain ⟨hmem, hphase⟩ := hw.super rfl
  exact ⟨hw, narrow_superGrid hmem (by decide) hphase
    (threshold_ofSelector (by decide) selector .super)⟩

theorem gridded_super45 (selector : Int32) :
    (ofSelector diagonalGrid selector .super45).Gridded := by
  have hw := WellFormed.ofSelector_super45 selector
  obtain ⟨hmem, hphase⟩ := hw.super45 rfl
  exact ⟨hw, narrow_superGrid hmem (by decide) hphase
    (threshold_ofSelector (by decide) selector .super45)⟩

theorem Reached.gridded (h : r.Reached) : r.Gridded := by
  cases h with
  | start => exact gridded_of_isSimple rfl
  | mode _ hm => exact gridded_of_isSimple hm
  | super selector => exact gridded_super selector
  | super45 selector => exact gridded_super45 selector

/-! ### Rounding is rounding to a grid -/

theorem line_of_clearBits {c e mask x : Int32} {k : Nat} (hk : k ≤ 31)
    (hm : mask.toBitVec.toNat = 2 ^ k - 1) (hc : 0 ≤ c.toInt) (he : 0 ≤ e.toInt)
    (hx : 0 ≤ x.toInt) (hfits : x.toInt + (c.toInt + e.toInt) < 2 ^ 31) :
    (clearBits (x + c) mask + e).toInt =
      (Grid.mk (2 ^ k) e.toInt (c.toInt + e.toInt)).line x.toInt := by
  have hsum : (x + c).toInt = x.toInt + c.toInt := toInt_add_of_fits (by omega) (by omega)
  have hclear := toInt_clearBits hk hm (x + c)
  have hle := Int.ediv_mul_le (x + c).toInt (b := 2 ^ k) (by positivity)
  have hge : 0 ≤ (x + c).toInt / 2 ^ k * 2 ^ k :=
    Int.mul_nonneg (Int.ediv_nonneg (by omega) (by positivity)) (by positivity)
  rw [toInt_add_of_fits (by omega) (by omega), hclear, Grid.line,
    max_eq_left (by dsimp only; omega), Int.add_comm e.toInt]
  congr 3
  dsimp only
  omega

/-- A simple mode clears bits of the magnitude, between two sums. -/
theorem toInt_keepSign_clearBits {f : Int32 → Int32} {c e mask : Int32} {k : Nat}
    (hf : ∀ x, f x = clearBits (x + c) mask + e) (hk : k ≤ 31)
    (hm : mask.toBitVec.toNat = 2 ^ k - 1) (hc : 0 ≤ c.toInt) (he : 0 ≤ e.toInt ∧ e.toInt < 2 ^ k)
    (hd : d.toInt.natAbs < 2 ^ 31) (hT : d.toInt.natAbs + (c.toInt + e.toInt) < 2 ^ 31) :
    (keepSign f d).toInt = (Grid.mk (2 ^ k) e.toInt (c.toInt + e.toInt)).round d.toInt := by
  refine toInt_keepSign ⟨he.1, he.2⟩ (fun x hx hfits => ?_) hd hT
  rw [hf]
  exact line_of_clearBits hk hm hc he.1 hx hfits

/-- Away from the ends of the range rounding is rounding to the grid. -/
theorem Gridded.toInt_round (h : r.Gridded) (hd : d.toInt.natAbs < 2 ^ 31)
    (hT : d.toInt.natAbs + r.grid.threshold < 2 ^ 31) :
    (r.round d).toInt = r.grid.round d.toInt := by
  have hnarrow := h.narrow
  unfold RoundState.round
  unfold grid at hT hnarrow ⊢
  cases hmode : r.mode with
  | grid =>
    rw [hmode] at hT
    exact toInt_keepSign_clearBits (c := 32) (e := 0) (k := 6)
      (fun x => (Int32.add_zero _).symm) (by decide) rfl (by decide) (by decide) hd hT
  | halfGrid =>
    rw [hmode] at hT
    exact toInt_keepSign_clearBits (c := 0) (e := 32) (k := 6)
      (fun x => by rw [Int32.add_zero, floor]) (by decide) rfl (by decide) (by decide) hd hT
  | doubleGrid =>
    rw [hmode] at hT
    exact toInt_keepSign_clearBits (c := 16) (e := 0) (k := 5)
      (fun x => (Int32.add_zero _).symm) (by decide) rfl (by decide) (by decide) hd hT
  | downToGrid =>
    rw [hmode] at hT
    exact toInt_keepSign_clearBits (c := 0) (e := 0) (k := 6)
      (fun x => by rw [Int32.add_zero, Int32.add_zero, floor]) (by decide) rfl (by decide)
      (by decide) hd hT
  | upToGrid =>
    rw [hmode] at hT
    exact toInt_keepSign_clearBits (c := 63) (e := 0) (k := 6)
      (fun x => (Int32.add_zero _).symm) (by decide) rfl (by decide) (by decide) hd hT
  | off | reserved code => exact (Grid.round_one _).symm
  | super =>
    rw [hmode] at hT hnarrow
    obtain ⟨hperiod, -⟩ := h.super hmode
    refine toInt_onGrid hnarrow ?_ hT
    simp only [List.mem_cons, List.not_mem_nil, or_false] at hperiod
    rcases hperiod with hp | hp | hp <;> rw [hp]
    · exact stepsDown_clearBits (k := 5) (by decide) rfl
    · exact stepsDown_clearBits (k := 6) (by decide) rfl
    · exact stepsDown_clearBits (k := 7) (by decide) rfl
  | super45 =>
    rw [hmode] at hT hnarrow
    have hpos : 0 < r.period.toInt := hnarrow.period_pos
    have hne : r.period ≠ 0 := by
      intro h0
      rw [h0] at hpos
      exact absurd hpos (by decide)
    show (if h : r.period = 0 then d else _).toInt = _
    rw [dif_neg hne]
    exact toInt_onGrid hnarrow (stepsDown_quotient hpos hne) hT

/-! ### Signs, order and repetition -/

/-- A distance from which no threshold leads out of the range. -/
def Moderate (d : Int32) : Prop := d.toInt.natAbs ≤ 2 ^ 31 - 256

instance (d : Int32) : Decidable (Moderate d) := inferInstanceAs (Decidable (_ ≤ _))

/-- Rounding keeps signs at every distance. Where nothing wraps around it is odd and monotone. -/
structure IsStep (r : RoundState) : Prop where
  nonneg : ∀ d, 0 ≤ d → 0 ≤ r.round d
  nonpos : ∀ d, d < 0 → r.round d ≤ 0
  odd : ∀ d, Moderate d → d ≠ 0 → r.round (-d) = -r.round d
  mono : ∀ d d', Moderate d → Moderate d' → d ≤ d' → r.round d ≤ r.round d'

/-- To round again changes nothing. -/
def Idempotent (r : RoundState) : Prop := ∀ d, Moderate d → r.round (r.round d) = r.round d

theorem keepSign_nonneg {f : Int32 → Int32} (hd : 0 ≤ d) : 0 ≤ keepSign f d := by
  rw [keepSign, if_pos hd, Int32.le_iff_toInt_le, toInt_max]
  exact le_max_right _ _

theorem keepSign_nonpos {f : Int32 → Int32} (hd : d < 0) : keepSign f d ≤ 0 := by
  rw [keepSign, if_neg (Int32.not_le.2 hd), Int32.le_iff_toInt_le, toInt_min]
  exact min_le_right _ _

theorem onGrid_nonneg {step : Int32 → Int32} (hphase : 0 ≤ r.phase) (hd : 0 ≤ d) :
    0 ≤ r.onGrid step d := by
  unfold onGrid
  rw [if_pos hd]
  dsimp only
  split
  · exact hphase
  · exact Int32.not_lt.1 ‹_›

theorem onGrid_nonpos {step : Int32 → Int32} (hphase : 0 ≤ r.phase) (hd : d < 0) :
    r.onGrid step d ≤ 0 := by
  unfold onGrid
  rw [if_neg (Int32.not_le.2 hd)]
  dsimp only
  split
  · have hlt := r.phase.toInt_lt
    have hzero : (0 : Int32).toInt = 0 := rfl
    rw [Int32.le_iff_toInt_le, hzero] at hphase ⊢
    rw [toInt_neg_of_fits (by omega)]
    omega
  · exact Int32.not_lt.1 ‹_›

namespace Gridded

variable (h : r.Gridded) {d' : Int32}
include h

theorem round_nonneg (hd : 0 ≤ d) : 0 ≤ r.round d := by
  unfold RoundState.round
  cases hmode : r.mode with
  | super => exact onGrid_nonneg (h.super hmode).2.1 hd
  | super45 =>
    dsimp only
    split
    · exact hd
    · exact onGrid_nonneg (h.super45 hmode).2.1 hd
  | off | reserved _ => exact hd
  | _ => exact keepSign_nonneg hd

theorem round_nonpos (hd : d < 0) : r.round d ≤ 0 := by
  unfold RoundState.round
  cases hmode : r.mode with
  | super => exact onGrid_nonpos (h.super hmode).2.1 hd
  | super45 =>
    dsimp only
    split
    · exact Int32.le_of_lt hd
    · exact onGrid_nonpos (h.super45 hmode).2.1 hd
  | off | reserved _ => exact Int32.le_of_lt hd
  | _ => exact keepSign_nonpos hd

theorem toInt_round_of_moderate (hd : Moderate d) : (r.round d).toInt = r.grid.round d.toInt := by
  have hT := h.narrow.threshold_le
  unfold Moderate at hd
  exact h.toInt_round (by omega) (by omega)

theorem round_neg (hd : Moderate d) (h0 : d ≠ 0) : r.round (-d) = -r.round d := by
  have hneg : (-d).toInt = -d.toInt := toInt_neg_of_fits (by unfold Moderate at hd; omega)
  have hd' : Moderate (-d) := by rwa [Moderate, hneg, Int.natAbs_neg]
  have hne : d.toInt ≠ 0 := fun hzero => h0 (Int32.toInt_inj.1 hzero)
  have hround : (r.round (-d)).toInt = -(r.round d).toInt := by
    rw [h.toInt_round_of_moderate hd', h.toInt_round_of_moderate hd, hneg, Grid.round_neg hne]
  have hlow := (r.round d).toInt_lt
  have hhigh := (r.round (-d)).toInt_lt
  rw [← Int32.toInt_inj, hround, toInt_neg_of_fits (by omega)]

theorem round_mono (hd : Moderate d) (hd' : Moderate d') (hle : d ≤ d') :
    r.round d ≤ r.round d' := by
  rw [Int32.le_iff_toInt_le, h.toInt_round_of_moderate hd, h.toInt_round_of_moderate hd']
  exact h.narrow.round_mono (Int32.le_iff_toInt_le.1 hle)

theorem isStep : r.IsStep :=
  ⟨fun _ => h.round_nonneg, fun _ => h.round_nonpos, fun _ => h.round_neg,
    fun _ _ => h.round_mono⟩

/-- Rounding is idempotent exactly if the threshold of the grid lies within the first period. -/
theorem idempotent_iff :
    r.Idempotent ↔ 0 ≤ r.grid.threshold ∧ r.grid.threshold < r.grid.period := by
  have hperiod := h.narrow.period_le
  have hphase := h.narrow.phase_lt
  have hlow := h.narrow.threshold_ge
  have hhigh := h.narrow.threshold_le
  constructor
  · intro hid
    by_contra hT
    obtain ⟨n, h0, hle, hne⟩ := h.narrow.exists_round_round_ne hT
    have hn : (Int32.ofInt n).toInt = n := Int32.toInt_ofInt_of_le (by omega) (by omega)
    have hd : Moderate (Int32.ofInt n) := by
      rw [Moderate, hn]
      omega
    have hround := h.toInt_round_of_moderate hd
    have hbound := h.narrow.natAbs_round_le n
    rw [hn] at hround
    have hd' : Moderate (r.round (Int32.ofInt n)) := by
      rw [Moderate, hround]
      omega
    have hagain := h.toInt_round_of_moderate hd'
    rw [hid _ hd, hround] at hagain
    exact hne hagain.symm
  · rintro ⟨h0, h1⟩ d hd
    have hround := h.toInt_round_of_moderate hd
    have hbound := h.narrow.natAbs_round_le d.toInt
    unfold Moderate at hd
    rw [← Int32.toInt_inj, h.toInt_round (by omega) (by omega), hround,
      h.narrow.round_round h0 h1]

end Gridded

end GridFit.RoundState

namespace GridFit

/-! ### The states of the machine -/

theorem Graphics.Update.reached {p : Program} {g g' : Graphics} (hu : g.Update p g')
    (h : g.round.Reached) : g'.round.Reached := by
  cases hu with
  | reference k _ => match k with | 0 | 1 | 2 => exact h
  | zone k z => match k with | 0 | 1 | 2 => exact h
  | roundMode hm => exact .mode h hm
  | super selector => exact .super selector
  | super45 selector => exact .super45 selector
  | control selector on _ _ _ =>
    unfold Exec.setControl
    dsimp only
    split <;> exact h
  | interpolated a _ => cases a <;> exact h
  | _ => exact h

theorem Snapshot.reached_glyphState {s : Snapshot} (h : s.retained.round.Reached) :
    s.glyphState.round.Reached := by
  unfold Snapshot.glyphState
  dsimp only
  split
  · exact .start
  · exact h

namespace Machine

/-- A machine between two runs whose round state is reached. Its zones have `n` points. -/
structure RetainsReached (n : ZonePointer → Nat) (m : Machine) : Prop where
  round : m.graphics.round.Reached
  twilight : m.twilight.Regular (n .twilight)
  glyph : m.glyph.Regular (n .glyph)

def reachedRegime (n : ZonePointer → Nat) (p : Program) : Regime where
  initial := p
  size := n
  graphics g := g.round.Reached
  glyph := Anything

theorem reached_run (n : ZonePointer → Nat) (p : Program) :
    RunInvariant (· ≠ .breach) p (RetainsReached n) (reachedRegime n p).Holds where
  steady := Regime.steady (fun _ _ hg hu => hu.reached hg) fun _ _ _ _ _ _ _ => trivial
  budget := nofun
  restart _ hm := ⟨rfl, hm.round, hm.twilight, hm.glyph, trivial⟩
  stop _ hm := ⟨hm.graphics, hm.twilight, hm.glyph.1⟩

theorem reached_invariant (n : ZonePointer → Nat) :
    Invariant (· ≠ .breach) (RetainsReached n) fun p => (reachedRegime n p).Holds where
  font := reached_run n .font
  controlValue := reached_run n .controlValue
  refresh _ hm := ⟨.start, hm.twilight, hm.glyph⟩

end Machine

namespace Configuration

variable {c : Configuration}

theorem retainsReached (c : Configuration) :
    Machine.RetainsReached (Machine.configurationSize c.source)
      (c.source.machine c.scale c.ppem c.mode c.coords) := by
  have hr := Machine.ready_machine c.source c.scale c.ppem c.mode c.coords
  exact ⟨.start, hr.twilight, hr.glyph⟩

theorem reached_hinting {s : Snapshot} (hs : c.outcome = .ok s) {o : Outline} {m : Machine}
    (ho : o.isConsistent) (hm : s.Hinting o m) : m.graphics.round.Reached := by
  obtain ⟨sc, hf, hocc⟩ := hm
  have hret : s.retained.round.Reached := by
    obtain ⟨m', hm', rfl⟩ := (Machine.reached_invariant _).configured c.retainsReached hs
    exact hm'.round
  have hr := Source.ready_snapshot hs ho sc hf
  have hrest : Machine.RetainsReached (Machine.glyphSize c.source o) (s.machine o sc hf) :=
    ⟨Snapshot.reached_glyphState hret, hr.twilight, hr.glyph⟩
  exact ((Machine.reached_run _ .glyph).occurs hrest hocc).graphics

end Configuration

/-- Programs set up no other round states than those that are reached, and these round in steps. -/
theorem Session.rounds_in_steps (history : List Request) :
    (∀ r : RoundState, r.Reached → r.IsStep) ∧
    (∀ (c : Configuration) (p : Program) (m : Machine),
      c.source.Configuring c.scale c.ppem c.mode c.coords p m → m.graphics.round.Reached) ∧
    ∀ s ∈ (after history).current.snapshot, ∀ (o : Outline) (m : Machine), o.isConsistent →
      s.Hinting o m → m.graphics.round.Reached := by
  refine ⟨fun r hr => hr.gridded.isStep, fun c p m hm => ?_, fun s hs o m ho hm => ?_⟩
  · exact ((Machine.reached_invariant _).configuring c.retainsReached hm).graphics
  · obtain ⟨c, hc⟩ := configured hs
    exact c.reached_hinting hc ho hm

/-- A state of the diagonal grid with a threshold of more than a period. -/
theorem Session.rounds_in_steps_diagonal :
    let r := RoundState.ofSelector RoundState.diagonalGrid 0xbf .super45
    r.Reached ∧ r.round 2147483647 ≥ 0 ∧ r.round (-100) = -r.round 100 ∧
      r.round (-100) ≤ r.round 2147483392 := by
  intro r
  have hr : r.Reached := .super45 0xbf
  have hstep := (rounds_in_steps []).1 r hr
  exact ⟨hr, hstep.nonneg _ (by decide), hstep.odd 100 (by decide) (by decide),
    hstep.mono _ _ (by decide) (by decide) (by decide)⟩

namespace RoundState

/-- The state that an operand sets up. -/
def ofOperand (diagonal : Bool) (selector : Int32) : RoundState :=
  if diagonal then ofSelector diagonalGrid selector .super45
  else ofSelector squareGrid selector .super

theorem threshold_of_isSimple {r : RoundState} (h : r.mode.isSimple) :
    0 ≤ r.grid.threshold ∧ r.grid.threshold < r.grid.period := by
  unfold grid
  cases hmode : r.mode with
  | super | super45 => rw [hmode] at h; cases h
  | _ =>
    dsimp only
    exact ⟨by decide, by decide⟩

theorem gridded_ofOperand (diagonal : Bool) (selector : Int32) :
    (ofOperand diagonal selector).Gridded := by
  cases diagonal with
  | false => exact gridded_super selector
  | true => exact gridded_super45 selector

theorem grid_ofOperand (diagonal : Bool) (selector : Int32) :
    (ofOperand diagonal selector).grid = (ofOperand diagonal selector).superGrid := by
  cases diagonal <;> rfl

theorem idempotent_ofOperand (diagonal : Bool) (selector : Int32) :
    (ofOperand diagonal selector).Idempotent ↔
      0 ≤ (ofOperand diagonal selector).threshold ∧
        (ofOperand diagonal selector).threshold < (ofOperand diagonal selector).period := by
  rw [(gridded_ofOperand diagonal selector).idempotent_iff, grid_ofOperand, Int32.le_iff_toInt_le,
    Int32.lt_iff_toInt_lt]
  exact .rfl

end RoundState

namespace Exec

/-- The simple modes are idempotent. A super mode is as its operand says. -/
theorem rounds_idempotently :
    (∀ r : RoundState, r.mode.isSimple → r.Idempotent) ∧
    ∀ (diagonal : Bool) (m : Machine) (selector : Int32) (l : List Int32),
      m.stack.pile = selector :: l →
        ∃ m', execute (.sround diagonal) m = .ok () m' ∧
          m'.graphics.round = .ofOperand diagonal selector ∧
          (m'.graphics.round.Idempotent ↔ 0 ≤ m'.graphics.round.threshold ∧
            m'.graphics.round.threshold < m'.graphics.round.period) := by
  refine ⟨fun r hr => ?_, fun diagonal m selector l hpile => ?_⟩
  · exact (RoundState.gridded_of_isSimple hr).idempotent_iff.2 (RoundState.threshold_of_isSimple hr)
  · obtain ⟨s, hpop⟩ := pop_of_pile hpile
    refine ⟨_, bind_of_ok hpop, rfl, ?_⟩
    exact RoundState.idempotent_ofOperand diagonal selector

def selectingMachine (selector : Int32) : Machine :=
  { (default : Machine) with stack := ⟨#[selector], 1, Nat.le_refl _⟩ }

/-- Two thresholds for one period of the square grid: zero, and more than the period. -/
theorem rounds_idempotently_square :
    RoundState.Idempotent { mode := .upToGrid } ∧
      (∃ m', execute (.sround false) (selectingMachine 0x44) = .ok () m' ∧
        m'.graphics.round.Idempotent) ∧
      ∃ m', execute (.sround false) (selectingMachine 0x4f) = .ok () m' ∧
        ¬m'.graphics.round.Idempotent := by
  obtain ⟨hsimple, hsuper⟩ := rounds_idempotently
  obtain ⟨m', hrun, hround, hiff⟩ := hsuper false (selectingMachine 0x44) 0x44 [] rfl
  obtain ⟨m'', hrun', hround', hiff'⟩ := hsuper false (selectingMachine 0x4f) 0x4f [] rfl
  refine ⟨hsimple _ rfl, ⟨m', hrun, hiff.2 ?_⟩, m'', hrun', fun hid => ?_⟩
  · rw [hround]
    decide
  · have hlarge := (hiff'.1 hid).2
    rw [hround'] at hlarge
    exact absurd hlarge (by decide)

end Exec

end GridFit
