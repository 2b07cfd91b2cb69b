import Mathlib.Algebra.Order.Group.Unbundled.Int
import Mathlib.Tactic.Linarith

/-!
# Grids of distances

A distance of at least zero is rounded by adding a threshold and going down to a line of a grid,
where nothing goes below the first line. A distance below zero is rounded like its magnitude.
Whatever the threshold is, rounding is odd away from zero and monotone (`Grid.round_neg`,
`Grid.Proper.round_mono`). It is idempotent exactly if the threshold lies within one period.
-/

namespace GridFit

/-- The lines at `phase` and one `period` after the other. The threshold is added to a distance
before it goes down to a line. -/
structure Grid where
  period : Int
  phase : Int
  threshold : Int
deriving DecidableEq, Repr

namespace Grid

/-- The phase is that of the first line at or above zero. -/
structure Proper (g : Grid) : Prop where
  phase_nonneg : 0 ≤ g.phase
  phase_lt : g.phase < g.period

/-- The grid leaves room for sums with distances. -/
structure Narrow (g : Grid) : Prop extends g.Proper where
  period_le : g.period ≤ 128
  threshold_ge : -64 ≤ g.threshold
  threshold_le : g.threshold ≤ 192

/-- The line to which a distance of at least zero goes. There is no line below the phase. -/
def line (g : Grid) (d : Int) : Int :=
  g.phase + max (d + g.threshold - g.phase) 0 / g.period * g.period

/-- Rounds a distance. The lines for distances below zero are those above it, reflected. -/
def round (g : Grid) (d : Int) : Int := if 0 ≤ d then g.line d else -g.line (-d)

variable {g : Grid} {d d' : Int}

theorem round_of_nonneg (hd : 0 ≤ d) : g.round d = g.line d := if_pos hd

theorem round_of_neg (hd : d < 0) : g.round d = -g.line (-d) := if_neg (by omega)

/-- Rounding is odd. Zero goes to the phase, and so has to be left out. -/
theorem round_neg (hd : d ≠ 0) : g.round (-d) = -g.round d := by
  rcases lt_or_gt_of_ne hd with hneg | hpos
  · rw [round_of_neg hneg, round_of_nonneg (by omega), neg_neg]
  · rw [round_of_nonneg hpos.le, round_of_neg (by omega), neg_neg]

/-- A grid with a line at every distance changes nothing. -/
theorem round_one (d : Int) : (mk 1 0 0).round d = d := by
  unfold round line
  dsimp only
  split <;> omega

namespace Proper

variable (h : g.Proper)
include h

theorem period_pos : 0 < g.period := Int.lt_of_le_of_lt h.phase_nonneg h.phase_lt

theorem phase_le_line (d : Int) : g.phase ≤ g.line d := by
  have hq : 0 ≤ max (d + g.threshold - g.phase) 0 / g.period :=
    Int.ediv_nonneg (le_max_right _ _) h.period_pos.le
  exact le_add_of_nonneg_right (Int.mul_nonneg hq h.period_pos.le)

theorem line_nonneg (d : Int) : 0 ≤ g.line d := h.phase_nonneg.trans (h.phase_le_line d)

theorem line_mono (hd : d ≤ d') : g.line d ≤ g.line d' := by
  have hmax : max (d + g.threshold - g.phase) 0 ≤ max (d' + g.threshold - g.phase) 0 :=
    max_le_max_right 0 (by omega)
  refine Int.add_le_add_left (Int.mul_le_mul_of_nonneg_right ?_ h.period_pos.le) _
  exact Int.ediv_le_ediv h.period_pos hmax

theorem line_le (d : Int) : g.line d ≤ max (d + g.threshold) g.phase := by
  have := Int.ediv_mul_le (max (d + g.threshold - g.phase) 0) h.period_pos.ne'
  unfold line
  omega

/-- The lines below zero and above zero meet in order. -/
theorem round_mono (hd : d ≤ d') : g.round d ≤ g.round d' := by
  rcases lt_or_ge d 0 with hneg | hnonneg
  · rw [round_of_neg hneg]
    rcases lt_or_ge d' 0 with hneg' | hnonneg'
    · rw [round_of_neg hneg']
      exact Int.neg_le_neg (h.line_mono (by omega))
    · have hlow := h.line_nonneg (-d)
      have hhigh := h.line_nonneg d'
      rw [round_of_nonneg hnonneg']
      omega
  · rw [round_of_nonneg hnonneg, round_of_nonneg (hnonneg.trans hd)]
    exact h.line_mono hd

theorem natAbs_round_le (d : Int) : (g.round d).natAbs ≤ max (d.natAbs + g.threshold) g.phase := by
  rcases lt_or_ge d 0 with hneg | hnonneg
  · have hle := h.line_le (-d)
    have hge := h.line_nonneg (-d)
    rw [round_of_neg hneg]
    omega
  · have hle := h.line_le d
    have hge := h.line_nonneg d
    rw [round_of_nonneg hnonneg]
    omega

/-- Where the `k`-th line after the phase goes. -/
theorem line_phase_add {k : Int} (hk : 0 ≤ k * g.period + g.threshold) :
    g.line (g.phase + k * g.period) = g.phase + (k + g.threshold / g.period) * g.period := by
  have hmax : max (g.phase + k * g.period + g.threshold - g.phase) 0 =
      g.threshold + k * g.period := by
    rw [max_eq_left (by omega)]
    omega
  rw [line, hmax, Int.add_mul_ediv_right _ _ h.period_pos.ne', Int.add_comm k]

theorem exists_line_eq (d : Int) : ∃ k, 0 ≤ k ∧ g.line d = g.phase + k * g.period :=
  ⟨_, Int.ediv_nonneg (le_max_right _ _) h.period_pos.le, rfl⟩

/-- A threshold within the first period takes every line to itself. -/
theorem line_line (h0 : 0 ≤ g.threshold) (h1 : g.threshold < g.period) (d : Int) :
    g.line (g.line d) = g.line d := by
  obtain ⟨k, hk, hline⟩ := h.exists_line_eq d
  have hpos := Int.mul_nonneg hk h.period_pos.le
  rw [hline, h.line_phase_add (by omega), Int.ediv_eq_zero_of_lt h0 h1, Int.add_zero]

theorem round_round (h0 : 0 ≤ g.threshold) (h1 : g.threshold < g.period) (d : Int) :
    g.round (g.round d) = g.round d := by
  rcases lt_or_ge d 0 with hneg | hnonneg
  · rw [round_of_neg hneg]
    rcases (h.line_nonneg (-d)).eq_or_lt with hzero | hpos
    · -- the line is zero, so it is the first one, and zero goes to it as well
      have hle : g.line 0 ≤ g.line (-d) := h.line_mono (by omega)
      have hge := h.line_nonneg 0
      rw [← hzero, neg_zero, round_of_nonneg (Int.le_refl 0)]
      omega
    · rw [round_neg hpos.ne', round_of_nonneg hpos.le, h.line_line h0 h1]
  · rw [round_of_nonneg hnonneg, round_of_nonneg (h.line_nonneg d), h.line_line h0 h1]

/-- With any other threshold some line is not taken to itself. -/
theorem exists_round_round_ne (hT : ¬(0 ≤ g.threshold ∧ g.threshold < g.period)) :
    ∃ d, 0 ≤ d ∧ d ≤ g.phase + g.period + g.threshold.natAbs ∧
      g.round (g.round d) ≠ g.round d := by
  have hperiod := h.period_pos
  have hphase := h.phase_nonneg
  rcases lt_or_ge g.threshold 0 with hneg | hnonneg
  · -- the second line is reached from above, and the threshold leads from it down to the first
    have hsecond : g.round (g.phase + g.period - g.threshold) = g.phase + g.period := by
      rw [round_of_nonneg (by omega), line, max_eq_left (by omega),
        show g.phase + g.period - g.threshold + g.threshold - g.phase = g.period by omega,
        Int.ediv_self hperiod.ne', Int.one_mul]
    have hfirst : g.round (g.phase + g.period) = g.phase := by
      rw [round_of_nonneg (by omega), line,
        Int.ediv_eq_zero_of_lt (le_max_right _ _) (by omega), Int.zero_mul, Int.add_zero]
    refine ⟨g.phase + g.period - g.threshold, by omega, by omega, ?_⟩
    rw [hsecond, hfirst]
    omega
  · -- every line moves on by the periods in the threshold
    have hq : 1 ≤ g.threshold / g.period := Int.le_ediv_of_mul_le hperiod (by omega)
    have hstep : g.period ≤ g.threshold / g.period * g.period :=
      le_mul_of_one_le_left hperiod.le hq
    have honce := h.line_phase_add (k := 0) (by omega)
    have htwice := h.line_phase_add (k := g.threshold / g.period) (by omega)
    rw [Int.zero_mul, Int.add_zero, Int.zero_add] at honce
    refine ⟨g.phase, hphase, by omega, ?_⟩
    rw [round_of_nonneg hphase, honce, round_of_nonneg (by omega), htwice, Int.add_mul]
    omega

end Proper

end Grid

end GridFit
