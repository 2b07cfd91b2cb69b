import GridFit.Interpolation
import GridFit.Proofs.Regime.Basic
import Mathlib.Logic.Function.Basic

/-!
# The coordinates of a zone along an axis

Interpolation reads and writes the coordinates of points along one axis. A zone whose current
coordinates along that axis are given by a function is `Zone.placed`, and each operation goes from
one such zone to another: what it does is then a matter of functions. Whatever a loop over points
does to each point on its own, it does to all of them (`ZoneM.forPoints_placed`).
-/

namespace GridFit

namespace Point

theorem coord_withCoord (p : Point) (a b : Axis) (v : Int32) :
    (p.withCoord a v).coord b = if b = a then v else p.coord b := by
  cases a <;> cases b <;> rfl

theorem withCoord_withCoord (p : Point) (a : Axis) (v w : Int32) :
    (p.withCoord a v).withCoord a w = p.withCoord a w := by
  cases a <;> rfl

theorem withCoord_coord (p : Point) (a : Axis) : p.withCoord a (p.coord a) = p := by
  cases a <;> rfl

theorem coord_sub (p q : Point) (a : Axis) : (p - q).coord a = p.coord a - q.coord a := by
  cases a <;> rfl

end Point

namespace Zone

open Point

/-- The current coordinate of a point. -/
def currentCoord (z : Zone) (a : Axis) (i : Nat) : Int32 := (z.points.getD i {}).coord a

/-- The coordinate of a point before hinting. -/
def scaledCoord (z : Zone) (a : Axis) (i : Nat) : Int32 := (z.scaled.getD i {}).coord a

/-- The unscaled coordinate of a point, or its scaled one in an outline without. -/
def unitCoord (z : Zone) (a : Axis) (i : Nat) : Int32 :=
  match z.unscaled[i]? with
  | some p => p.coord a
  | none => z.scaledCoord a i

def isTouched (z : Zone) (a : Axis) (i : Nat) : Bool := (z.flags.getD i {}).meets (.touched a)

/-- The zone with the current coordinates `f` along an axis. -/
def placed (z : Zone) (a : Axis) (f : Nat → Int32) : Zone :=
  { z with points := z.points.mapIdx fun i p => p.withCoord a (f i) }

/-- The span of the references `p` and `q`, which are now at `u` and `v`. -/
def span (z : Zone) (a : Axis) (p : Nat) (u : Int32) (q : Nat) (v : Int32) : Span :=
  .ofReferences (z.unitCoord a p) (z.scaledCoord a p) u (z.unitCoord a q) (z.scaledCoord a q) v

/-- Where a point goes between the references `p` and `q`, which are now at `u` and `v`. -/
def between (z : Zone) (a : Axis) (p : Nat) (u : Int32) (q : Nat) (v : Int32) (i : Nat) : Int32 :=
  (z.span a p u q v).place (z.scaledCoord a i) (z.unitCoord a i)

variable {z : Zone} {a b : Axis} {f : Nat → Int32} {i : Nat}

theorem size_placed (z : Zone) (a : Axis) (f : Nat → Int32) :
    (z.placed a f).points.size = z.points.size := by
  simp [placed]

theorem currentCoord_placed (h : i < z.points.size) : (z.placed a f).currentCoord a i = f i := by
  simp [currentCoord, placed, h, coord_withCoord]

theorem currentCoord_placed_of_ne (hb : b ≠ a) :
    (z.placed a f).currentCoord b i = z.currentCoord b i := by
  by_cases h : i < z.points.size
  · simp [currentCoord, placed, h, coord_withCoord, hb]
  · simp [currentCoord, placed, h]

theorem placed_currentCoord (z : Zone) (a : Axis) : z.placed a (z.currentCoord a) = z := by
  have : z.points.mapIdx (fun i p => p.withCoord a (z.currentCoord a i)) = z.points := by
    apply Array.ext (by simp)
    intro i hi hi'
    simp [currentCoord, hi', withCoord_coord]
  simp only [placed, this]

end Zone

namespace ZoneM

variable {z : Zone} {n : Nat} {a : Axis} {f g : Nat → Int32} {i p q first last : Nat}

theorem unguarded_of_lt {α : Type} {x : Array α} (h : i < x.size) (z : Zone) :
    unguarded x i z = .ok x[i] z := by
  rw [unguarded, dif_pos h]
  rfl

section Regular

variable (hz : z.Regular n) (hi : i < n)
include hz hi

theorem currentCoord_placed :
    currentCoord a i (z.placed a f) = .ok (f i) (z.placed a f) := by
  have h : i < (z.placed a f).points.size := by rw [z.size_placed, hz.points]; exact hi
  have hr : pointAt i (z.placed a f) = .ok (z.placed a f).points[i] (z.placed a f) :=
    unguarded_of_lt h _
  refine (bind_of_ok hr).trans ?_
  have hc := Zone.currentCoord_placed (z := z) (a := a) (f := f) (by rw [hz.points]; exact hi)
  simp only [Zone.currentCoord, Array.getD_eq_getD_getElem?, Array.getElem?_eq_getElem h,
    Option.getD_some] at hc
  rw [hc]
  rfl

theorem scaledCoord_placed :
    scaledCoord a i (z.placed a f) = .ok (z.scaledCoord a i) (z.placed a f) := by
  have h : i < z.scaled.size := by rw [hz.scaled]; exact hi
  have hr : scaledAt i (z.placed a f) = .ok z.scaled[i] (z.placed a f) := unguarded_of_lt h _
  refine (bind_of_ok hr).trans ?_
  simp only [Zone.scaledCoord, Array.getD_eq_getD_getElem?, Array.getElem?_eq_getElem h]
  rfl

theorem unitCoord_placed :
    unitCoord a i (z.placed a f) = .ok (z.unitCoord a i) (z.placed a f) := by
  refine (bind_of_ok (x := get) rfl).trans ?_
  show (match z.unscaled[i]? with | some p => pure (p.coord a) | none => scaledCoord a i)
    (z.placed a f) = _
  unfold Zone.unitCoord
  cases z.unscaled[i]? with
  | some p => rfl
  | none => exact scaledCoord_placed hz hi

theorem setCoord_placed (v : Int32) :
    setCoord a i v (z.placed a f) = .ok () (z.placed a (Function.update f i v)) := by
  have h : i < (z.placed a f).points.size := by rw [z.size_placed, hz.points]; exact hi
  rw [setCoord, modifyPoint, if_pos h]
  congr 1
  have : (z.placed a f).points.modify i (·.withCoord a v) =
      (z.placed a (Function.update f i v)).points := by
    apply Array.ext (by simp [Zone.placed])
    intro j hj _
    by_cases hji : j = i
    · subst hji
      simp [Zone.placed, Array.getElem_modify, Point.withCoord_withCoord]
    · simp [Zone.placed, Array.getElem_modify, hji, Ne.symm hji]
  rw [this]
  rfl

theorem flagsAt_placed :
    (do return (← flagsAt i).meets (.touched a) : ZoneM Bool) (z.placed a f) =
      .ok (z.isTouched a i) (z.placed a f) := by
  have h : i < z.flags.size := by rw [hz.flags]; exact hi
  have hr : flagsAt i (z.placed a f) = .ok z.flags[i] (z.placed a f) := unguarded_of_lt h _
  refine (bind_of_ok hr).trans ?_
  simp only [Zone.isTouched, Array.getD_eq_getD_getElem?, Array.getElem?_eq_getElem h]
  rfl

end Regular

/-! ### Loops over points -/

theorem forM_range' {body : Nat → ZoneM Unit} :
    ∀ {k s : Nat} {f : Nat → Int32},
      (∀ i, s ≤ i → i < s + k → ∀ f', f' i = f i →
        body i (z.placed a f') = .ok () (z.placed a (Function.update f' i (g i)))) →
      (List.range' s k).forM body (z.placed a f) =
        .ok () (z.placed a fun i => if s ≤ i ∧ i < s + k then g i else f i)
  | 0, s, f, _ => by
    have : (fun i => if s ≤ i ∧ i < s + 0 then g i else f i) = f := by
      funext i
      rw [if_neg (by omega)]
    rw [this]
    rfl
  | k + 1, s, f, h => by
    have hs := h s (by omega) (by omega) f rfl
    have hrest := forM_range' (k := k) (s := s + 1) (f := Function.update f s (g s))
      fun i hi hk f' hf' => h i (by omega) (by omega) f' (by
        rw [hf', Function.update_of_ne (by omega)])
    rw [List.range'_succ]
    refine (bind_of_ok hs).trans (hrest.trans ?_)
    congr 2
    funext i
    by_cases hi : i = s
    · subst hi
      simp
    · rw [Function.update_of_ne hi]
      exact if_congr (by omega) rfl rfl

/-- A loop that sets each point to a value which depends on no other point. -/
theorem forPoints_placed {body : Nat → ZoneM Unit}
    (h : ∀ i, first ≤ i → i ≤ last → ∀ f', f' i = f i →
      body i (z.placed a f') = .ok () (z.placed a (Function.update f' i (g i)))) :
    forPoints first last body (z.placed a f) =
      .ok () (z.placed a fun i => if first ≤ i ∧ i ≤ last then g i else f i) := by
  refine (forM_range' fun i hi hk f' hf' => h i hi (by omega) f' hf').trans ?_
  congr 2
  funext i
  exact if_congr (by omega) rfl rfl

section Regular

variable (hz : z.Regular n)
include hz

theorem followPoint_placed (hlast : last < n) (hp : p < n) :
    followPoint a first last p (z.placed a f) = .ok () (z.placed a fun i =>
      if first ≤ i ∧ i ≤ last ∧ i ≠ p then f i + (f p - z.scaledCoord a p) else f i) := by
  refine (bind_of_ok (currentCoord_placed hz hp)).trans ?_
  refine (bind_of_ok (scaledCoord_placed hz hp)).trans ?_
  by_cases hd : f p - z.scaledCoord a p = 0
  · simp [hd]
    rfl
  · rw [if_pos hd]
    refine (forPoints_placed (g := fun i => if i = p then f i else f i + (f p - z.scaledCoord a p))
      fun i hi hl f' hf' => ?_).trans ?_
    · by_cases hip : i = p
      · simp only [hip, ne_eq, not_true_eq_false, if_false, if_true]
        rw [← hip, ← hf', Function.update_eq_self]
        rfl
      · simp only [ne_eq, hip, not_false_eq_true, if_true, if_false]
        refine (bind_of_ok (currentCoord_placed hz (by omega))).trans ?_
        rw [setCoord_placed hz (by omega), hf']
    · congr 2
      funext i
      by_cases hip : i = p
      · simp [hip]
      · simp [hip]

theorem span_placed (hp : p < n) (hq : q < n) :
    span a p q (z.placed a f) = .ok (z.span a p (f p) q (f q)) (z.placed a f) := by
  refine (bind_of_ok (unitCoord_placed hz hp)).trans ?_
  refine (bind_of_ok (scaledCoord_placed hz hp)).trans ?_
  refine (bind_of_ok (currentCoord_placed hz hp)).trans ?_
  refine (bind_of_ok (unitCoord_placed hz hq)).trans ?_
  refine (bind_of_ok (scaledCoord_placed hz hq)).trans ?_
  exact bind_of_ok (currentCoord_placed hz hq)

theorem interpolate_placed (hlast : last < n) (hp : p < n) (hq : q < n) :
    interpolate a first last p q (z.placed a f) = .ok () (z.placed a fun i =>
      if first ≤ i ∧ i ≤ last then z.between a p (f p) q (f q) i else f i) := by
  by_cases hle : first ≤ last
  · rw [interpolate, if_pos hle]
    refine (bind_of_ok (span_placed hz hp hq)).trans (forPoints_placed fun i hi hl f' _ => ?_)
    refine (bind_of_ok (scaledCoord_placed hz (by omega))).trans ?_
    refine (bind_of_ok (unitCoord_placed hz (by omega))).trans ?_
    exact setCoord_placed hz (by omega) _
  · have : (fun i => if first ≤ i ∧ i ≤ last then z.between a p (f p) q (f q) i else f i) = f := by
      funext i
      rw [if_neg (by omega)]
    rw [interpolate, if_neg hle, this]
    rfl

end Regular

end ZoneM

theorem Exec.onZone_glyph {α : Type} (x : ZoneM α) (m : Machine) :
    onZone .glyph x m = match x m.glyph with
      | .ok v z => .ok v { m with glyph := z }
      | .error e z => .error e { m with glyph := z } := rfl

end GridFit
