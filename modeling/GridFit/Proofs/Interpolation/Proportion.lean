import GridFit.Proofs.Fixed
import GridFit.Proofs.Interpolation.Coordinates
import GridFit.Proofs.OperandStack

/-!
# Points between two reference points

`IP` moves points one after the other and measures them before each move, but each point goes to a
place that depends on the reference points and on its own position before hinting only
(`Zone.share`), and the reference points do not move. So the points that have been moved say what
the outline has become (`Zone.arranged`): neither their order nor how often each is moved shows.
-/

namespace GridFit

theorem PointFlags.union_union (f g : PointFlags) : (f.union g).union g = f.union g := by
  simp [union, UInt8.or_assoc]

namespace Zone

open Point PointFlags

/-- The zone after the points `l` have been moved along an axis, each to its `g`, and marked. -/
def arranged (z : Zone) (a : Axis) (g : Nat → Int32) (l : List Nat) : Zone :=
  { z with
    points := z.points.mapIdx fun i p => if i ∈ l then p.withCoord a (g i) else p
    flags := z.flags.mapIdx fun i f => if i ∈ l then f.union (.touched a) else f }

/-- The place between two references that keeps the proportions before hinting. -/
def share (z : Zone) (a : Axis) (r s i : Nat) : Int32 :=
  z.currentCoord a r + Exec.proportional (z.scaledCoord a i - z.scaledCoord a r)
    (z.scaledCoord a s - z.scaledCoord a r) (z.currentCoord a s - z.currentCoord a r)

variable {z : Zone} {n : Nat} {a b : Axis} {g g' : Nat → Int32} {l l' : List Nat} {i r s : Nat}
  {d : Int32}

theorem arranged_nil (z : Zone) (a : Axis) (g : Nat → Int32) : z.arranged a g [] = z := by
  have hpoints : z.points.mapIdx (fun _ p => p) = z.points := Array.ext (by simp) (by simp)
  have hflags : z.flags.mapIdx (fun _ f => f) = z.flags := Array.ext (by simp) (by simp)
  simp [arranged, hpoints, hflags]

theorem arranged_congr (h : ∀ i, i ∈ l ↔ i ∈ l') : z.arranged a g l = z.arranged a g l' := by
  simp only [arranged, h]

theorem arranged_congr_left (h : ∀ i ∈ l, g i = g' i) : z.arranged a g l = z.arranged a g' l := by
  have (i : Nat) (p : Point) : (if i ∈ l then p.withCoord a (g i) else p) =
      if i ∈ l then p.withCoord a (g' i) else p := by
    by_cases hi : i ∈ l
    · rw [if_pos hi, if_pos hi, h i hi]
    · rw [if_neg hi, if_neg hi]
  simp only [arranged, this]

theorem arranged_arranged (z : Zone) (a : Axis) (g : Nat → Int32) (l : List Nat) :
    (z.arranged a g l).arranged a g l = z.arranged a g l := by
  simp only [arranged, Array.mapIdx_mapIdx]
  congr 2
  · funext i p
    by_cases hi : i ∈ l
    · simp [hi, withCoord_withCoord]
    · simp [hi]
  · funext i f
    by_cases hi : i ∈ l
    · simp [hi, union_union]
    · simp [hi]

theorem currentCoord_arranged (hi : i < z.points.size) :
    (z.arranged a g l).currentCoord a i = if i ∈ l then g i else z.currentCoord a i := by
  by_cases hl : i ∈ l
  · simp [currentCoord, arranged, hi, hl, coord_withCoord]
  · simp [currentCoord, arranged, hi, hl]

/-- One more point is moved and marked. -/
theorem arranged_cons (hg : (z.arranged a g l).currentCoord a i + d = g i) :
    { z.arranged a g l with
      points := (z.arranged a g l).points.modify i fun p => p.withCoord a (p.coord a + d)
      flags := (z.arranged a g l).flags.modify i (·.union (.touched a)) } =
      z.arranged a g (i :: l) := by
  have hpoints : (z.arranged a g l).points.modify i (fun p => p.withCoord a (p.coord a + d)) =
      (z.arranged a g (i :: l)).points := by
    apply Array.ext (by simp [arranged])
    intro j hsize _
    have hj : j < z.points.size := by simpa [arranged] using hsize
    by_cases hji : j = i
    · subst hji
      rw [currentCoord_arranged hj] at hg
      by_cases hl : j ∈ l
      · rw [if_pos hl] at hg
        simp [arranged, Array.getElem_modify, hl, withCoord_withCoord, coord_withCoord, hg]
      · have hg : z.points[j].coord a + d = g j := by simpa [hl, currentCoord, hj] using hg
        simp [arranged, Array.getElem_modify, hl, hg]
    · simp [arranged, Array.getElem_modify, hji, Ne.symm hji]
  have hflags : (z.arranged a g l).flags.modify i (·.union (.touched a)) =
      (z.arranged a g (i :: l)).flags := by
    apply Array.ext (by simp [arranged])
    intro j _ _
    by_cases hji : j = i
    · subst hji
      by_cases hl : j ∈ l
      · simp [arranged, Array.getElem_modify, hl, union_union]
      · simp [arranged, Array.getElem_modify, hl]
    · simp [arranged, Array.getElem_modify, hji, Ne.symm hji]
  rw [hpoints, hflags]
  rfl

theorem Regular.arranged (h : z.Regular n) : (z.arranged a g l).Regular n := by
  constructor
  · exact h.scaled
  · simpa [Zone.arranged] using h.points
  · simpa [Zone.arranged] using h.flags

/-- A point whose place is where it is does not move. -/
theorem getElem?_arranged (hg : g i = z.currentCoord a i) :
    (z.arranged a g l).points[i]? = z.points[i]? := by
  by_cases hi : i < z.points.size
  · have : g i = z.points[i].coord a := by simpa [currentCoord, hi] using hg
    simp [arranged, hi, this, withCoord_coord]
  · simp [arranged, hi]

end Zone

/-! ### Moving a point along an axis -/

/-- The machine measures and moves along one axis, in a glyph without units. -/
structure Machine.Aligned (m : Machine) (a : Axis) (n : Nat) : Prop where
  glyph : m.glyph.Regular n
  units : m.glyph.unscaled = #[]
  zones : m.graphics.zp0 = .glyph ∧ m.graphics.zp1 = .glyph ∧ m.graphics.zp2 = .glyph
  pv : m.graphics.pv = .ofAxis a
  fv : m.graphics.fv = .ofAxis a
  dv : m.graphics.dv = .ofAxis a
  fdotp : m.graphics.fdotp = Graphics.projectionFactor m.graphics.fv m.graphics.pv
  free : ¬m.graphics.backwardCompatible
  rp1 : m.graphics.rp1 < n
  rp2 : m.graphics.rp2 < n

namespace Graphics

variable {g : Graphics} {a : Axis}

theorem coord_displacement (hfv : g.fv = .ofAxis a) (hpv : g.pv = .ofAxis a)
    (hfdotp : g.fdotp = projectionFactor g.fv g.pv) (d : Int32) :
    (g.displacement d).coord a = d := by
  have hone : g.fdotp = 0x4000 := by
    rw [hfdotp, hfv, hpv]
    cases a <;> decide
  rw [displacement, hone, hfv]
  cases a <;> exact Fixed.mulDiv_cancel (c := 0x4000) d (by decide)

end Graphics

namespace ZoneM

variable {z : Zone} {n i : Nat} {a : Axis}

theorem checked_of_lt {x : Array Point} (h : i < x.size) (z : Zone) :
    checked x i z = .ok (x.getD i {}) z := by
  rw [checked, dif_pos h, Array.getD_eq_getD_getElem?, Array.getElem?_eq_getElem h]
  rfl

/-- With the freedom vector on an axis only that coordinate changes. -/
theorem move_eq {g : Graphics} (hfv : g.fv = .ofAxis a) (hfree : ¬g.backwardCompatible)
    {d v : Int32} (hv : (g.displacement d).coord a = v) :
    move g i d = (do
      check i
      modifyPoint i fun p => p.withCoord a (p.coord a + v)
      touch i (.touched a)) := by
  have hfrozen : ¬g.isFrozen := by simp [Graphics.isFrozen, hfree]
  have hone : (0x4000 : Int32) ≠ 0 := by decide
  subst hv
  rw [move, shift, hfv]
  cases a with
  | x =>
    simp only [Vec.ofAxis, Vec.xAxis, ne_eq, hone, hfree, not_false_eq_true, not_true_eq_false,
      ↓reduceIte, Bool.not_false, bind_pure_comp, id_map']
    rfl
  | y =>
    simp only [Vec.ofAxis, Vec.yAxis, ne_eq, hone, hfrozen, not_false_eq_true, not_true_eq_false,
      ↓reduceIte, Bool.not_false]
    rfl

theorem move_along {g : Graphics} (hz : z.Regular n) (hi : i < n) (hfv : g.fv = .ofAxis a)
    (hfree : ¬g.backwardCompatible) {d v : Int32} (hv : (g.displacement d).coord a = v) :
    move g i d z = .ok () { z with
      points := z.points.modify i fun p => p.withCoord a (p.coord a + v)
      flags := z.flags.modify i (·.union (.touched a)) } := by
  have hcheck : check i z = .ok () z := if_pos (hz.points ▸ hi)
  have hmove : modifyPoint i (fun p => p.withCoord a (p.coord a + v)) z = .ok () _ :=
    if_pos (hz.points ▸ hi)
  rw [move_eq hfv hfree hv]
  refine (bind_of_ok hcheck).trans ((bind_of_ok hmove).trans ?_)
  exact if_pos (hz.flags ▸ hi)

end ZoneM

/-! ### The loop -/

namespace Machine

/-- The machine with another glyph zone, stack and loop counter. -/
def staged (m : Machine) (z : Zone) (s : OperandStack) (k : Int32) : Machine :=
  { m with glyph := z, stack := s, graphics := { m.graphics with loop := k } }

/-- The place of a point that keeps its proportion between reference points 1 and 2. -/
def share (m : Machine) (a : Axis) (i : Nat) : Int32 :=
  m.glyph.share a m.graphics.rp1 m.graphics.rp2 i

/-- The next loop is over the points `l`. -/
def Lists (m : Machine) (l : List Nat) : Prop :=
  m.graphics.loop.toNatClampNeg = l.length ∧
    (m.stack.pile.take l.length).map OperandStack.toIndex = l

instance (m : Machine) (l : List Nat) : Decidable (m.Lists l) :=
  inferInstanceAs (Decidable (_ ∧ _))

end Machine

namespace Exec

variable {m : Machine} {a : Axis} {n : Nat} {g : Nat → Int32} {l : List Nat}

theorem popIndex_staged {z : Zone} {s : OperandStack} {k v : Int32} {vs : List Int32}
    (h : s.pile = v :: vs) : ∃ s', s'.pile = vs ∧
      popIndex (m.staged z s k) = .ok (OperandStack.toIndex v) (m.staged z s' k) := by
  have hr : SameOutcome _ (StackM.popIndex s) _ := Refines.popIndex s
  rw [h] at hr
  rcases hr.cases with ⟨i, s', vs', hs, hvs, hp, -⟩ | ⟨e, s', vs', hs, hvs, -⟩
  · cases hvs
    refine ⟨s', hp, ?_⟩
    have hs : StackM.popIndex (m.staged z s k).stack = .ok (OperandStack.toIndex v) s' := hs
    simp only [popIndex, onStack, hs]
    rfl
  · cases hvs

section Loop

variable {body : Nat → Exec Unit} (hbody : ∀ p < n, ∀ t s k,
  body p (m.staged (m.glyph.arranged a g t) s k) =
    .ok () (m.staged (m.glyph.arranged a g (p :: t)) s k))
include hbody

/-- A loop that moves each point to its place moves all points of the list there. -/
theorem rounds_arranged : ∀ {l t : List Nat} {s : OperandStack} {k : Int32}, (∀ p ∈ l, p < n) →
    (s.pile.take l.length).map OperandStack.toIndex = l →
    ∃ s' k', forLoop.rounds body l.length (m.staged (m.glyph.arranged a g t) s k) =
      .ok () (m.staged (m.glyph.arranged a g (l.reverse ++ t)) s' k')
  | [], t, s, k, _, _ => ⟨s, k, rfl⟩
  | p :: l, t, s, k, hn, hl => by
    rcases hs : s.pile with _ | ⟨v, vs⟩
    · rw [hs] at hl
      cases hl
    · rw [hs] at hl
      obtain ⟨rfl, hvs⟩ := List.cons.inj hl
      obtain ⟨s₁, hs₁, hpop⟩ := popIndex_staged (m := m) hs
      rw [← hs₁] at hvs
      obtain ⟨s', k', hrest⟩ := rounds_arranged (l := l) (k := k - 1)
        (fun q hq => hn q (by simp [hq])) hvs
      refine ⟨s', k', ?_⟩
      rw [List.reverse_cons, List.append_assoc]
      refine (bind_of_ok hpop).trans ?_
      refine (bind_of_ok (hbody _ (hn _ (by simp)) t s₁ k)).trans ?_
      exact (bind_of_ok (x := modifyGraphics _) rfl).trans hrest

theorem forLoop_arranged (hn : ∀ p ∈ l, p < n) (hl : m.Lists l) :
    ∃ s, forLoop body m = .ok () (m.staged (m.glyph.arranged a g l) s 1) := by
  obtain ⟨s, k, hrounds⟩ := rounds_arranged hbody (t := []) (k := m.graphics.loop) hn hl.2
  rw [Zone.arranged_nil, ← hl.1, List.append_nil,
    Zone.arranged_congr fun i => List.mem_reverse] at hrounds
  refine ⟨s, (bind_of_ok (x := graphics) rfl).trans ((bind_of_ok hrounds).trans ?_)⟩
  rfl

end Loop

end Exec

/-! ### Measuring along an axis -/

namespace Machine.Aligned

variable {m : Machine} {a : Axis} {n i j : Nat} {l t : List Nat} {g : Nat → Int32}

theorem staged (h : m.Aligned a n) {z : Zone} (hz : z.Regular n) (hu : z.unscaled = #[])
    (s : OperandStack) (k : Int32) : (m.staged z s k).Aligned a n :=
  ⟨hz, hu, h.zones, h.pv, h.fv, h.dv, h.fdotp, h.free, h.rp1, h.rp2⟩

theorem project (h : m.Aligned a n) (p q : Point) :
    m.graphics.project p q = p.coord a - q.coord a := by
  rw [Graphics.project, h.pv, Vec.dot_ofAxis, Point.coord_sub]

theorem onZone_point (h : m.Aligned a n) (hi : i < n) :
    Exec.onZone .glyph (ZoneM.point i) m = .ok (m.glyph.points.getD i {}) m := by
  have hread : ZoneM.point i m.glyph = .ok (m.glyph.points.getD i {}) m.glyph :=
    ZoneM.checked_of_lt (h.glyph.points ▸ hi) m.glyph
  rw [Exec.onZone_glyph, hread]

theorem unhintedDistance (h : m.Aligned a n) (hi : i < n) (hj : j < n) :
    Exec.unhintedDistance .glyph i .glyph j m =
      .ok (m.glyph.scaledCoord a i - m.glyph.scaledCoord a j) m := by
  have hunits : Exec.hasUnits .glyph m = .ok false m := by
    show EStateM.Result.ok (!m.glyph.unscaled.isEmpty) m = _
    rw [h.units]
    rfl
  have hscaled {i : Nat} (hi : i < n) :
      Exec.onZone .glyph (ZoneM.scaled i) m = .ok (m.glyph.scaled.getD i {}) m := by
    have hread : ZoneM.scaled i m.glyph = .ok (m.glyph.scaled.getD i {}) m.glyph :=
      ZoneM.checked_of_lt (h.glyph.scaled ▸ hi) m.glyph
    rw [Exec.onZone_glyph, hread]
  refine (bind_of_ok (x := Exec.graphics) rfl).trans ?_
  refine (bind_of_ok hunits).trans ?_
  rw [if_neg (by simp)]
  refine (bind_of_ok (hscaled hi)).trans ?_
  refine (bind_of_ok (hscaled hj)).trans ?_
  rw [Graphics.dualProject, h.dv, Vec.dot_ofAxis, Point.coord_sub]
  rfl

theorem referenceRange (h : m.Aligned a n) (p : Point) :
    Exec.referenceRange m.graphics p m =
      .ok (m.glyph.scaledCoord a m.graphics.rp2 - m.glyph.scaledCoord a m.graphics.rp1,
        m.glyph.currentCoord a m.graphics.rp2 - p.coord a) m := by
  obtain ⟨h0, h1, -⟩ := h.zones
  have hrp2 : m.graphics.rp2 < m.glyph.points.size := h.glyph.points ▸ h.rp2
  have hread : Exec.onZone .glyph (do return (← get).points[m.graphics.rp2]?) m =
    .ok (some (m.glyph.points.getD m.graphics.rp2 {})) m := by
    show EStateM.Result.ok m.glyph.points[m.graphics.rp2]? m = _
    simp [hrp2]
  rw [Exec.referenceRange, h0, h1]
  refine (bind_of_ok hread).trans ?_
  refine (bind_of_ok (h.unhintedDistance h.rp2 h.rp1)).trans ?_
  rw [h.project]
  rfl

theorem move_staged (h : m.Aligned a n) (hi : i < n) {d : Int32}
    (hd : (m.glyph.arranged a g t).currentCoord a i + d = g i) (s : OperandStack) (k : Int32) :
    Exec.onZone .glyph (ZoneM.move m.graphics i d) (m.staged (m.glyph.arranged a g t) s k) =
      .ok () (m.staged (m.glyph.arranged a g (i :: t)) s k) := by
  have hmove : ZoneM.move m.graphics i d (m.glyph.arranged a g t) = .ok () _ :=
    ZoneM.move_along h.glyph.arranged hi h.fv h.free
      (Graphics.coord_displacement h.fv h.pv h.fdotp d)
  rw [Zone.arranged_cons hd] at hmove
  have hstaged : (m.staged (m.glyph.arranged a g t) s k).glyph = m.glyph.arranged a g t := rfl
  rw [Exec.onZone_glyph, hstaged, hmove]
  rfl

/-- One round of the loop. The point is measured where it is now, so it goes to its share whether or
not it has been there before. -/
theorem round_staged (h : m.Aligned a n) (hi : i < n) (t : List Nat) (s : OperandStack) (k : Int32) :
    (do
      let c ← Exec.onZone .glyph (ZoneM.point i)
      let unhinted ← Exec.unhintedDistance .glyph i .glyph m.graphics.rp1
      Exec.onZone .glyph (ZoneM.move m.graphics i (Exec.proportional unhinted
        (m.glyph.scaledCoord a m.graphics.rp2 - m.glyph.scaledCoord a m.graphics.rp1)
        (m.glyph.currentCoord a m.graphics.rp2 - m.glyph.currentCoord a m.graphics.rp1) -
        m.graphics.project c (m.glyph.points.getD m.graphics.rp1 {}))) : Exec Unit)
      (m.staged (m.glyph.arranged a (m.share a) t) s k) =
      .ok () (m.staged (m.glyph.arranged a (m.share a) (i :: t)) s k) := by
  have hcancel (c d b : Int32) : c + (d - (c - b)) = b + d := by grind
  have ha := h.staged (h.glyph.arranged (g := m.share a) (a := a) (l := t)) h.units s k
  refine (bind_of_ok (ha.onZone_point hi)).trans ?_
  refine (bind_of_ok (ha.unhintedDistance hi h.rp1)).trans ?_
  refine h.move_staged hi ?_ s k
  rw [h.project]
  exact hcancel _ _ _

/-- `IP` takes each point of the list to its share. -/
theorem execute_ip (h : m.Aligned a n) (hn : ∀ p ∈ l, p < n) (hl : m.Lists l) :
    ∃ s, Exec.execute .ip m = .ok () (m.staged (m.glyph.arranged a (m.share a) l) s 1) := by
  obtain ⟨h0, -, h2⟩ := h.zones
  obtain ⟨s, hs⟩ := Exec.forLoop_arranged (fun p hp => h.round_staged hp) hn hl
  refine ⟨s, ?_⟩
  rw [Exec.execute, Exec.interpolatePoints, bind_of_ok (x := Exec.graphics) rfl, h0, h2]
  refine (bind_of_ok (h.onZone_point h.rp1)).trans ?_
  exact (bind_of_ok (h.referenceRange _)).trans hs

end Machine.Aligned

/-! ### Shares -/

namespace Exec

open Fixed

variable {d w k : Int32}

/-- The nearest integer to `d k / w` lies between zero and `k`, so it fits into a word. -/
theorem toInt_proportional (hw : 0 < w.toInt) (hk : 0 ≤ k.toInt) (hd : 0 ≤ d.toInt)
    (hdw : d.toInt ≤ w.toInt) : (proportional d w k).toInt = nearest (d.toInt * k.toInt) w.toInt ∧
      0 ≤ (proportional d w k).toInt ∧ (proportional d w k).toInt ≤ k.toInt := by
  have hne : w ≠ 0 := by
    rintro rfl
    exact absurd hw (by decide)
  have hlow : 0 ≤ nearest (d.toInt * k.toInt) w.toInt := nearest_nonneg (Int.mul_nonneg hd hk) hw
  have hhigh : nearest (d.toInt * k.toInt) w.toInt ≤ k.toInt := by
    have hle : d.toInt * k.toInt ≤ k.toInt * w.toInt := by
      rw [Int.mul_comm k.toInt]
      exact Int.mul_le_mul_of_nonneg_right hdw hk
    calc nearest (d.toInt * k.toInt) w.toInt
      _ ≤ nearest (k.toInt * w.toInt) w.toInt := nearest_mono (Int.mul_nonneg hd hk) hw hle
      _ = k.toInt := nearest_mul_self _ hw
  have heq : (proportional d w k).toInt = nearest (d.toInt * k.toInt) w.toInt := by
    by_cases hzero : d = 0
    · simp [proportional, hzero, nearest]
    · have hfits := k.toInt_lt
      rw [proportional, if_neg hzero, if_neg hne, toInt_mulDiv _ _ hne]
      exact Int.bmod_eq_of_le (by omega) (by omega)
  rw [heq]
  exact ⟨rfl, hlow, hhigh⟩

end Exec

namespace Zone

open Fixed

/-- Two references which have the same order before hinting and now, in a zone of `n` points whose
coordinates leave room for sums. -/
structure Spread (z : Zone) (a : Axis) (n r s : Nat) : Prop where
  left : r < n
  right : s < n
  scaled : z.scaledCoord a r < z.scaledCoord a s
  current : z.currentCoord a r < z.currentCoord a s
  scaled_le : ∀ i < n, (z.scaledCoord a i).toInt.natAbs ≤ 2 ^ 29
  current_le : ∀ i < n, (z.currentCoord a i).toInt.natAbs ≤ 2 ^ 29

/-- A point lies between two references before hinting. -/
def Inside (z : Zone) (a : Axis) (r s i : Nat) : Prop :=
  z.scaledCoord a r ≤ z.scaledCoord a i ∧ z.scaledCoord a i ≤ z.scaledCoord a s

instance (z : Zone) (a : Axis) (r s i : Nat) : Decidable (z.Inside a r s i) :=
  inferInstanceAs (Decidable (_ ∧ _))

variable {z : Zone} {a : Axis} {n r s i j : Nat}

theorem share_left (z : Zone) (a : Axis) (r s : Nat) : z.share a r s r = z.currentCoord a r := by
  simp [share, Exec.proportional]

namespace Spread

section Share

variable (h : z.Spread a n r s)
include h

theorem inside_left : z.Inside a r s r := ⟨Int32.le_refl _, Int32.le_of_lt h.scaled⟩

theorem inside_right : z.Inside a r s s := ⟨Int32.le_of_lt h.scaled, Int32.le_refl _⟩

/-- The share of a point, in integers. -/
theorem toInt_share (hi : i < n) (hin : z.Inside a r s i) :
    (z.share a r s i).toInt = (z.currentCoord a r).toInt +
      nearest (((z.scaledCoord a i).toInt - (z.scaledCoord a r).toInt) *
        ((z.currentCoord a s).toInt - (z.currentCoord a r).toInt))
        ((z.scaledCoord a s).toInt - (z.scaledCoord a r).toInt) ∧
    z.currentCoord a r ≤ z.share a r s i ∧ z.share a r s i ≤ z.currentCoord a s := by
  have hscaled := Int32.lt_iff_toInt_lt.1 h.scaled
  have hcurrent := Int32.lt_iff_toInt_lt.1 h.current
  have hlow := Int32.le_iff_toInt_le.1 hin.1
  have hhigh := Int32.le_iff_toInt_le.1 hin.2
  have hbi := h.scaled_le i hi
  have hbr := h.scaled_le r h.left
  have hbs := h.scaled_le s h.right
  have hcr := h.current_le r h.left
  have hcs := h.current_le s h.right
  have hd : (z.scaledCoord a i - z.scaledCoord a r).toInt = _ :=
    toInt_sub_of_fits (by omega) (by omega)
  have hw : (z.scaledCoord a s - z.scaledCoord a r).toInt = _ :=
    toInt_sub_of_fits (by omega) (by omega)
  have hk : (z.currentCoord a s - z.currentCoord a r).toInt = _ :=
    toInt_sub_of_fits (by omega) (by omega)
  obtain ⟨heq, hnonneg, hle⟩ := Exec.toInt_proportional
    (d := z.scaledCoord a i - z.scaledCoord a r) (w := z.scaledCoord a s - z.scaledCoord a r)
    (k := z.currentCoord a s - z.currentCoord a r) (by omega) (by omega) (by omega) (by omega)
  have hsum : (z.share a r s i).toInt = _ := toInt_add_of_fits (by omega) (by omega)
  rw [Int32.le_iff_toInt_le, Int32.le_iff_toInt_le, hsum]
  refine ⟨?_, by omega, by omega⟩
  rw [heq, hd, hk, hw]

theorem share_mono (hi : i < n) (hj : j < n) (hini : z.Inside a r s i) (hinj : z.Inside a r s j)
    (hij : z.scaledCoord a i ≤ z.scaledCoord a j) : z.share a r s i ≤ z.share a r s j := by
  have hscaled := Int32.lt_iff_toInt_lt.1 h.scaled
  have hcurrent := Int32.lt_iff_toInt_lt.1 h.current
  have hlow := Int32.le_iff_toInt_le.1 hini.1
  have hle := Int32.le_iff_toInt_le.1 hij
  rw [Int32.le_iff_toInt_le, (h.toInt_share hi hini).1, (h.toInt_share hj hinj).1]
  refine Int.add_le_add_left (nearest_mono (Int.mul_nonneg ?_ ?_) ?_ ?_) _
  · omega
  · omega
  · omega
  · exact Int.mul_le_mul_of_nonneg_right (by omega) (by omega)

theorem share_right : z.share a r s s = z.currentCoord a s := by
  have hscaled := Int32.lt_iff_toInt_lt.1 h.scaled
  rw [← Int32.toInt_inj, (h.toInt_share h.right h.inside_right).1, Int.mul_comm,
    nearest_mul_self _ (by omega)]
  omega

/-- References keep their places, so a second time all shares are the same. -/
theorem share_arranged (hz : z.Regular n) (l : List Nat) (i : Nat) :
    (z.arranged a (z.share a r s) l).share a r s i = z.share a r s i := by
  have hr : (z.arranged a (z.share a r s) l).currentCoord a r = z.currentCoord a r := by
    rw [currentCoord_arranged (hz.points ▸ h.left), z.share_left, ite_self]
  have hs : (z.arranged a (z.share a r s) l).currentCoord a s = z.currentCoord a s := by
    rw [currentCoord_arranged (hz.points ▸ h.right), h.share_right, ite_self]
  rw [share, hr, hs]
  rfl

theorem arranged_again (hz : z.Regular n) (l : List Nat) :
    (z.arranged a (z.share a r s) l).arranged a
      ((z.arranged a (z.share a r s) l).share a r s) l = z.arranged a (z.share a r s) l := by
  rw [arranged_congr_left fun i _ => h.share_arranged hz l i, arranged_arranged]

theorem currentCoord_share (hz : z.Regular n) {l : List Nat} (hi : i < n) (hl : i ∈ r :: s :: l) :
    (z.arranged a (z.share a r s) l).currentCoord a i = z.share a r s i := by
  rw [currentCoord_arranged (hz.points ▸ hi)]
  by_cases hil : i ∈ l
  · exact if_pos hil
  rw [if_neg hil]
  rcases List.mem_cons.1 hl with rfl | hl
  · exact (z.share_left a i s).symm
  rcases List.mem_cons.1 hl with rfl | hl
  · exact h.share_right.symm
  · exact absurd hl hil

end Share

end Spread

end Zone

namespace Exec

variable {m : Machine} {a : Axis} {n : Nat} {l : List Nat}

/-- `IP` along an axis, with points that were between the reference points before hinting. Only
which points are listed matters, and not how often; to do it again changes nothing. The reference
points stay, the points come between them, and all of them keep their order. -/
theorem interpolates_in_proportion (h : m.Aligned a n)
    (hspread : m.glyph.Spread a n m.graphics.rp1 m.graphics.rp2)
    (hl : ∀ p ∈ l, p < n ∧ m.glyph.Inside a m.graphics.rp1 m.graphics.rp2 p) (hm : m.Lists l) :
    ∃ m', execute .ip m = .ok () m' ∧ m'.glyph = m.glyph.arranged a (m.share a) l ∧
      (∀ l' s k, (∀ p, p ∈ l' ↔ p ∈ l) → (m.staged m.glyph s k).Lists l' →
        ∃ m'', execute .ip (m.staged m.glyph s k) = .ok () m'' ∧ m''.glyph = m'.glyph) ∧
      (∀ s k, (m'.staged m'.glyph s k).Lists l →
        ∃ m'', execute .ip (m'.staged m'.glyph s k) = .ok () m'' ∧ m''.glyph = m'.glyph) ∧
      (∀ r ∈ [m.graphics.rp1, m.graphics.rp2], m'.glyph.points[r]? = m.glyph.points[r]?) ∧
      (∀ p ∈ l, m.glyph.currentCoord a m.graphics.rp1 ≤ m'.glyph.currentCoord a p ∧
        m'.glyph.currentCoord a p ≤ m.glyph.currentCoord a m.graphics.rp2) ∧
      ∀ p ∈ m.graphics.rp1 :: m.graphics.rp2 :: l, ∀ q ∈ m.graphics.rp1 :: m.graphics.rp2 :: l,
        m.glyph.scaledCoord a p ≤ m.glyph.scaledCoord a q →
        m'.glyph.currentCoord a p ≤ m'.glyph.currentCoord a q := by
  obtain ⟨s₀, hrun⟩ := h.execute_ip (fun p hp => (hl p hp).1) hm
  have hplaced : ∀ p ∈ m.graphics.rp1 :: m.graphics.rp2 :: l,
      p < n ∧ m.glyph.Inside a m.graphics.rp1 m.graphics.rp2 p := by
    intro p hp
    rcases List.mem_cons.1 hp with rfl | hp
    · exact ⟨h.rp1, hspread.inside_left⟩
    rcases List.mem_cons.1 hp with rfl | hp
    · exact ⟨h.rp2, hspread.inside_right⟩
    · exact hl p hp
  refine ⟨_, hrun, rfl, ?_, ?_, ?_, ?_, ?_⟩
  · intro l' s k hmem hl'
    have ha := h.staged h.glyph h.units s k
    obtain ⟨s', hrun'⟩ := ha.execute_ip (fun p hp => (hl p ((hmem p).1 hp)).1) hl'
    exact ⟨_, hrun', Zone.arranged_congr hmem⟩
  · -- The zone after the first time has the same shares, since its reference points are in place.
    intro s k hl'
    have ha : (m.staged (m.glyph.arranged a (m.share a) l) s k).Aligned a n :=
      h.staged h.glyph.arranged h.units s k
    obtain ⟨s', hrun'⟩ := ha.execute_ip (fun p hp => (hl p hp).1) hl'
    exact ⟨_, hrun', hspread.arranged_again h.glyph l⟩
  · intro r hr
    refine Zone.getElem?_arranged ?_
    rcases List.mem_cons.1 hr with rfl | hr
    · exact Zone.share_left ..
    · rw [List.mem_singleton.1 hr]
      exact hspread.share_right
  · intro p hp
    have hshare := hspread.currentCoord_share (l := l) h.glyph (hl p hp).1 (by simp [hp])
    obtain ⟨-, hmem⟩ := hspread.toInt_share (hl p hp).1 (hl p hp).2
    rw [← hshare] at hmem
    exact hmem
  · intro p hp q hq hpq
    obtain ⟨hpn, hpi⟩ := hplaced p hp
    obtain ⟨hqn, hqi⟩ := hplaced q hq
    have hsp := hspread.currentCoord_share h.glyph hpn hp
    have hsq := hspread.currentCoord_share h.glyph hqn hq
    have hmono := hspread.share_mono hpn hqn hpi hqi hpq
    rw [← hsp, ← hsq] at hmono
    exact hmono

/-- A list with both reference points and with a point that comes twice. -/
def sharingMachine : Machine :=
  { (default : Machine) with
    graphics := { Graphics.start (.initial 65536 16 {}) false with rp1 := 0, rp2 := 3, loop := 5 }
    stack := ⟨#[0, 1, 2, 3, 1], 5, by decide⟩
    glyph := {
      scaled := #[⟨0, 0⟩, ⟨10, 0⟩, ⟨25, 0⟩, ⟨100, 0⟩, ⟨40, 0⟩]
      points := #[⟨8, 1⟩, ⟨300, 2⟩, ⟨-7, 3⟩, ⟨64, 4⟩, ⟨40, 5⟩]
      flags := #[{}, {}, .touchedY, .touchedX, {}] } }

theorem interpolates_in_proportion_twice :
    sharingMachine.Aligned .x 5 ∧ sharingMachine.glyph.Spread .x 5 0 3 ∧
      sharingMachine.Lists [1, 3, 2, 1, 0] ∧
      ∃ m', execute .ip sharingMachine = .ok () m' ∧
        m'.glyph.points.map (·.x) = #[8, 14, 22, 64, 40] ∧
        (∃ m'', execute .ip (sharingMachine.staged sharingMachine.glyph
          ⟨#[3, 2, 1, 0], 4, by decide⟩ 4) = .ok () m'' ∧ m''.glyph = m'.glyph) ∧
        ∃ m'', execute .ip (m'.staged m'.glyph sharingMachine.stack 5) = .ok () m'' ∧
          m''.glyph = m'.glyph := by
  have haligned : sharingMachine.Aligned .x 5 :=
    ⟨⟨rfl, rfl, rfl⟩, rfl, ⟨rfl, rfl, rfl⟩, rfl, rfl, rfl, by decide, by decide, by decide, by decide⟩
  have hspread : sharingMachine.glyph.Spread .x 5 0 3 :=
    ⟨by decide, by decide, by decide, by decide, by decide, by decide⟩
  have hlists : sharingMachine.Lists [1, 3, 2, 1, 0] := by decide
  obtain ⟨m', hrun, hglyph, hsame, hagain, -⟩ :=
    interpolates_in_proportion haligned hspread (l := [1, 3, 2, 1, 0]) (by decide) hlists
  refine ⟨haligned, hspread, hlists, m', hrun, ?_, ?_, ?_⟩
  · rw [hglyph]
    decide +kernel
  · exact hsame [0, 1, 2, 3] _ _ (by simp; omega) (by decide)
  · exact hagain _ _ hlists

end Exec

end GridFit
