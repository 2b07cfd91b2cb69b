import GridFit.Proofs.Interpolation.Proportion
import GridFit.Proofs.Success

/-!
# Moves reach the demanded projection

A point moves along the freedom vector until its projection has changed by a demanded distance. The
distance is scaled by the dot product of the vectors on the way. If the projection vector is an
axis, in either direction, and the freedom vector leans towards it enough (`Graphics.Aims`), then no
unit is lost: distances and coordinates may wrap around and the freedom vector may be oblique, and
the new projection is the demanded one (`Graphics.Aims.move_ok`).

Each instruction that places a point ends with such a move, by the distance that is missing.
-/

namespace GridFit

namespace Vec

def reversed (v : Vec) : Vec := ⟨-v.x, -v.y⟩

def component (v : Vec) : Axis → Int32
  | .x => v.x
  | .y => v.y

theorem coord_mk (v : Vec) (a : Axis) : (Point.mk v.x v.y).coord a = v.component a := by
  cases a <;> rfl

/-- The vector is a coordinate axis, in either direction. -/
def OnAxis (v : Vec) (a : Axis) : Prop := v = ofAxis a ∨ v = (ofAxis a).reversed

theorem dot_reversed_ofAxis (a : Axis) (p : Point) : (ofAxis a).reversed.dot p = -p.coord a := by
  have hone : (-0x4000 : Int32).toInt = -0x4000 := rfl
  have hzero : (-0 : Int32).toInt = 0 := rfl
  have hneg (x : Int32) :
      (Fixed.nearest (x.toInt * -0x4000) 0x4000).bmod (2 ^ 32) = (-x).toInt := by
    rw [Int.mul_neg, ← Int.neg_mul, Fixed.nearest_mul_self _ (by decide), Int32.toInt_neg]
  rw [← Int32.toInt_inj]
  cases a with
  | x =>
    show (Fixed.dot14 p.x p.y (-0x4000) (-0)).toInt = (-p.x).toInt
    rw [Fixed.toInt_dot14 _ _ (by decide) (by decide), hone, hzero, mul_zero, add_zero, hneg]
  | y =>
    show (Fixed.dot14 p.x p.y (-0) (-0x4000)).toInt = (-p.y).toInt
    rw [Fixed.toInt_dot14 _ _ (by decide) (by decide), hone, hzero, mul_zero, zero_add, hneg]

namespace OnAxis

variable {v : Vec} {a : Axis}

/-- The projection is the coordinate, up to the sign. -/
theorem dot_cases (h : v.OnAxis a) :
    (∀ p, v.dot p = p.coord a) ∨ ∀ p, v.dot p = -p.coord a := by
  rcases h with rfl | rfl
  · exact .inl (dot_ofAxis a)
  · exact .inr (dot_reversed_ofAxis a)

theorem dot_sub (h : v.OnAxis a) (p q : Point) : v.dot (p - q) = v.dot p - v.dot q := by
  rcases h.dot_cases with hv | hv
  · rw [hv, hv, hv, Point.coord_sub]
  · rw [hv, hv, hv, Point.coord_sub]
    grind

end OnAxis

end Vec

/-- Distances are measured on an axis, and the freedom vector leans towards it. -/
structure Graphics.Aims (g : Graphics) (a : Axis) : Prop where
  free : ¬g.backwardCompatible
  pv : g.pv.OnAxis a
  fv : 0x400 ≤ Fixed.magnitude (g.fv.component a)
  fdotp : g.fdotp = projectionFactor g.fv g.pv

namespace Graphics.Aims

variable {g : Graphics} {a : Axis}

theorem component_ne_zero (h : g.Aims a) : g.fv.component a ≠ 0 := by
  intro hzero
  have := h.fv
  rw [hzero] at this
  exact absurd this (by decide)

/-- The magnitude of the least value would be negative. -/
theorem natAbs_component_lt (h : g.Aims a) : (g.fv.component a).toInt.natAbs < 2 ^ 31 := by
  have hle := Fixed.natAbs_le (g.fv.component a)
  have hne : g.fv.component a ≠ -2147483648 := by
    intro hmin
    have := h.fv
    rw [hmin] at this
    exact absurd this (by decide)
  have hlt := (g.fv.component a).toInt_lt
  have hmin : (g.fv.component a).toInt ≠ -2147483648 := fun he => hne (Int32.toInt_inj.1 he)
  omega

theorem fdotp_eq (h : g.Aims a) : g.fdotp = g.pv.dot ⟨g.fv.x, g.fv.y⟩ := by
  have hlarge : 0x400 ≤ Fixed.magnitude (g.pv.dot ⟨g.fv.x, g.fv.y⟩) := by
    rcases h.pv.dot_cases with hpv | hpv
    · rw [hpv, Vec.coord_mk]
      exact h.fv
    · rw [hpv, Vec.coord_mk, Fixed.magnitude_neg]
      exact h.fv
  have hfactor : projectionFactor g.fv g.pv =
      if Fixed.magnitude (g.pv.dot ⟨g.fv.x, g.fv.y⟩) < 0x400 then 0x4000
      else g.pv.dot ⟨g.fv.x, g.fv.y⟩ := by rfl
  rw [h.fdotp, hfactor, if_neg (Int32.not_lt.2 hlarge)]

theorem project_eq (h : g.Aims a) (p q : Point) : g.project p q = g.pv.dot p - g.pv.dot q :=
  h.pv.dot_sub p q

/-- The displacement for a change of the projection has that projection. -/
theorem dot_displacement (h : g.Aims a) (d : Int32) : g.pv.dot (g.displacement d) = d := by
  have hdisplacement : (g.displacement d).coord a =
      Fixed.mulDiv d (g.fv.component a) g.fdotp := by cases a <;> rfl
  have hfdotp := h.fdotp_eq
  rcases h.pv.dot_cases with hpv | hpv
  · rw [hpv, Vec.coord_mk] at hfdotp
    rw [hpv, hdisplacement, hfdotp, Fixed.mulDiv_cancel d h.component_ne_zero]
  · rw [hpv, Vec.coord_mk] at hfdotp
    rw [hpv, hdisplacement, hfdotp, Fixed.mulDiv_neg _ _ h.component_ne_zero h.natAbs_component_lt,
      Fixed.mulDiv_cancel d h.component_ne_zero, Int32.neg_neg]

end Graphics.Aims

namespace Zone

/-- There is a point `i`, and its projection is `k`. -/
def Projects (z : Zone) (v : Vec) (i : Nat) (k : Int32) : Prop :=
  ∃ p, z.points[i]? = some p ∧ v.dot p = k

end Zone

/-! ### Moves -/

namespace Graphics.Aims

variable {g : Graphics} {a : Axis} {z z' : Zone} {i j : Nat} {d k : Int32} {u : Unit}

theorem move_ok (h : g.Aims a) (hk : z.Projects g.pv i k)
    (hmove : ZoneM.move g i d z = .ok u z') : z'.Projects g.pv i (k + d) := by
  obtain ⟨p, hp, rfl⟩ := hk
  have hpoint := ZoneM.shift_ok h.free hmove
  rw [hp] at hpoint
  refine ⟨_, hpoint, ?_⟩
  have hd := h.dot_displacement d
  have hne := h.component_ne_zero
  have hcoord : (Point.mk (if g.fv.x ≠ 0 then p.x + (g.displacement d).x else p.x)
      (if g.fv.y ≠ 0 then p.y + (g.displacement d).y else p.y)).coord a =
        p.coord a + (g.displacement d).coord a := by
    cases a with
    | x => exact if_pos hne
    | y => exact if_pos hne
  rcases h.pv.dot_cases with hpv | hpv
  · rw [hpv] at hd ⊢
    rw [hcoord, hd, hpv]
  · rw [hpv] at hd ⊢
    rw [hcoord, hpv]
    grind

/-- A move by the missing distance. -/
theorem move_to (h : g.Aims a) {p : Point} (hp : z.points[i]? = some p)
    (hmove : ZoneM.move g i (k - g.pv.dot p) z = .ok u z') : z'.Projects g.pv i k := by
  have hto := h.move_ok ⟨p, hp, rfl⟩ hmove
  rwa [Int32.add_comm, Int32.sub_add_cancel] at hto

end Graphics.Aims

/-! ### Loops over the points of a zone -/

theorem Machine.Lists.eq {m : Machine} {l l' : List Nat} (h : m.Lists l) (h' : m.Lists l') :
    l = l' := by
  have hlength : l.length = l'.length := h.1.symm.trans h'.1
  rw [← h.2, ← h'.2, hlength]

namespace Exec

open OperandStack

variable {zp : ZonePointer} {f : Nat → ZoneM Unit} {m m' : Machine} {u : Unit} {n : Nat}

/-- The first round of a loop visits the top point. -/
theorem round_ok (h : forLoop.rounds (fun p => onZone zp (f p)) (n + 1) m = .ok u m') :
    ∃ v m₁, m.stack.pile = v :: m₁.stack.pile ∧
      f (toIndex v) (m.zone zp) = .ok () (m₁.zone zp) ∧
      (∀ zq, zq ≠ zp → m₁.zone zq = m.zone zq) ∧
      forLoop.rounds (fun p => onZone zp (f p)) n m₁ = .ok u m' := by
  obtain ⟨p, m₁, hpop, h⟩ := exists_of_bind_ok h
  obtain ⟨⟨⟩, m₂, hbody, h⟩ := exists_of_bind_ok h
  obtain ⟨⟨⟩, m₃, hcount, h⟩ := exists_of_bind_ok h
  obtain ⟨v, s, hpile, rfl, rfl⟩ := popIndex_ok hpop
  obtain ⟨z, hz, rfl⟩ := onZone_ok hbody
  obtain rfl := modifyGraphics_ok hcount
  refine ⟨v, _, ?_, ?_, ?_, h⟩
  · simpa using hpile
  · simpa using hz
  · intro zq hzq
    simp [Machine.zone_withZone, hzq]

section Loop

variable {P : List Nat → Zone → Prop}
  (hstep : ∀ l p z u z', P l z → f p z = .ok u z' → P (p :: l) z')
include hstep

/-- The induction is on the rounds to come. `t` is the list of the points that have been visited. -/
theorem rounds_ok {t : List Nat} (ht : P t (m.zone zp))
    (h : forLoop.rounds (fun p => onZone zp (f p)) n m = .ok u m') :
    ∃ l : List Nat, l.length = n ∧ (m.stack.pile.take n).map toIndex = l ∧
      P (l.reverse ++ t) (m'.zone zp) ∧ ∀ zq, zq ≠ zp → m'.zone zq = m.zone zq := by
  induction n generalizing m t with
  | zero =>
    cases h
    exact ⟨[], rfl, rfl, ht, fun _ _ => rfl⟩
  | succ n ih =>
    obtain ⟨v, m₁, hpile, hf, hother, hrest⟩ := round_ok h
    obtain ⟨l, hlen, hl, hvisited, hrest⟩ := ih (hstep t _ _ _ _ ht hf) hrest
    refine ⟨toIndex v :: l, by rw [List.length_cons, hlen], ?_, ?_, ?_⟩
    · rw [hpile, List.take_succ_cons, List.map_cons, hl]
    · rw [List.reverse_cons, List.append_assoc]
      exact hvisited
    · exact fun zq hzq => (hrest zq hzq).trans (hother zq hzq)

/-- What one visit of a point keeps holds of all visited points after the loop. -/
theorem forLoop_ok {t : List Nat} (ht : P t (m.zone zp))
    (h : forLoop (fun p => onZone zp (f p)) m = .ok u m') :
    ∃ l, m.Lists l ∧ P (l.reverse ++ t) (m'.zone zp) ∧
      ∀ zq, zq ≠ zp → m'.zone zq = m.zone zq := by
  obtain ⟨g, m₁, hg, h⟩ := exists_of_bind_ok h
  obtain ⟨⟨⟩, m₂, hrounds, hreset⟩ := exists_of_bind_ok h
  cases hg
  obtain rfl := modifyGraphics_ok hreset
  obtain ⟨l, hlen, hl, hvisited, hother⟩ := rounds_ok hstep ht hrounds
  refine ⟨l, ⟨hlen.symm, hlen ▸ hl⟩, ?_, fun zq hzq => ?_⟩
  · simpa using hvisited
  · simpa using hother zq hzq

end Loop

end Exec

/-! ### The instructions -/

/-- Point `i` is at the projected distance `d` from reference point 0, where `g` says how points are
measured. -/
def Machine.Distant (m : Machine) (g : Graphics) (i : Nat) (d : Int32) : Prop :=
  ∃ p ref, (m.zone g.zp1).points[i]? = some p ∧ (m.zone g.zp0).points[g.rp0]? = some ref ∧
    g.project p ref = d

namespace Exec

open OperandStack

variable {m m' : Machine} {a : Axis} {u : Unit}

theorem setCoordinate_ok (h : m.graphics.Aims a) (hx : setCoordinate m = .ok u m') :
    ∃ k v l, m.stack.pile = k :: v :: l ∧
      (m'.zone m.graphics.zp2).Projects m.graphics.pv (toIndex v) k := by
  obtain ⟨k, m₁, hk, hx⟩ := exists_of_bind_ok hx
  obtain ⟨i, m₂, hi, hx⟩ := exists_of_bind_ok hx
  obtain ⟨g, m₃, hg, hzone⟩ := exists_of_bind_ok hx
  obtain ⟨s, hpile, rfl⟩ := pop_ok hk
  obtain ⟨v, s', hpile', rfl, rfl⟩ := popIndex_ok hi
  cases hg
  obtain ⟨z, hz, rfl⟩ := onZone_ok hzone
  obtain ⟨p, z₁, hpoint, hz⟩ := exists_of_bind_ok hz
  obtain ⟨⟨⟩, z₂, hmove, hlast⟩ := exists_of_bind_ok hz
  obtain ⟨hp, rfl⟩ := ZoneM.point_ok hpoint
  have hto := Graphics.Aims.move_to h hp hmove
  have hpoints : z.points = z₂.points := by
    split at hlast
    · obtain ⟨p', z₃, hp', hscaled⟩ := exists_of_bind_ok hlast
      rw [ZoneM.modifyScaled_ok hscaled, (ZoneM.pointAt_ok hp').2]
    · cases hlast
      rfl
  refine ⟨k, v, _, hpile.trans (congrArg _ hpile'), ?_⟩
  simpa [Zone.Projects, hpoints] using hto

theorem moveIndirectAbsolute_ok (h : m.graphics.Aims a)
    (hx : moveIndirectAbsolute false m = .ok u m') :
    ∃ n v l c, m.stack.pile = n :: v :: l ∧ m.controlValues.get? (toIndex n) = some c ∧
      (m'.zone m.graphics.zp0).Projects m.graphics.pv (toIndex v) c := by
  obtain ⟨j, m₁, hj, hx⟩ := exists_of_bind_ok hx
  obtain ⟨i, m₂, hi, hx⟩ := exists_of_bind_ok hx
  obtain ⟨c, m₃, hc, hx⟩ := exists_of_bind_ok hx
  obtain ⟨g, m₄, hg, hx⟩ := exists_of_bind_ok hx
  obtain ⟨⟨⟩, m₅, hzone, hlast⟩ := exists_of_bind_ok hx
  obtain ⟨n, s, hpile, rfl, rfl⟩ := popIndex_ok hj
  obtain ⟨v, s', hpile', rfl, rfl⟩ := popIndex_ok hi
  obtain ⟨hvalue, rfl⟩ := controlValue_ok hc
  cases hg
  obtain ⟨z, hz, rfl⟩ := onZone_ok hzone
  obtain rfl := modifyGraphics_ok hlast
  obtain ⟨⟨⟩, z₁, hcheck, hz⟩ := exists_of_bind_ok hz
  obtain ⟨z₂, -, hz⟩ := exists_of_whenever_ok hz
  obtain ⟨p, z₃, hpoint, hmove⟩ := exists_of_bind_ok hz
  obtain ⟨hp, rfl⟩ := ZoneM.pointAt_ok hpoint
  have hto := Graphics.Aims.move_to h hp hmove
  refine ⟨n, v, _, c, hpile.trans (congrArg _ hpile'), hvalue, ?_⟩
  simpa using hto

theorem moveDirectAbsolute_ok (h : m.graphics.Aims a) (hx : moveDirectAbsolute true m = .ok u m') :
    ∃ v l p, m.stack.pile = v :: l ∧ (m.zone m.graphics.zp0).points[toIndex v]? = some p ∧
      (m'.zone m.graphics.zp0).Projects m.graphics.pv (toIndex v)
        (m.graphics.round.round (m.graphics.pv.dot p)) := by
  obtain ⟨i, m₁, hi, hx⟩ := exists_of_bind_ok hx
  obtain ⟨g, m₂, hg, hx⟩ := exists_of_bind_ok hx
  obtain ⟨⟨⟩, m₃, hzone, hlast⟩ := exists_of_bind_ok hx
  obtain ⟨v, s, hpile, rfl, rfl⟩ := popIndex_ok hi
  cases hg
  obtain ⟨z, hz, rfl⟩ := onZone_ok hzone
  obtain rfl := modifyGraphics_ok hlast
  obtain ⟨p, z₁, hpoint, hmove⟩ := exists_of_bind_ok hz
  obtain ⟨hp, rfl⟩ := ZoneM.point_ok hpoint
  have hto := Graphics.Aims.move_to h hp hmove
  refine ⟨v, _, p, hpile, by simpa using hp, ?_⟩
  simpa using hto

theorem moveStackRelative_ok (h : m.graphics.Aims a) {setsReference : Bool}
    (hx : moveStackRelative setsReference m = .ok u m') :
    ∃ d v l, m.stack.pile = d :: v :: l ∧
      ((m.graphics.zp1, toIndex v) ≠ (m.graphics.zp0, m.graphics.rp0) →
        m'.Distant m.graphics (toIndex v) d) := by
  obtain ⟨d, m₁, hd, hx⟩ := exists_of_bind_ok hx
  obtain ⟨i, m₂, hi, hx⟩ := exists_of_bind_ok hx
  obtain ⟨g, m₃, hg, hx⟩ := exists_of_bind_ok hx
  obtain ⟨ref, m₄, hread, hx⟩ := exists_of_bind_ok hx
  obtain ⟨⟨⟩, m₅, hcheck, hx⟩ := exists_of_bind_ok hx
  obtain ⟨m₆, htwilight, hx⟩ := exists_of_whenever₂_ok hx
  obtain ⟨⟨⟩, m₇, hzone, hlast⟩ := exists_of_bind_ok hx
  obtain ⟨s, hpile, rfl⟩ := pop_ok hd
  obtain ⟨v, s', hpile', rfl, rfl⟩ := popIndex_ok hi
  cases hg
  obtain ⟨href, rfl⟩ := onZone_point_ok hread
  obtain ⟨-, rfl⟩ := onZone_check_ok hcheck
  obtain rfl := modifyGraphics_ok hlast
  refine ⟨d, v, _, hpile.trans (congrArg _ hpile'), fun hne => ?_⟩
  have hne' : (m.graphics.zp0, m.graphics.rp0) ≠ (m.graphics.zp1, toIndex v) := hne.symm
  -- the reference point stays where it was read, also while a twilight point is set up
  have href₆ : (m₆.zone m.graphics.zp0).points[m.graphics.rp0]? = some ref := by
    rcases htwilight with ⟨o, m₅, ho, hsetUp⟩ | rfl
    · obtain rfl := onZone_scaledAt_ok ho
      exact (points_onZone (.bind .modifyScaled fun _ => .bind (.moveScaled _ _) fun _ =>
        .resetPoint) hsetUp hne').trans href
    · exact href
  have href₇ := (points_onZone (.bind .pointAt fun _ => .shift _ _ _) hzone hne').trans href₆
  obtain ⟨z, hz, rfl⟩ := onZone_ok hzone
  obtain ⟨c, z₁, hpoint, hmove⟩ := exists_of_bind_ok hz
  obtain ⟨hc, rfl⟩ := ZoneM.pointAt_ok hpoint
  obtain ⟨q, hq, hdot⟩ := h.move_ok ⟨c, hc, rfl⟩ hmove
  refine ⟨q, ref, by simpa using hq, by simpa using href₇, ?_⟩
  rw [h.project_eq, hdot]
  show _ + (d - m.graphics.project c ref) - _ = d
  rw [h.project_eq]
  grind

/-- A visit moves a point to the projection of the reference point. It leaves all points there that
are there, the reference point and points that have been visited before among them. -/
theorem align_ok {g : Graphics} (h : g.Aims a) {ref : Point} {t : List Nat} {i : Nat} {z z' : Zone}
    (ht : ∀ j ∈ t, z.Projects g.pv j (g.pv.dot ref))
    (hx : (ZoneM.point i >>= fun c => ZoneM.move g i (-g.project c ref)) z = .ok u z') :
    ∀ j ∈ i :: t, z'.Projects g.pv j (g.pv.dot ref) := by
  have hlocal := ZoneM.Local.bind (.point (j := i))
    (fun c => .shift g (g.displacement (-g.project c ref)) true) hx
  obtain ⟨c, z₁, hpoint, hmove⟩ := exists_of_bind_ok hx
  obtain ⟨hc, rfl⟩ := ZoneM.point_ok hpoint
  have hdistance : -g.project c ref = g.pv.dot ref - g.pv.dot c := by
    rw [h.project_eq]
    grind
  rw [hdistance] at hmove
  intro j hj
  by_cases hji : j = i
  · subst hji
    exact h.move_to hc hmove
  · obtain ⟨q, hq, hdot⟩ := ht j ((List.mem_cons.1 hj).resolve_left hji)
    exact ⟨q, (hlocal hji).trans hq, hdot⟩

theorem alignToReference_ok (h : m.graphics.Aims a) (hx : alignToReference m = .ok u m') :
    ∃ l, m.Lists l ∧ ∀ p ∈ l, m'.Distant m.graphics p 0 := by
  obtain ⟨g, m₁, hg, hx⟩ := exists_of_bind_ok hx
  obtain ⟨ref, m₂, hread, hloop⟩ := exists_of_bind_ok hx
  cases hg
  obtain ⟨href, rfl⟩ := onZone_point_ok hread
  -- the reference point counts as visited if it is in the zone of the points
  have hstart : ∀ j ∈ if m₂.graphics.zp0 = m₂.graphics.zp1 then [m₂.graphics.rp0] else [],
      (m₂.zone m₂.graphics.zp1).Projects m₂.graphics.pv j (m₂.graphics.pv.dot ref) := by
    intro j hj
    split at hj
    · rw [List.mem_singleton.1 hj, ← ‹m₂.graphics.zp0 = m₂.graphics.zp1›]
      exact ⟨ref, href, rfl⟩
    · cases hj
  obtain ⟨l, hl, hvisited, hother⟩ := forLoop_ok
    (P := fun t z => ∀ j ∈ t, z.Projects m₂.graphics.pv j (m₂.graphics.pv.dot ref))
    (fun t i z u z' ht hx => align_ok h ht hx) hstart hloop
  have hkept : (m'.zone m₂.graphics.zp0).Projects m₂.graphics.pv m₂.graphics.rp0
      (m₂.graphics.pv.dot ref) := by
    by_cases hzone : m₂.graphics.zp0 = m₂.graphics.zp1
    · rw [hzone]
      exact hvisited _ (by simp [hzone])
    · rw [hother _ hzone]
      exact ⟨ref, href, rfl⟩
  refine ⟨l, hl, fun p hp => ?_⟩
  obtain ⟨ref', href', hdot'⟩ := hkept
  obtain ⟨q, hq, hdot⟩ := hvisited p (by simp [hp])
  refine ⟨q, ref', hq, href', ?_⟩
  rw [h.project_eq, hdot, hdot', Int32.sub_self]

/-- Wherever an instruction says to put a point, its projection is exactly there afterwards, in
either zone: at an operand (`SCFS`), at a control value (`MIAP` without rounding), at the rounded
projection (`MDAP` with rounding), at a distance from reference point 0 (`MSIRP`), or at the
projection of reference point 0, which holds of all listed points together (`ALIGNRP`). -/
theorem moves_reach_projection (h : m.graphics.Aims a) :
    (∀ m', execute .scfs m = .ok () m' → ∃ k v l, m.stack.pile = k :: v :: l ∧
      (m'.zone m.graphics.zp2).Projects m.graphics.pv (toIndex v) k) ∧
    (∀ m', execute (.miap false) m = .ok () m' → ∃ n v l c, m.stack.pile = n :: v :: l ∧
      m.controlValues.get? (toIndex n) = some c ∧
      (m'.zone m.graphics.zp0).Projects m.graphics.pv (toIndex v) c) ∧
    (∀ m', execute (.mdap true) m = .ok () m' → ∃ v l p, m.stack.pile = v :: l ∧
      (m.zone m.graphics.zp0).points[toIndex v]? = some p ∧
      (m'.zone m.graphics.zp0).Projects m.graphics.pv (toIndex v)
        (m.graphics.round.round (m.graphics.pv.dot p))) ∧
    (∀ setsReference m', execute (.msirp setsReference) m = .ok () m' →
      ∃ d v l, m.stack.pile = d :: v :: l ∧
        ((m.graphics.zp1, toIndex v) ≠ (m.graphics.zp0, m.graphics.rp0) →
          m'.Distant m.graphics (toIndex v) d)) ∧
    ∀ m', execute .alignrp m = .ok () m' →
      ∃ l, m.Lists l ∧ ∀ p ∈ l, m'.Distant m.graphics p 0 :=
  ⟨fun _ => setCoordinate_ok h, fun _ => moveIndirectAbsolute_ok h,
    fun _ => moveDirectAbsolute_ok h, fun _ _ => moveStackRelative_ok h,
    fun _ => alignToReference_ok h⟩

/-- The freedom vector leans as far as it may. -/
def leaningGraphics : Graphics :=
  { Graphics.start (.initial 65536 16 {}) false with
    fv := ⟨0x400, 0x3ff0⟩, fdotp := 0x400, rp0 := 1, loop := 3, zp1 := .twilight, zp2 := .twilight }

/-- Points of both zones are at the ends of the range. -/
def leaningMachine (operands : Array Int32) : Machine :=
  { (default : Machine) with
    graphics := leaningGraphics
    stack := ⟨operands, operands.size, Nat.le_refl _⟩
    twilight := { Zone.blank 3 with points := #[⟨-2147483648, 7⟩, ⟨31, -5⟩, ⟨2147483647, 0⟩] }
    glyph := { Zone.blank 2 with points := #[⟨0, 0⟩, ⟨2147483600, -2147483648⟩] } }

theorem moves_reach_projection_leaning :
    leaningGraphics.Aims .x ∧
      (∃ m', execute .scfs (leaningMachine #[0, 2147483647]) = .ok () m' ∧
        (m'.zone .twilight).Projects .xAxis 0 2147483647) ∧
      ∃ m', execute .alignrp (leaningMachine #[0, 2, 1, 2]) = .ok () m' ∧
        ∀ p ∈ [2, 1, 2], m'.Distant leaningGraphics p 0 := by
  have haims : leaningGraphics.Aims .x := ⟨by decide, .inl rfl, by decide, by decide⟩
  obtain ⟨hscfs, -⟩ := moves_reach_projection (m := leaningMachine #[0, 2147483647]) haims
  obtain ⟨-, -, -, -, halign⟩ := moves_reach_projection (m := leaningMachine #[0, 2, 1, 2]) haims
  obtain ⟨m', hm'⟩ := exists_ok (x := execute .scfs) (m := leaningMachine #[0, 2147483647])
    (by decide +kernel)
  obtain ⟨m'', hm''⟩ := exists_ok (x := execute .alignrp) (m := leaningMachine #[0, 2, 1, 2])
    (by decide +kernel)
  refine ⟨haims, ⟨m', hm', ?_⟩, m'', hm'', ?_⟩
  · obtain ⟨k, v, l, hpile, hto⟩ := hscfs m' hm'
    cases hpile
    exact hto
  · obtain ⟨l, hl, hto⟩ := halign m'' hm''
    have hlists : (leaningMachine #[0, 2, 1, 2]).Lists [2, 1, 2] := by decide
    rwa [hl.eq hlists] at hto

end Exec

end GridFit
