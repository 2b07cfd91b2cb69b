import GridFit.Proofs.Regime.Basic

/-!
# Operations on a zone under a regime

An index that passes a check is the index of a point, in all arrays of the zone. From then on the
unguarded operations at that index cannot fail. The operations on a zone are built that way, up to
the interpolation of untouched points, whose indices come from checked contours.
-/

namespace GridFit

namespace Zone.Regular

variable {z : Zone} {n : Nat}

theorem modifyPoints (h : z.Regular n) (p : Nat) (f : Point → Point) :
    Regular { z with points := z.points.modify p f } n :=
  ⟨h.scaled, by simp [h.points], h.flags⟩

theorem modifyScaled (h : z.Regular n) (p : Nat) (f : Point → Point) :
    Regular { z with scaled := z.scaled.modify p f } n :=
  ⟨by simp [h.scaled], h.points, h.flags⟩

theorem modifyFlags (h : z.Regular n) (p : Nat) (f : PointFlags → PointFlags) :
    Regular { z with flags := z.flags.modify p f } n :=
  ⟨h.scaled, h.points, by simp [h.flags]⟩

end Zone.Regular

namespace Regime

variable {R : Regime} {i : Instruction} {g : Graphics} {zp : ZonePointer} {p : Nat}

/-! ### Checks and reads -/

theorem check (p : Nat) : Keeps (R.zone zp) (ZoneM.check p) fun _ => p < R.size zp := by
  intro z hz
  rw [ZoneM.check, (regular hz).points]
  by_cases hp : p < R.size zp
  · rw [if_pos hp]
    exact ⟨hp, hz⟩
  · rw [if_neg hp]
    exact ⟨nofun, hz⟩

theorem checked {α : Type} {a : Zone → Array α} {n : Nat} (ha : ∀ z, R.zone zp z → (a z).size = n)
    (p : Nat) : Keeps (R.zone zp) (fun z => ZoneM.checked (a z) p z) fun _ => p < n := by
  intro z hz
  dsimp only [ZoneM.checked]
  by_cases hp : p < (a z).size
  · rw [dif_pos hp]
    exact ⟨ha z hz ▸ hp, hz⟩
  · rw [dif_neg hp]
    exact ⟨nofun, hz⟩

theorem point (p : Nat) : Keeps (R.zone zp) (ZoneM.point p) fun _ => p < R.size zp :=
  checked (fun _ hz => (regular hz).points) p

theorem scaled (p : Nat) : Keeps (R.zone zp) (ZoneM.scaled p) fun _ => p < R.size zp :=
  checked (fun _ hz => (regular hz).scaled) p

theorem unscaled (p : Nat) : Keeps (R.zone zp) (ZoneM.unscaled p) Anything := by
  intro z hz
  dsimp only [ZoneM.unscaled, ZoneM.checked]
  by_cases hp : p < z.unscaled.size
  · rw [dif_pos hp]
    exact ⟨trivial, hz⟩
  · rw [dif_neg hp]
    exact ⟨nofun, hz⟩

theorem contour (c : Nat) :
    Keeps (R.zone zp) (ZoneM.contour c) fun r => r.1 ≤ r.2 ∧ r.2 < R.size zp := by
  intro z hz
  unfold ZoneM.contour Zone.contour
  rw [(regular hz).points]
  by_cases hc : c < z.contours.size
  · rw [dif_pos hc]
    dsimp only
    by_cases h : (if c = 0 then 0 else z.contours[c - 1].toNat + 1) ≤ z.contours[c].toNat ∧
        z.contours[c].toNat < R.size zp
    · rw [if_pos h]
      exact ⟨h, hz⟩
    · rw [if_neg h]
      exact ⟨nofun, hz⟩
  · rw [dif_neg hc]
    exact ⟨nofun, hz⟩

theorem unguarded {α : Type} {a : Zone → Array α} {n : Nat} (ha : ∀ z, R.zone zp z → (a z).size = n)
    (hp : p < n) : Keeps (R.zone zp) (fun z => ZoneM.unguarded (a z) p z) Anything := by
  intro z hz
  dsimp only [ZoneM.unguarded]
  rw [dif_pos (by rw [ha z hz]; exact hp)]
  exact ⟨trivial, hz⟩

theorem pointAt (hp : p < R.size zp) : Keeps (R.zone zp) (ZoneM.pointAt p) Anything :=
  unguarded (fun _ hz => (regular hz).points) hp

theorem scaledAt (hp : p < R.size zp) : Keeps (R.zone zp) (ZoneM.scaledAt p) Anything :=
  unguarded (fun _ hz => (regular hz).scaled) hp

theorem flagsAt (hp : p < R.size zp) : Keeps (R.zone zp) (ZoneM.flagsAt p) Anything :=
  unguarded (fun _ hz => (regular hz).flags) hp

/-! ### Writes -/

theorem modifyPoint {f : Point → Point} (hp : p < R.size zp) (hE : R.Edits i) (hg : R.graphics g)
    (he : zp = .glyph → ∀ z : Zone, z.Edit i g { z with points := z.points.modify p f }) :
    Keeps (R.zone zp) (ZoneM.modifyPoint p f) Anything := by
  intro z hz
  have hr := regular hz
  rw [ZoneM.modifyPoint, if_pos (by rw [hr.points]; exact hp)]
  exact ⟨trivial, zone_edit hE hg hz (hr.modifyPoints p f) fun h => he h z⟩

theorem modifyFlags {f : PointFlags → PointFlags} (hp : p < R.size zp) (hE : R.Edits i)
    (hg : R.graphics g)
    (he : zp = .glyph → ∀ z : Zone, z.Edit i g { z with flags := z.flags.modify p f }) :
    Keeps (R.zone zp) (ZoneM.modifyFlags p f) Anything := by
  intro z hz
  have hr := regular hz
  rw [ZoneM.modifyFlags, if_pos (by rw [hr.flags]; exact hp)]
  exact ⟨trivial, zone_edit hE hg hz (hr.modifyFlags p f) fun h => he h z⟩

theorem touch {f : PointFlags} (hp : p < R.size zp) (hE : R.Edits i) (hg : R.graphics g)
    (hf : f.diff .hintingMask = {}) : Keeps (R.zone zp) (ZoneM.touch p f) Anything :=
  modifyFlags hp hE hg fun _ _ => .mark p hf

theorem shift (hE : R.Edits i) (hg : R.graphics g) (p : Nat) (d : Point) (mark : Bool) :
    Keeps (R.zone zp) (ZoneM.shift g p d mark) Anything := by
  refine (check p).bind fun _ hp => ?_
  have shiftY : ∀ _ : Unit, Keeps (R.zone zp) (do
      if g.fv.y ≠ 0 then
        if !g.isFrozen then ZoneM.modifyPoint p fun q => { q with y := q.y + d.y }
        if mark then ZoneM.touch p .touchedY) Anything := fun _ =>
    .ite (fun _ => .whenever
      (fun h => modifyPoint hp hE hg fun _ _ => .moveY p d.y (by simpa using h))
      fun _ => .ite (fun _ => touch hp hE hg (by decide)) fun _ => .pure trivial)
      fun _ => .pure trivial
  exact .ite (fun _ => .whenever
    (fun h => modifyPoint hp hE hg fun _ _ => .moveX p d.x (by simpa using h))
    fun _ => .whenever (fun _ => touch hp hE hg (by decide)) shiftY) fun _ => shiftY ()

theorem move (hE : R.Edits i) (hg : R.graphics g) (p : Nat) (distance : Int32) :
    Keeps (R.zone zp) (ZoneM.move g p distance) Anything :=
  shift hE hg p _ true

/-! ### Writes to twilight points -/

theorem modifyScaled (hp : p < R.size .twilight) (f : Point → Point) :
    Keeps (R.zone .twilight) (ZoneM.modifyScaled p f) Anything := by
  intro z hz
  rw [ZoneM.modifyScaled, if_pos (by rw [(regular hz).scaled]; exact hp)]
  exact ⟨trivial, Zone.Regular.modifyScaled hz p f⟩

theorem modifyTwilight (hp : p < R.size .twilight) (f : Point → Point) :
    Keeps (R.zone .twilight) (ZoneM.modifyPoint p f) Anything := by
  intro z hz
  rw [ZoneM.modifyPoint, if_pos (by rw [(regular hz).points]; exact hp)]
  exact ⟨trivial, Zone.Regular.modifyPoints hz p f⟩

theorem moveScaled (hp : p < R.size .twilight) (g : Graphics) (distance : Int32) :
    Keeps (R.zone .twilight) (ZoneM.moveScaled g p distance) Anything :=
  (scaled p).bind fun _ _ => .whenever (fun _ => modifyScaled hp _) fun _ =>
    .ite (fun _ => modifyScaled hp _) fun _ => .pure trivial

theorem resetPoint (hp : p < R.size .twilight) :
    Keeps (R.zone .twilight) (ZoneM.resetPoint p) Anything :=
  (scaledAt hp).bind fun _ _ => modifyTwilight hp _

theorem place (hp : p < R.size .twilight) (q : Point) :
    Keeps (R.zone .twilight) (ZoneM.place p q) Anything :=
  (modifyScaled hp _).bind fun _ _ => modifyTwilight hp _

/-! ### Interpolation -/

section Interpolation

variable {a : Axis} {first last : Nat}

theorem currentCoord (hp : p < R.size zp) : Keeps (R.zone zp) (ZoneM.currentCoord a p) Anything :=
  (pointAt hp).bind fun _ _ => .pure trivial

theorem scaledCoord (hp : p < R.size zp) : Keeps (R.zone zp) (ZoneM.scaledCoord a p) Anything :=
  (scaledAt hp).bind fun _ _ => .pure trivial

theorem unitCoord (hp : p < R.size zp) : Keeps (R.zone zp) (ZoneM.unitCoord a p) Anything := by
  refine Keeps.get.bind fun z _ => ?_
  cases z.unscaled[p]? with
  | some q => exact .pure trivial
  | none => exact scaledCoord hp

theorem setCoord (hE : R.Edits (.iup a)) (hg : R.graphics g) (hf : ¬g.isFrozen)
    (hp : p < R.size zp) (v : Int32) : Keeps (R.zone zp) (ZoneM.setCoord a p v) Anything :=
  modifyPoint hp hE hg fun _ _ => .interpolate a p v rfl hf

theorem forPoints {f : Nat → ZoneM Unit}
    (hf : ∀ k, first ≤ k → k ≤ last → Keeps (R.zone zp) (f k) Anything) :
    Keeps (R.zone zp) (ZoneM.forPoints first last f) Anything := by
  refine .forM fun k hk => ?_
  rw [List.mem_range'_1] at hk
  exact hf k hk.1 (by omega)

theorem followPoint (hE : R.Edits (.iup a)) (hg : R.graphics g) (hf : ¬g.isFrozen)
    (hlast : last < R.size zp) (hp : p < R.size zp) :
    Keeps (R.zone zp) (ZoneM.followPoint a first last p) Anything := by
  refine (currentCoord hp).bind fun cur _ => (scaledCoord hp).bind fun old _ =>
    .ite (fun _ => forPoints fun k _ hk => ?_) fun _ => .pure trivial
  have hk : k < R.size zp := by omega
  exact .ite (fun _ => (currentCoord hk).bind fun _ _ => setCoord hE hg hf hk _)
    fun _ => .pure trivial

theorem span {q : Nat} (hp : p < R.size zp) (hq : q < R.size zp) :
    Keeps (R.zone zp) (ZoneM.span a p q) Anything :=
  (unitCoord hp).bind fun _ _ => (scaledCoord hp).bind fun _ _ => (currentCoord hp).bind fun _ _ =>
    (unitCoord hq).bind fun _ _ => (scaledCoord hq).bind fun _ _ => (currentCoord hq).bind fun _ _ =>
    .pure trivial

theorem interpolate {q : Nat} (hE : R.Edits (.iup a)) (hg : R.graphics g) (hf : ¬g.isFrozen)
    (hlast : last < R.size zp) (hp : p < R.size zp) (hq : q < R.size zp) :
    Keeps (R.zone zp) (ZoneM.interpolate a first last p q) Anything := by
  refine .ite (fun _ => (span hp hq).bind fun s _ => forPoints fun k _ hk => ?_) fun _ => .pure trivial
  have hk : k < R.size zp := by omega
  exact (scaledCoord hk).bind fun _ _ => (unitCoord hk).bind fun _ _ => setCoord hE hg hf hk _

theorem touchedBetween (hlast : last < R.size zp) : Keeps (R.zone zp)
    (ZoneM.touchedBetween a first last) fun l => ∀ k ∈ l, k < R.size zp := by
  refine .filterM fun k hk => ?_
  rw [List.mem_range'_1] at hk
  have hk : k < R.size zp := by omega
  exact ⟨hk, (flagsAt hk).bind fun _ _ => .pure trivial⟩

theorem interpolateChain (hE : R.Edits (.iup a)) (hg : R.graphics g) (hf : ¬g.isFrozen) :
    ∀ {p : Nat} {l : List Nat}, p < R.size zp → (∀ q ∈ l, q < R.size zp) →
      Keeps (R.zone zp) (ZoneM.interpolateChain a p l) fun q => q < R.size zp
  | _, [], hp, _ => .pure hp
  | _, q :: l, hp, hl => by
    have hq := hl q (by simp)
    exact (interpolate hE hg hf (by omega) hp hq).bind fun _ _ =>
      interpolateChain hE hg hf hq fun k hk => hl k (by simp [hk])

theorem interpolateContour (hE : R.Edits (.iup a)) (hg : R.graphics g) (hf : ¬g.isFrozen)
    (hlast : last < R.size zp) :
    Keeps (R.zone zp) (ZoneM.interpolateContour a first last) Anything := by
  refine (touchedBetween hlast).bind fun l hl => ?_
  match l, hl with
  | [], _ => exact .pure trivial
  | [p], hl => exact followPoint hE hg hf hlast (hl p (by simp))
  | p :: q :: l, hl =>
    have hp := hl p (by simp)
    refine (interpolateChain hE hg hf hp fun k hk => hl k (by simp [hk])).bind fun k hk =>
      (interpolate hE hg hf hlast hk hp).bind fun _ _ =>
        .ite (fun _ => interpolate hE hg hf (by omega) hk hp) fun _ => .pure trivial

theorem interpolateUntouched (hE : R.Edits (.iup a)) (hg : R.graphics g) (hf : ¬g.isFrozen) :
    Keeps (R.zone zp) (ZoneM.interpolateUntouched a) Anything :=
  Keeps.get.bind fun _ _ => .forM fun c _ => (contour c).bind fun _ hr =>
    interpolateContour hE hg hf hr.2

end Interpolation

end Regime

end GridFit
