import GridFit.Proofs.InstructControl

/-!
# Backward compatibility

With backward compatibility no instruction but `ISECT` and `IUP[x]` changes the horizontal position
of a glyph point, so a glyph program without them leaves all of them alone (`Session.x_kept`). Once
the untouched points have been interpolated along both axes the outline is frozen: points keep their
classification, and as long as no `ISECT` is executed also their positions
(`Session.frozen_kept`). `ISECT` does not ask whether the outline is frozen
(`Session.intersection_moves`).
-/

namespace GridFit

/-! ### What instructions do to glyph points -/

theorem map_modify_of_eq {α β : Type} (f : α → β) (k : α → α) (h : ∀ a, f (k a) = f a)
    (p : Nat) (l : Array α) : (l.modify p k).map f = l.map f := by
  apply Array.ext
  · simp
  · intro j h₁ h₂
    rw [Array.getElem_map, Array.getElem_map, Array.getElem_modify]
    split
    · exact h _
    · rfl

/-- The bits that say on which kind of curve a point lies. -/
def PointFlags.classification (f : PointFlags) : UInt8 := f.bits &&& PointFlags.curveMask.bits

theorem PointFlags.hinting_and_curve {f : PointFlags} (h : f.diff .hintingMask = {}) :
    f.bits &&& curveMask.bits = 0 := by
  have hf : f.bits &&& ~~~hintingMask.bits = 0 := congrArg bits h
  have hm : ~~~hintingMask.bits &&& curveMask.bits = curveMask.bits := by decide
  rw [← hm, ← UInt8.and_assoc, hf, UInt8.zero_and]

theorem PointFlags.classification_union {f : PointFlags} (h : f.diff .hintingMask = {})
    (f' : PointFlags) : (f'.union f).classification = f'.classification :=
  Bits.set_and (hinting_and_curve h) f'.bits

theorem PointFlags.classification_diff {f : PointFlags} (h : f.diff .hintingMask = {})
    (f' : PointFlags) : (f'.diff f).classification = f'.classification :=
  Bits.clear_and (hinting_and_curve h) f'.bits

namespace Zone

/-- The horizontal positions of the points. -/
def xs (z : Zone) : Array Int32 := z.points.map (·.x)

def classifications (z : Zone) : Array UInt8 := z.flags.map (·.classification)

theorem xs_modify (z : Zone) (p : Nat) (k : Point → Point) (h : ∀ q, (k q).x = q.x) :
    { z with points := z.points.modify p k }.xs = z.xs :=
  map_modify_of_eq Point.x k h p z.points

theorem classifications_modify (z : Zone) (p : Nat) (k : PointFlags → PointFlags)
    (h : ∀ f, (k f).classification = f.classification) :
    { z with flags := z.flags.modify p k }.classifications = z.classifications :=
  map_modify_of_eq PointFlags.classification k h p z.flags

end Zone

namespace Graphics

/-- Whether the untouched points have been interpolated along an axis. -/
def interpolated (g : Graphics) : Axis → Bool
  | .x => g.iupX
  | .y => g.iupY

theorem isFrozen_iff (g : Graphics) : g.isFrozen ↔ g.backwardCompatible ∧ ∀ a, g.interpolated a := by
  rw [isFrozen, Bool.and_eq_true, Bool.and_eq_true]
  constructor
  · rintro ⟨⟨hb, hx⟩, hy⟩
    exact ⟨hb, fun a => match a with | .x => hx | .y => hy⟩
  · rintro ⟨hb, h⟩
    exact ⟨⟨hb, h .x⟩, h .y⟩

theorem interpolated_withInterpolated (g : Graphics) (a : Axis) :
    (g.withInterpolated a).interpolated a := by
  cases a <;> rfl

/-- An interpolation that has been noted stays so. -/
theorem Update.interpolated_eq {p : Program} {g g' : Graphics} {a : Axis} (hu : g.Update p g')
    (hp : p ≠ .controlValue) (h : g.interpolated a) : g'.interpolated a := by
  rcases hu.switches_cases with hs | ⟨_, _, _, hc, -⟩ | ⟨a', rfl⟩
  · cases a with
    | x => exact (congrArg Switches.iupX hs).trans h
    | y => exact (congrArg Switches.iupY hs).trans h
  · exact absurd hc hp
  · cases a <;> cases a' <;> first | exact h | rfl

end Graphics

namespace Zone.Edit

variable {i : Instruction} {g : Graphics} {z z' : Zone}

/-- With backward compatibility only an intersection and an interpolation move points
horizontally. -/
theorem xs_eq (h : z.Edit i g z') (hb : g.backwardCompatible) (hi : i ≠ .isect)
    (hx : i ≠ .iup .x) : z'.xs = z.xs := by
  cases h with
  | moveX p d hn => exact absurd hb hn
  | moveY p d hn => exact xs_modify z p _ fun _ => rfl
  | mark p hf => rfl
  | unmark p hf => rfl
  | flip p f hi hn hz => rfl
  | intersect p q hq => exact absurd hq hi
  | interpolate a p v ha hn =>
    cases a with
    | x => exact absurd ha hx
    | y => exact xs_modify z p _ fun _ => rfl

/-- In a frozen outline only an intersection moves points. -/
theorem points_eq (h : z.Edit i g z') (hf : g.isFrozen) (hi : i ≠ .isect) : z'.points = z.points := by
  cases h with
  | moveX p d hn => exact absurd ((g.isFrozen_iff.1 hf).1) hn
  | moveY p d hn => exact absurd hf hn
  | mark p hf => rfl
  | unmark p hf => rfl
  | flip p f hi hn hz => rfl
  | intersect p q hq => exact absurd hq hi
  | interpolate a p v ha hn => exact absurd hf hn

/-- In a frozen outline no point is put on or off the curve. -/
theorem classifications_eq (h : z.Edit i g z') (hf : g.isFrozen) :
    z'.classifications = z.classifications := by
  cases h with
  | mark p hm => exact classifications_modify z p _ (PointFlags.classification_union hm)
  | unmark p hm => exact classifications_modify z p _ (PointFlags.classification_diff hm)
  | flip p f hi hn hz => exact absurd hf hn
  | _ => rfl

end Zone.Edit

/-! ### Runs with backward compatibility -/

namespace Machine

/-- A run of the glyph program with backward compatibility, after an interpolation along each axis
with `noted`. -/
def compatibleRegime (n : ZonePointer → Nat) (noted : Axis → Prop) (glyph : Zone → Prop) : Regime where
  initial := .glyph
  size := n
  graphics g := g.backwardCompatible ∧ ∀ a, noted a → g.interpolated a
  glyph := glyph

section

variable {n : ZonePointer → Nat} {noted : Axis → Prop} {glyph : Zone → Prop}
  {m₀ m m' : Machine} {done : List Instruction}

theorem updates_compatibleRegime : (compatibleRegime n noted glyph).Updates := by
  rintro g g' ⟨hb, hn⟩ hu
  obtain ⟨-, hb'⟩ := hu.control_eq (p := .glyph) nofun
  exact ⟨hb'.trans hb, fun a ha => hu.interpolated_eq (p := .glyph) nofun (hn a ha)⟩

/-- An interpolation with backward compatibility is noted. -/
theorem interpolated_of_execute {a : Axis} (hb : m.graphics.backwardCompatible)
    (hx : Exec.execute (.iup a) m = .ok () m') : m'.graphics.interpolated a := by
  rw [Exec.execute, Exec.interpolateUntouched, bind_of_ok (x := Exec.graphics) rfl] at hx
  by_cases hf : m.graphics.isFrozen
  · rw [hf] at hx
    cases hx
    exact (m.graphics.isFrozen_iff.1 hf).2 a
  · rw [if_pos (by simpa using hf), if_pos hb, bind_of_ok (x := Exec.modifyGraphics _) rfl] at hx
    dsimp only [Exec.onZone] at hx
    split at hx
    · cases hx
      exact m.graphics.interpolated_withInterpolated a
    · cases hx

theorem edits_compatibleRegime (i : Instruction) : (compatibleRegime n noted Anything).Edits i :=
  fun _ _ _ _ _ _ => trivial

theorem Executes.compatible (hm : m₀.Executes done m)
    (h₀ : (compatibleRegime n noted Anything).Holds m₀) :
    (compatibleRegime n noted Anything).Holds m :=
  Regime.executes (P := Anything) updates_compatibleRegime (fun i _ => edits_compatibleRegime i) h₀ hm
    fun _ _ => trivial

theorem Executes.interpolated {a : Axis} (hm : m₀.Executes done m)
    (h₀ : (compatibleRegime n (fun _ => False) Anything).Holds m₀) (ha : .iup a ∈ done) :
    m.graphics.interpolated a := by
  induction hm with
  | start => cases ha
  | @step m m₁ m₂ b done hp hf hn hx ih =>
    have h := hp.compatible h₀
    rcases List.mem_cons.1 ha with hb | hd
    · rw [← hb] at hx
      exact interpolated_of_execute (Regime.control.next.ok h hn).2.graphics.1 hx
    -- The interpolation has been noted before this step, and the note survives it.
    · have ha : (compatibleRegime n (· = a) Anything).Holds m :=
        ⟨h.initial, ⟨h.graphics.1, fun _ e => e ▸ ih hd⟩, h.twilight, h.glyph⟩
      exact (Regime.step updates_compatibleRegime (edits_compatibleRegime _) ha hn hx).graphics.2 a rfl

/-- After interpolations along both axes the outline is frozen. -/
theorem Executes.frozen (hm : m₀.Executes done m)
    (h₀ : (compatibleRegime n (fun _ => False) Anything).Holds m₀)
    (ha : ∀ a, .iup a ∈ done) : (compatibleRegime n (fun _ => True) Anything).Holds m := by
  have h := hm.compatible h₀
  exact ⟨h.initial, ⟨h.graphics.1, fun a _ => hm.interpolated h₀ (ha a)⟩, h.twilight, h.glyph⟩

/-- What a run shows that starts with a frozen outline. -/
theorem Shows.frozen (h₀ : (compatibleRegime n (fun _ => True) Anything).Holds m)
    {later : List Instruction} (hm : m.Shows later m') :
    m'.graphics.isFrozen ∧ m'.glyph.classifications = m.glyph.classifications ∧
      (.isect ∉ later → m'.glyph.points = m.glyph.points) := by
  have frozen : ∀ {g : Graphics}, (g.backwardCompatible ∧ ∀ a, True → g.interpolated a) →
      g.isFrozen := fun {g} hg => g.isFrozen_iff.2 ⟨hg.1, fun a => hg.2 a trivial⟩
  have holds : ∀ glyph : Zone → Prop, glyph m.glyph →
      (compatibleRegime n (fun _ => True) glyph).Holds m := fun _ hz =>
    ⟨h₀.initial, h₀.graphics, h₀.twilight, h₀.glyph.1, hz⟩
  -- Classifications stay whatever comes later, positions only as long as no intersection does.
  have hc := Regime.shows (P := Anything) updates_compatibleRegime
    (fun _ _ _ _ _ hg hz he => (he.classifications_eq (frozen hg)).trans hz)
    (holds (fun z => z.classifications = m.glyph.classifications) rfl) hm fun _ _ => trivial
  refine ⟨frozen hc.graphics, hc.glyph.2, fun hi => ?_⟩
  have hp := Regime.shows (P := (· ≠ .isect)) updates_compatibleRegime
    (fun _ hi _ _ _ hg hz he => (he.points_eq (frozen hg) hi).trans hz)
    (holds (fun z => z.points = m.glyph.points) rfl) hm fun i hd h => hi (h ▸ hd)
  exact hp.glyph.2

end

end Machine

/-! ### Hinting with backward compatibility -/

theorem Session.configured {history : List Request} {s : Snapshot}
    (hs : (after history).current.snapshot = some s) : ∃ c : Configuration, c.outcome = .ok s := by
  have hcur := current_foldl history {}
  rw [after] at hs
  cases hl : lastSuccessful history with
  | none =>
    rw [hcur, hl] at hs
    cases hs
  | some c =>
    obtain ⟨t, ht⟩ := lastSuccessful_isOk hl
    rw [hcur, hl] at hs
    dsimp only at hs
    rw [Configuration.apply_of_ok ht] at hs
    cases hs
    exact ⟨c, ht⟩

namespace Snapshot

variable {s : Snapshot} {o : Outline} {sc : Scratch}

/-- A glyph is refused as it is, or comes out with the points of a state that its run shows. -/
theorem shows_hint (s : Snapshot) (o : Outline) (sc? : Option Scratch) :
    (s.hint o sc?).outline = o ∨
    ∃ sc hf done m, sc? = some sc ∧ ((s.machine o sc hf).restart .glyph).Shows done m ∧
      (s.hint o sc?).outline.points = m.glyph.points := by
  unfold hint
  dsimp only
  split
  · rename_i ho
    cases sc? with
    | none => exact .inl rfl
    | some sc =>
      dsimp only
      split
      · rename_i hf
        obtain ⟨m, ⟨done, hm⟩, hp, -⟩ := outline_run (Outline.count_le_scaled ho) hf
          ⟨[], .between .start⟩ (Machine.shows_run .glyph (s.machine o sc hf))
        exact .inr ⟨sc, hf, done, m, rfl, hm, hp⟩
      · exact .inl rfl
  · exact .inl rfl

theorem holds_compatible (hs : ∃ c : Configuration, c.outcome = .ok s)
    (hb : s.retained.isBackwardCompatible) (ho : o.isConsistent) (hf : sc.Fits s.sizes)
    (glyph : Zone → Prop) (hz : glyph o.zone) :
    ∃ n, (Machine.compatibleRegime n (fun _ => False) glyph).Holds
      ((s.machine o sc hf).restart .glyph) := by
  obtain ⟨c, hc⟩ := hs
  have h := Configuration.holds_regime hc ho glyph hz hf
  exact ⟨_, h.initial, ⟨h.graphics.2.trans hb, fun _ hn => nomatch hn⟩, h.twilight, h.glyph⟩

end Snapshot

namespace Session

variable {history : List Request} {s : Snapshot} {o : Outline} {sc : Scratch}

/-- While an instance is backward compatible, no run of a glyph program changes the horizontal
position of a glyph point before it executes `ISECT` or `IUP[x]`. A glyph that is not refused comes
out with the points of a state of its run. -/
theorem x_kept (hs : (after history).current.snapshot = some s)
    (hb : (after history).current.isBackwardCompatible) (o : Outline) :
    (∀ sc hf, o.isConsistent → ∀ done m, ((s.machine o sc hf).restart .glyph).Shows done m →
      .isect ∉ done → .iup .x ∉ done → m.glyph.xs = o.points.map (·.x)) ∧
    ∀ sc?, ((after history).current.hint o sc?).outline = o ∨
      ∃ sc hf done m, sc? = some sc ∧ ((s.machine o sc hf).restart .glyph).Shows done m ∧
        ((after history).current.hint o sc?).outline.points = m.glyph.points := by
  have hcur : (after history).current = ⟨some s⟩ := by
    rw [← hs]
  have hc := configured hs
  rw [hcur] at hb ⊢
  refine ⟨fun sc hf ho done m hm hi hx => ?_, fun sc? => Snapshot.shows_hint s o sc?⟩
  obtain ⟨n, h₀⟩ := Snapshot.holds_compatible hc hb ho hf
    (fun z => z.xs = o.points.map (·.x)) rfl
  have h := Regime.shows (P := fun i => i ≠ .isect ∧ i ≠ .iup .x) Machine.updates_compatibleRegime
    (fun _ hP _ _ _ hg hz he => (he.xs_eq hg.1 hP.1 hP.2).trans hz) h₀ hm
    fun i hd => ⟨fun h => hi (h ▸ hd), fun h => hx (h ▸ hd)⟩
  exact h.glyph.2

/-- A font without programs, for an anti-aliased display. -/
def smoothFont : Configuration := { withProgram #[] with mode := { target := .smooth } }

/-- The ends of two lines that cross, and a point beside. -/
def crossing (program : Bytes) : Outline where
  scaled := #[⟨0, 0⟩, ⟨128, 128⟩, ⟨0, 128⟩, ⟨128, 0⟩, ⟨10, 20⟩] ++ .replicate 4 {}
  points := #[⟨0, 0⟩, ⟨128, 128⟩, ⟨0, 128⟩, ⟨128, 0⟩, ⟨10, 20⟩] ++ .replicate 4 {}
  flags := .replicate 9 .onCurve
  contours := #[4]
  bytecode := program

/-- The machine on which the programs of `crossing` start. -/
def crossingMachine (s : Snapshot) (program : Bytes) : Machine :=
  (s.machine (crossing program) (.ofSizes s.sizes) (Scratch.fits_ofSizes _)).restart .glyph

/-- A run of two parts, the first of `n` and the second of `k` instructions. -/
theorem exists_crossing (program : Bytes) (n k : Nat)
    (P : List Instruction → Machine → List Instruction → Machine → Bool)
    (h : ((after [.configure smoothFont]).current.snapshot.any fun s =>
      s.retained.isBackwardCompatible &&
        (Machine.trace n [] (crossingMachine s program)).any fun r =>
          (Machine.trace k [] r.2).any fun r' => P r.1 r.2 r'.1 r'.2) = true) :
    ∃ s done m later m', (after [.configure smoothFont]).current.snapshot = some s ∧
      (after [.configure smoothFont]).current.isBackwardCompatible ∧
      (crossingMachine s program).Executes done m ∧ m.Executes later m' ∧ P done m later m' := by
  obtain ⟨s, hs, h⟩ := (Option.any_eq_true _ _).1 h
  obtain ⟨hb, h⟩ := Bool.and_eq_true_iff.1 h
  obtain ⟨⟨done, m⟩, ht, h⟩ := (Option.any_eq_true _ _).1 h
  obtain ⟨⟨later, m'⟩, ht', hP⟩ := (Option.any_eq_true _ _).1 h
  refine ⟨s, done, m, later, m', hs, ?_, Machine.executes_trace .start ht,
    Machine.executes_trace .start ht', hP⟩
  rw [Instance.isBackwardCompatible, hs]
  exact hb

/-- The glyph program rounds the horizontal position of a point and shifts it. -/
theorem x_kept_crossing :
    ∃ s done m, (after [.configure smoothFont]).current.snapshot = some s ∧
      (after [.configure smoothFont]).current.isBackwardCompatible ∧
      (crossingMachine s #[0xb0, 4, 0x2f, 0xb1, 4, 64, 0x38]).Shows done m ∧
      Instruction.shpix ∈ done ∧ m.glyph.xs = #[0, 128, 0, 128, 10, 0, 0, 0, 0] := by
  obtain ⟨s, done, m, -, -, hs, hb, hm, -, hd⟩ := exists_crossing
    #[0xb0, 4, 0x2f, 0xb1, 4, 64, 0x38] 4 0
    (fun done _ _ _ => decide (Instruction.shpix ∈ done ∧ .isect ∉ done ∧ .iup .x ∉ done))
    (by decide +kernel)
  obtain ⟨hd, hi, hx⟩ := of_decide_eq_true hd
  refine ⟨s, done, m, hs, hb, .between hm, hd, ?_⟩
  rw [(x_kept hs hb _).1 _ _ (by decide) done m (.between hm) hi hx]
  decide +kernel

/-- Once the untouched points have been interpolated along both axes, points keep their
classification, and their positions unless an `ISECT` is executed. -/
theorem frozen_kept (hs : (after history).current.snapshot = some s)
    (hb : (after history).current.isBackwardCompatible) (ho : o.isConsistent)
    (hf : sc.Fits s.sizes) {done : List Instruction} {m : Machine}
    (hm : ((s.machine o sc hf).restart .glyph).Executes done m) (ha : ∀ a, .iup a ∈ done) :
    m.graphics.isFrozen ∧ ∀ later m', m.Shows later m' →
      m'.graphics.isFrozen ∧ m'.glyph.classifications = m.glyph.classifications ∧
        (.isect ∉ later → m'.glyph.points = m.glyph.points) := by
  have hcur : (after history).current = ⟨some s⟩ := by
    rw [← hs]
  rw [hcur] at hb
  obtain ⟨n, h₀⟩ := Snapshot.holds_compatible (configured hs) hb ho hf Anything trivial
  have h := hm.frozen h₀ ha
  exact ⟨(Machine.Shows.frozen h (.between .start)).1, fun later m' hm' => hm'.frozen h⟩

/-- After both interpolations the glyph program rounds the vertical position of a point. -/
theorem frozen_kept_crossing :
    ∃ s done m later m', (after [.configure smoothFont]).current.snapshot = some s ∧
      (after [.configure smoothFont]).current.isBackwardCompatible ∧
      (crossingMachine s #[0x30, 0x31, 0x00, 0xb0, 4, 0x2f]).Executes done m ∧
      (∀ a, .iup a ∈ done) ∧ m.Shows later m' ∧ Instruction.mdap true ∈ later ∧
      m'.glyph.classifications = m.glyph.classifications ∧ m'.glyph.points = m.glyph.points := by
  obtain ⟨s, done, m, later, m', hs, hb, hm, hm', hd⟩ := exists_crossing
    #[0x30, 0x31, 0x00, 0xb0, 4, 0x2f] 2 3
    (fun done _ later _ => decide (Instruction.iup .x ∈ done ∧ .iup .y ∈ done ∧
      Instruction.mdap true ∈ later ∧ .isect ∉ later)) (by decide +kernel)
  obtain ⟨hx, hy, hl, hi⟩ := of_decide_eq_true hd
  have ha : ∀ a, .iup a ∈ done := fun a => match a with | .x => hx | .y => hy
  obtain ⟨-, hc, hp⟩ := (frozen_kept hs hb (by decide) _ hm ha).2 later m' (.between hm')
  exact ⟨s, done, m, later, m', hs, hb, hm, ha, .between hm', hl, hc, hp hi⟩

/-- An intersection moves a point of a frozen outline. -/
theorem intersection_moves :
    ∃ s done m later m', (after [.configure smoothFont]).current.snapshot = some s ∧
      (after [.configure smoothFont]).current.isBackwardCompatible ∧
      (crossingMachine s #[0x30, 0x31, 0xb4, 4, 0, 1, 2, 3, 0x0f]).Executes done m ∧
      (∀ a, .iup a ∈ done) ∧ m.graphics.isFrozen ∧ m.Executes later m' ∧
      m.glyph.points[4]? = some ⟨10, 20⟩ ∧ m'.glyph.points[4]? = some ⟨64, 64⟩ := by
  obtain ⟨s, done, m, later, m', hs, hb, hm, hm', hd⟩ := exists_crossing
    #[0x30, 0x31, 0xb4, 4, 0, 1, 2, 3, 0x0f] 2 2
    (fun done m _ m' => decide (Instruction.iup .x ∈ done ∧ .iup .y ∈ done ∧ m.graphics.isFrozen ∧
      m.glyph.points[4]? = some (Point.mk 10 20) ∧ m'.glyph.points[4]? = some (Point.mk 64 64)))
    (by decide +kernel)
  obtain ⟨hx, hy, hf, hp, hp'⟩ := of_decide_eq_true hd
  exact ⟨s, done, m, later, m', hs, hb, hm, fun a => match a with | .x => hx | .y => hy, hf, hm', hp,
    hp'⟩

end Session

end GridFit
