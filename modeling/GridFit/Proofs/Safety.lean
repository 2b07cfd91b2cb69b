import GridFit.Proofs.Regime.Execute

/-!
# Hinting stays in bounds

No program makes the machine access a point that does not exist, divide by zero or shift by a
negative amount (`Instance.stays_in_bounds`). Where the machine relies on an earlier check it causes
a breach if the check was missing, so the first part says that no run ends in a breach. The other
parts are about the graphics state, which holds the divisors and the shift that programs choose: it
is sound in every state that occurs (`Graphics.Sound`).
-/

namespace GridFit

/-- A fault that has a number of its own. -/
def Fault.IsDeclared (f : Fault) : Prop := 1 ≤ f.code ∧ f.code ≤ 23

theorem Fault.isDeclared {f : Fault} (h : f ≠ .breach) : f.IsDeclared := by
  cases f <;> first | exact absurd rfl h | exact ⟨by decide, by decide⟩

/-! ### The graphics state -/

/-- Distances are rounded with a period, and delta instructions move by steps between a 64th of a
pixel and a pixel. -/
structure Retained.Sound (r : Retained) : Prop where
  period : 0 < r.round.period
  deltaShift : 0 ≤ r.deltaShift ∧ r.deltaShift ≤ 6

theorem Retained.sound_initial (scale ppem : Int32) (mode : Mode) :
    (Retained.initial scale ppem mode).Sound :=
  ⟨show (0 : Int32) < 64 by decide, show (0 : Int32) ≤ 3 ∧ (3 : Int32) ≤ 6 by decide⟩

/-- The dot product of the vectors is up to date, and what is retained is sound. -/
structure Graphics.Sound (g : Graphics) : Prop where
  fdotp : g.fdotp = projectionFactor g.fv g.pv
  retained : g.toRetained.Sound

namespace Graphics

theorem projectionFactor_ne_zero (fv pv : Vec) : projectionFactor fv pv ≠ 0 := by
  unfold projectionFactor
  dsimp only
  split
  · decide
  · intro h
    rename_i hd
    exact hd (by rw [h]; decide)

theorem Sound.fdotp_ne_zero {g : Graphics} (h : g.Sound) : g.fdotp ≠ 0 := by
  rw [h.fdotp]
  exact projectionFactor_ne_zero _ _

theorem shift_nonneg {n : Int32} (h : 0 ≤ n ∧ n ≤ 6) : 0 ≤ 6 - n := by
  obtain ⟨h0, h6⟩ := h
  rw [Int32.le_iff_toInt_le] at h0 h6 ⊢
  have h6' : n.toInt ≤ 6 := h6
  have h0' : 0 ≤ n.toInt := h0
  rw [Int32.toInt_sub]
  show 0 ≤ ((6 : Int) - n.toInt).bmod (2 ^ 32)
  rw [Int.bmod_eq_of_le (by omega) (by omega)]
  omega

/-- The divisors that a graphics state holds are not zero, and the amount by which delta
instructions shift is not negative. -/
def InRange (g : Graphics) : Prop :=
  g.fdotp ≠ 0 ∧ g.round.period ≠ 0 ∧ 0 ≤ 6 - g.deltaShift

theorem Sound.inRange {g : Graphics} (h : g.Sound) : g.InRange :=
  ⟨h.fdotp_ne_zero, (Int32.ne_of_lt h.retained.period).symm, shift_nonneg h.retained.deltaShift⟩

theorem selectPeriod_cases (gridPeriod selector : Int32) :
    RoundState.selectPeriod gridPeriod selector = gridPeriod / 2 ∨
      RoundState.selectPeriod gridPeriod selector = gridPeriod * 2 ∨
      RoundState.selectPeriod gridPeriod selector = gridPeriod := by
  unfold RoundState.selectPeriod
  split
  · exact .inl rfl
  · exact .inr (.inl rfl)
  · exact .inr (.inr rfl)

theorem period_super (selector : Int32) :
    0 < (RoundState.ofSelector RoundState.squareGrid selector .super).period := by
  simp only [RoundState.ofSelector]
  rcases selectPeriod_cases RoundState.squareGrid selector with h | h | h <;> rw [h] <;> decide

theorem period_super45 (selector : Int32) :
    0 < (RoundState.ofSelector RoundState.diagonalGrid selector .super45).period := by
  simp only [RoundState.ofSelector]
  rcases selectPeriod_cases RoundState.diagonalGrid selector with h | h | h <;> rw [h] <;> decide

theorem Sound.start {r : Retained} (h : r.Sound) (composite : Bool) :
    (Graphics.start r composite).Sound :=
  ⟨show 0x4000 = projectionFactor .xAxis .xAxis by decide, h⟩

theorem Sound.setControl {g : Graphics} (h : g.Sound) (bit : UInt8) (on : Bool) :
    (Exec.setControl g bit on).Sound := by
  unfold Exec.setControl
  dsimp only
  split <;> exact ⟨h.fdotp, h.retained.period, h.retained.deltaShift⟩

theorem Sound.update {initial : Program} {g g' : Graphics} (h : g.Sound)
    (hu : g.Update initial g') : g'.Sound := by
  cases hu with
  | vectors pv fv dv => exact ⟨by simp only [updateProjection], h.retained⟩
  | reference k hp => match k with | 0 | 1 | 2 => exact ⟨h.fdotp, h.retained⟩
  | absoluteReferences hp => exact ⟨h.fdotp, h.retained⟩
  | relativeReferences sets hp => exact ⟨h.fdotp, h.retained⟩
  | zone k z => match k with | 0 | 1 | 2 => exact ⟨h.fdotp, h.retained⟩
  | zones z => exact ⟨h.fdotp, h.retained⟩
  | loop h0 h1 => exact ⟨h.fdotp, h.retained⟩
  | countDown h0 => exact ⟨h.fdotp, h.retained⟩
  | roundMode hm => exact ⟨h.fdotp, h.retained.period, h.retained.deltaShift⟩
  | super selector => exact ⟨h.fdotp, period_super selector, h.retained.deltaShift⟩
  | super45 selector => exact ⟨h.fdotp, period_super45 selector, h.retained.deltaShift⟩
  | scalars => exact ⟨h.fdotp, h.retained.period, h.retained.deltaShift⟩
  | deltaShift h0 h6 => exact ⟨h.fdotp, h.retained.period, h0, h6⟩
  | control selector on hi hb hn => exact h.setControl _ on
  | interpolated a hb => cases a <;> exact ⟨h.fdotp, h.retained⟩

end Graphics

/-! ### Machines -/

namespace Zone

theorem regular_blank (n : Nat) : (blank n).Regular n :=
  ⟨by simp [blank], by simp [blank], by simp [blank]⟩

theorem regular_zone {o : Outline} (h : o.isConsistent) : o.zone.Regular o.points.size := by
  obtain ⟨-, hs, hf, -⟩ := (Outline.isConsistent_iff o).1 h
  exact ⟨hs, rfl, by simp [Outline.zone, clearHintingFlags, hf]⟩

end Zone

/-- Values copied into memory fill the part that is made for them, whatever it held. -/
theorem Scratch.seed_eq {α : Type} (memory : Array α) {values : Array α} {n : Nat}
    (h : values.size = n) : Scratch.seed memory values n = values := by
  have he : (memory.extract 0 n).size ≤ values.size := by
    simp
    omega
  rw [seed, overwrite, Array.extract_empty_of_size_le_start he, Array.append_empty]

namespace Machine

/-- A machine between two runs, whose zones have `n` points. -/
structure Ready (n : ZonePointer → Nat) (m : Machine) : Prop where
  graphics : m.graphics.Sound
  twilight : m.twilight.Regular (n .twilight)
  glyph : m.glyph.Regular (n .glyph)

/-- A sound graphics state, in a run of the program `p` on zones with `n` points. -/
def soundRegime (n : ZonePointer → Nat) (p : Program) : Regime where
  initial := p
  size := n
  graphics := Graphics.Sound
  glyph := Anything

theorem ready_run (n : ZonePointer → Nat) (p : Program) :
    RunInvariant (· ≠ .breach) p (Ready n) (soundRegime n p).Holds where
  steady := Regime.steady (fun _ _ hg hu => hg.update hu) fun _ _ _ _ _ _ _ => trivial
  budget := nofun
  restart _ hm := ⟨rfl, .start hm.graphics.retained _, hm.twilight, hm.glyph, trivial⟩
  stop _ hm := ⟨hm.graphics, hm.twilight, hm.glyph.1⟩

theorem ready_invariant (n : ZonePointer → Nat) :
    Invariant (· ≠ .breach) (Ready n) fun p => (soundRegime n p).Holds where
  font := ready_run n .font
  controlValue := ready_run n .controlValue
  refresh _ hm := ⟨⟨hm.graphics.fdotp, Retained.sound_initial _ _ _⟩, hm.twilight, hm.glyph⟩

/-- The number of points of the zones while a font is configured. -/
def configurationSize (src : Source) : ZonePointer → Nat
  | .twilight => src.maxima.twilight + twilightExtra
  | .glyph => 0

theorem ready_machine (src : Source) (scale ppem : Int32) (mode : Mode) (coords : Array Int16) :
    Ready (configurationSize src) (src.machine scale ppem mode coords) where
  graphics := .start (Retained.sound_initial _ _ _) false
  twilight := Zone.regular_blank _
  glyph := ⟨rfl, rfl, rfl⟩

/-- The number of points of the zones while a glyph is hinted. -/
def glyphSize (src : Source) (o : Outline) : ZonePointer → Nat
  | .twilight => src.maxima.twilight + twilightExtra
  | .glyph => o.points.size

end Machine

theorem Snapshot.sound_glyphState {s : Snapshot} (h : s.retained.Sound) : s.glyphState.Sound := by
  have hi := Retained.sound_initial s.retained.scale s.retained.ppem s.retained.mode
  unfold glyphState
  dsimp only
  split
  · exact ⟨hi.period, hi.deltaShift⟩
  · exact h

namespace Source

variable {src : Source} {scale ppem : Int32} {mode : Mode} {coords : Array Int16} {s : Snapshot}

theorem configure_regular (h : src.configure scale ppem mode coords = .ok s) :
    s.twilight.Regular (src.maxima.twilight + twilightExtra) := by
  obtain ⟨m, hm, rfl⟩ := (Machine.ready_invariant _).configured
    (Machine.ready_machine src scale ppem mode coords) h
  exact hm.twilight

theorem ready_snapshot (h : src.configure scale ppem mode coords = .ok s) {o : Outline}
    (ho : o.isConsistent) (sc : Scratch) (hf : sc.Fits s.sizes) :
    Machine.Ready (Machine.glyphSize src o) (s.machine o sc hf) := by
  have ht := configure_regular h
  obtain ⟨m, hm, rfl⟩ := (Machine.ready_invariant _).configured
    (Machine.ready_machine src scale ppem mode coords) h
  refine ⟨?_, ⟨?_, ?_, ?_⟩, Zone.regular_zone ho⟩
  · exact .start (Snapshot.sound_glyphState hm.graphics.retained) _
  · exact (congrArg Array.size (Scratch.seed_eq _ (ht.scaled.trans ht.points.symm))).trans ht.scaled
  · exact (congrArg Array.size (Scratch.seed_eq _ rfl)).trans ht.points
  · exact (congrArg Array.size (Scratch.seed_eq _ (ht.flags.trans ht.points.symm))).trans ht.flags

end Source

/-! ### Hinting -/

namespace Snapshot

variable {s : Snapshot} {o : Outline} {n : ZonePointer → Nat}

/-- A run on a machine with enough points for the phantom points ends well or with a declared
fault. -/
theorem run_declared {sc : Scratch} (hc : Phantom.count ≤ o.scaled.size) (hf : sc.Fits s.sizes)
    (hn : Phantom.count ≤ n .glyph)
    (hm : Machine.Ready n (s.machine { o with phantom := .ofEnd o.scaled hc } sc hf)) {e : HintError}
    (he : (s.run o sc hc hf).error = some e) : ∃ f, e = .failed f ∧ f.fault.IsDeclared := by
  have hr := (Machine.ready_run n .glyph).run hm
  unfold run at he
  dsimp only at he
  split at he
  · cases he
  cases hx : Machine.run .glyph (s.machine { o with phantom := .ofEnd o.scaled hc } sc hf) with
  | error f m =>
    rw [hx] at he
    cases he
    exact ⟨_, rfl, Fault.isDeclared (hr.error hx).1⟩
  | ok u m =>
    rw [hx] at he
    have hp : Phantom.count ≤ (m.outline { o with phantom := .ofEnd o.scaled hc }).points.size := by
      rw [← (hr.ok hx).glyph.points] at hn
      exact hn
    dsimp only at he
    rw [dif_pos hp] at he
    split at he <;> cases he

theorem hint_declared {sc? : Option Scratch} {e : HintError}
    (hm : o.isConsistent → ∀ sc hf, Machine.Ready n (s.machine o sc hf))
    (hn : o.isConsistent → Phantom.count ≤ n .glyph) (he : (s.hint o sc?).error = some e) :
    ∃ f, e = .failed f ∧ f.fault.IsDeclared := by
  unfold hint at he
  dsimp only at he
  split at he
  · rename_i hc
    cases sc? with
    | none =>
      cases he
      exact ⟨_, rfl, Fault.isDeclared nofun⟩
    | some sc =>
      dsimp only at he
      split at he
      · rename_i hf
        exact run_declared (Outline.count_le_scaled hc) hf (hn hc) (hm hc sc hf) he
      · cases he
        exact ⟨_, rfl, Fault.isDeclared nofun⟩
  · cases he
    exact ⟨_, rfl, Fault.isDeclared nofun⟩

end Snapshot

/-- For every font and every glyph: configuring and hinting end well or with a declared fault, and in
every state that occurs the divisors and the shift of the graphics state are in range. -/
theorem Instance.stays_in_bounds (i : Instance) (src : Source) (scale ppem : Int32) (mode : Mode)
    (coords : Array Int16) :
    (∀ f, (i.reconfigure src scale ppem mode coords).1 = some f → f.fault.IsDeclared) ∧
    (∀ p m, src.Configuring scale ppem mode coords p m → m.graphics.InRange) ∧
    ((i.reconfigure src scale ppem mode coords).1 = none →
      (∀ o sc? e, ((i.reconfigure src scale ppem mode coords).2.hint o sc?).error = some e →
        ∃ f, e = .failed f ∧ f.fault.IsDeclared) ∧
      ∀ s ∈ (i.reconfigure src scale ppem mode coords).2.snapshot,
        ∀ o m, o.isConsistent → s.Hinting o m → m.graphics.InRange) := by
  have hm := Machine.ready_machine src scale ppem mode coords
  refine ⟨fun f hf => ?_, fun p m hc => ?_, fun hok => ?_⟩
  · rw [reconfigure] at hf
    cases hs : src.configure scale ppem mode coords with
    | ok s =>
      rw [hs] at hf
      cases hf
    | error f' =>
      rw [hs] at hf
      cases hf
      exact Fault.isDeclared ((Machine.ready_invariant _).allowed_fault hm hs)
  · exact ((Machine.ready_invariant _).configuring hm hc).graphics.inRange
  · cases hs : src.configure scale ppem mode coords with
    | error f =>
      rw [reconfigure, hs] at hok
      cases hok
    | ok s =>
      rw [reconfigure, hs]
      refine ⟨fun o sc? e he => ?_, fun s' hs' o m ho hh => ?_⟩
      · refine Snapshot.hint_declared (n := Machine.glyphSize src o)
          (fun ho sc hf => Source.ready_snapshot hs ho sc hf) (fun ho => ?_) he
        exact ((Outline.isConsistent_iff o).1 ho).1
      · cases hs'
        obtain ⟨sc, hf, hocc⟩ := hh
        have hr := Source.ready_snapshot hs ho sc hf
        exact ((Machine.ready_run _ .glyph).occurs hr hocc).graphics.inRange

end GridFit
