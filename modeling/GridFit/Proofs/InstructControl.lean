import GridFit.Proofs.Independence
import GridFit.Proofs.Trace

/-!
# Instruct control

The instruct control says whether glyphs are hinted, from which state, and whether backward
compatibility is left. Only the control value program changes it: `Graphics.Update.switches_cases`
lists what instructions do to it and to what depends on it. So every glyph program runs with the
instruct control and the backward compatibility of its instance, also inside of functions that the
programs of the font have defined, and the phantom points of a hinted glyph are taken accordingly
(`Configuration.instructControl_kept`).
-/

namespace GridFit

/-! ### Bits -/

namespace Bits

variable {a b c : UInt8}

theorem or_and (a b c : UInt8) : (a ||| b) &&& c = a &&& c ||| b &&& c := by
  apply UInt8.toBitVec_inj.1
  ext i hi
  simp [Bool.and_or_distrib_right]

theorem not_and (h : a &&& b = 0) : ~~~a &&& b = b := by
  apply UInt8.toBitVec_inj.1
  ext i hi
  have hi0 : (a &&& b).toBitVec[i] = (0 : UInt8).toBitVec[i] := by rw [h]
  simp only [UInt8.toBitVec_and, BitVec.getElem_and, UInt8.toBitVec_not, BitVec.getElem_not] at hi0 ⊢
  simp at hi0
  cases ha : a.toBitVec[i] <;> simp_all

/-- Setting bits leaves all others alone. -/
theorem set_and (h : b &&& c = 0) (a : UInt8) : (a ||| b) &&& c = a &&& c := by
  rw [or_and, h, UInt8.or_zero]

/-- Clearing bits leaves all others alone. -/
theorem clear_and (h : b &&& c = 0) (a : UInt8) : (a &&& ~~~b) &&& c = a &&& c := by
  rw [UInt8.and_assoc, not_and h]

end Bits

/-! ### What instructions do to the switches -/

/-- The parts of the graphics state that decide which hints are ignored. -/
structure Switches where
  mode : Mode
  instructControl : UInt8
  backwardCompatible : Bool
  iupX : Bool
  iupY : Bool

namespace Graphics

variable {p : Program} {g g' : Graphics}

def switches (g : Graphics) : Switches :=
  ⟨g.mode, g.instructControl, g.backwardCompatible, g.iupX, g.iupY⟩

/-- An instruction leaves the switches alone, or sets or clears a bit of the instruct control, or
notes an interpolation. -/
theorem Update.switches_cases (hu : g.Update p g') :
    g'.switches = g.switches ∨
    (∃ selector bit on, p = .controlValue ∧ Exec.controlBit? selector = some bit ∧
      ¬(bit = InstructControl.nativeClearType ∧ g.mode.linearMetrics) ∧
      g' = Exec.setControl g bit on) ∨
    ∃ a, g' = g.withInterpolated a := by
  cases hu with
  | reference k hp => match k with | 0 | 1 | 2 => exact .inl rfl
  | zone k z => match k with | 0 | 1 | 2 => exact .inl rfl
  | control selector on hi hb hn => exact .inr (.inl ⟨selector, _, on, hi, hb, hn, rfl⟩)
  | interpolated a hb => exact .inr (.inr ⟨a, rfl⟩)
  | _ => exact .inl rfl

theorem mode_setControl (g : Graphics) (bit : UInt8) (on : Bool) :
    (Exec.setControl g bit on).mode = g.mode := by
  unfold Exec.setControl
  dsimp only
  split <;> rfl

theorem instructControl_setControl (g : Graphics) (bit : UInt8) (on : Bool) :
    (Exec.setControl g bit on).instructControl =
      if on then g.instructControl &&& ~~~bit ||| bit else g.instructControl &&& ~~~bit := by
  unfold Exec.setControl
  dsimp only
  split <;> rfl

theorem Update.mode_eq (hu : g.Update p g') : g'.mode = g.mode := by
  rcases hu.switches_cases with h | ⟨_, bit, on, -, -, -, rfl⟩ | ⟨a, rfl⟩
  · exact congrArg Switches.mode h
  · exact mode_setControl g bit on
  · cases a <;> rfl

/-- Outside of the control value program the instruct control does not change, and neither does
backward compatibility. -/
theorem Update.control_eq (hu : g.Update p g') (hp : p ≠ .controlValue) :
    g'.instructControl = g.instructControl ∧ g'.backwardCompatible = g.backwardCompatible := by
  rcases hu.switches_cases with h | ⟨_, _, _, hc, -, -, -⟩ | ⟨a, rfl⟩
  · exact ⟨congrArg Switches.instructControl h, congrArg Switches.backwardCompatible h⟩
  · exact absurd hc hp
  · cases a <;> exact ⟨rfl, rfl⟩

theorem controlBit?_cases {selector : Int32} {bit : UInt8} (h : Exec.controlBit? selector = some bit) :
    bit = InstructControl.disable ∨ bit = InstructControl.defaultGraphics ∨
      bit = InstructControl.nativeClearType := by
  unfold Exec.controlBit? at h
  split at h
  · exact .inl (Option.some.inj h).symm
  · split at h
    · exact .inr (.inl (Option.some.inj h).symm)
    · split at h
      · exact .inr (.inr (Option.some.inj h).symm)
      · cases h

/-- With linear metrics no instruction leaves backward compatibility. -/
theorem Update.controls_native (hl : g.mode.linearMetrics) (hu : g.Update p g') :
    g'.controls InstructControl.nativeClearType = g.controls InstructControl.nativeClearType := by
  rcases hu.switches_cases with h | ⟨_, bit, on, -, hb, hn, rfl⟩ | ⟨a, rfl⟩
  · have hc : g'.instructControl = g.instructControl := congrArg Switches.instructControl h
    rw [Retained.controls, Retained.controls, hc]
  · have hne : bit ≠ InstructControl.nativeClearType := fun h => hn ⟨h, hl⟩
    have hd : bit &&& InstructControl.nativeClearType = 0 := by
      rcases controlBit?_cases hb with rfl | rfl | rfl
      · decide
      · decide
      · exact absurd rfl hne
    rw [Retained.controls, Retained.controls, instructControl_setControl]
    cases on with
    | true => rw [if_pos rfl, Bits.set_and hd, Bits.clear_and hd]
    | false => rw [if_neg (by decide), Bits.clear_and hd]
  · cases a <;> rfl

end Graphics

/-! ### Configuring -/

/-- The retained state has the given mode, and with linear metrics it does not leave backward
compatibility. -/
structure Retained.Linear (mode : Mode) (r : Retained) : Prop where
  mode_eq : r.mode = mode
  native : mode.linearMetrics → r.controls InstructControl.nativeClearType = false

theorem Retained.linear_initial (scale ppem : Int32) (mode : Mode) :
    (Retained.initial scale ppem mode).Linear mode :=
  ⟨rfl, fun _ => show ((0 : UInt8) &&& 4 != 0) = false by decide⟩

namespace Machine

/-- A machine between two runs whose retained state has `mode`. -/
structure ReadyLinear (n : ZonePointer → Nat) (mode : Mode) (m : Machine) : Prop extends
    Ready n m where
  linear : m.graphics.toRetained.Linear mode

def linearRegime (n : ZonePointer → Nat) (mode : Mode) (p : Program) : Regime where
  initial := p
  size := n
  graphics g := g.Sound ∧ g.toRetained.Linear mode
  glyph := Anything

theorem updates_linearRegime (n : ZonePointer → Nat) (mode : Mode) (p : Program) :
    (linearRegime n mode p).Updates := by
  rintro g g' ⟨hg, hl⟩ hu
  refine ⟨hg.update hu, hu.mode_eq.trans hl.mode_eq, fun hm => ?_⟩
  rw [hu.controls_native (by rw [hl.mode_eq]; exact hm)]
  exact hl.native hm

theorem linear_run (n : ZonePointer → Nat) (mode : Mode) (p : Program) :
    RunInvariant (· ≠ .breach) p (ReadyLinear n mode) (linearRegime n mode p).Holds where
  steady := Regime.steady (updates_linearRegime n mode p) fun _ _ _ _ _ _ _ => trivial
  budget := nofun
  restart _ hm := ⟨rfl, ⟨.start hm.graphics.retained _, hm.linear⟩, hm.twilight, hm.glyph, trivial⟩
  stop _ hm := ⟨⟨hm.graphics.1, hm.twilight, hm.glyph.1⟩, hm.graphics.2⟩

theorem linear_invariant (n : ZonePointer → Nat) (mode : Mode) :
    Invariant (· ≠ .breach) (ReadyLinear n mode) fun p => (linearRegime n mode p).Holds where
  font := linear_run n mode .font
  controlValue := linear_run n mode .controlValue
  refresh m hm := by
    refine ⟨(ready_invariant n).refresh m hm.toReady, ?_⟩
    rw [← hm.linear.mode_eq]
    exact Retained.linear_initial _ _ _

/-- The instruct control is as at the start, in a run of the font program. -/
def clearRegime (n : ZonePointer → Nat) : Regime where
  initial := .font
  size := n
  graphics g := g.instructControl = 0
  glyph := Anything

theorem steady_clearRegime (n : ZonePointer → Nat) : Steady (· ≠ .breach) (clearRegime n).Holds :=
  Regime.steady (fun _ _ hg hu => (hu.control_eq (p := .font) nofun).1.trans hg)
    fun _ _ _ _ _ _ _ => trivial

end Machine

namespace Configuration

variable {c : Configuration} {s : Snapshot}

theorem linear_retained (hs : c.outcome = .ok s) : s.retained.Linear c.mode := by
  obtain ⟨m, hm, rfl⟩ := (Machine.linear_invariant _ c.mode).configured
    ⟨Machine.ready_machine c.source c.scale c.ppem c.mode c.coords, Retained.linear_initial _ _ _⟩ hs
  exact hm.linear

theorem instructControl_font {m : Machine}
    (hm : c.source.Configuring c.scale c.ppem c.mode c.coords .font m) :
    m.graphics.instructControl = 0 := by
  cases hm with
  | font ho =>
    have hr := Machine.ready_machine c.source c.scale c.ppem c.mode c.coords
    have hc : (Machine.clearRegime (Machine.configurationSize c.source)).Holds
        ((c.source.machine c.scale c.ppem c.mode c.coords).restart .font) :=
      ⟨rfl, rfl, hr.twilight, hr.glyph, trivial⟩
    exact ((Machine.steady_clearRegime _).occurs hc ho).graphics

end Configuration

/-! ### Hinting -/

/-- A run of the glyph program with an instruct control and a backward compatibility. -/
def Machine.glyphRegime (n : ZonePointer → Nat) (control : UInt8) (compatible : Bool)
    (glyph : Zone → Prop) : Regime where
  initial := .glyph
  size := n
  graphics g := g.instructControl = control ∧ g.backwardCompatible = compatible
  glyph := glyph

theorem Machine.updates_glyphRegime {n : ZonePointer → Nat} {control : UInt8} {compatible : Bool}
    {glyph : Zone → Prop} : (glyphRegime n control compatible glyph).Updates := by
  rintro g g' ⟨hc, hb⟩ hu
  obtain ⟨hc', hb'⟩ := hu.control_eq (p := .glyph) nofun
  exact ⟨hc'.trans hc, hb'.trans hb⟩

/-- Instructions leave the scaled positions of glyph points alone. -/
theorem Zone.Edit.scaled_eq {i : Instruction} {g : Graphics} {z z' : Zone} (h : z.Edit i g z') :
    z'.scaled = z.scaled := by
  cases h <;> rfl

namespace Snapshot

theorem instructControl_glyphState (s : Snapshot) :
    s.glyphState.instructControl = s.retained.instructControl := by
  unfold glyphState
  dsimp only
  split <;> rfl

theorem isBackwardCompatible_glyphState (s : Snapshot) :
    s.glyphState.isBackwardCompatible = s.retained.isBackwardCompatible := by
  unfold glyphState
  dsimp only
  split <;> rfl

end Snapshot

namespace Configuration

variable {c : Configuration} {s : Snapshot} {o : Outline} {sc : Scratch}

/-- The regime under which glyphs of a configuration are hinted. -/
def regime (c : Configuration) (s : Snapshot) (o : Outline) (glyph : Zone → Prop) : Regime :=
  Machine.glyphRegime (Machine.glyphSize c.source o) s.retained.instructControl
    s.retained.isBackwardCompatible glyph

theorem holds_regime (hs : c.outcome = .ok s) (ho : o.isConsistent) (glyph : Zone → Prop)
    (hz : glyph o.zone) (hf : sc.Fits s.sizes) :
    (c.regime s o glyph).Holds ((s.machine o sc hf).restart .glyph) := by
  have hr := Source.ready_snapshot hs ho sc hf
  exact ⟨rfl, ⟨s.instructControl_glyphState, s.isBackwardCompatible_glyphState⟩, hr.twilight,
    hr.glyph, hz⟩

theorem control_hinting (hs : c.outcome = .ok s) (ho : o.isConsistent) {m : Machine}
    (hm : s.Hinting o m) :
    m.graphics.instructControl = s.retained.instructControl ∧
      m.graphics.backwardCompatible = s.retained.isBackwardCompatible := by
  obtain ⟨sc, hf, hocc⟩ := hm
  have h := holds_regime hs ho Anything trivial hf
  exact ((Regime.steady Machine.updates_glyphRegime fun _ _ _ _ _ _ _ => trivial).occurs h hocc).graphics

end Configuration

/-- The places of the phantom points at the end of an array. -/
def Phantom.lastPoints (points : Array Point) : List Point :=
  points.toList.drop (points.size - Phantom.count)

theorem Phantom.toList_ofEnd {points : Array Point} (h : Phantom.count ≤ points.size) :
    (Phantom.ofEnd points h).toList = Phantom.lastPoints points := by
  have h4 : 4 ≤ points.toList.length := h
  have hsize : points.size = points.toList.length := rfl
  have h1 : points.size - 4 + 1 = points.size - 3 := by omega
  have h2 : points.size - 3 + 1 = points.size - 2 := by omega
  have h3 : points.size - 2 + 1 = points.size - 1 := by omega
  have h0 : points.size - 1 + 1 = points.toList.length := by omega
  rw [lastPoints, count, List.drop_eq_getElem_cons (by omega), h1,
    List.drop_eq_getElem_cons (by omega), h2, List.drop_eq_getElem_cons (by omega), h3,
    List.drop_eq_getElem_cons (by omega), h0, List.drop_length]
  simp [ofEnd, Phantom.toList]

namespace Snapshot

theorem valid_of_ok {s : Snapshot} {o : Outline} {sc? : Option Scratch}
    (h : (s.hint o sc?).error = none) :
    o.isConsistent ∧ ∃ sc, sc? = some sc ∧ sc.Fits s.sizes := by
  unfold hint at h
  dsimp only at h
  split at h
  · rename_i hc
    cases sc? with
    | none => cases h
    | some sc =>
      dsimp only at h
      split at h
      · rename_i hf
        exact ⟨hc, sc, rfl, hf⟩
      · cases h
  · cases h

end Snapshot

namespace Configuration

variable {c : Configuration} {s : Snapshot} {o : Outline} {sc : Scratch}

theorem ends_run (hs : c.outcome = .ok s) (ho : o.isConsistent) (hf : sc.Fits s.sizes) :
    Ends Anything (fun m => m.glyph.scaled = o.scaled ∧
        m.graphics.backwardCompatible = s.retained.isBackwardCompatible)
      (Machine.run .glyph (s.machine o sc hf)) := by
  have hE : ∀ i, (c.regime s o fun z => z.scaled = o.scaled).Edits i :=
    fun _ _ _ _ _ hz he => he.scaled_eq.trans hz
  have h := (Regime.steady Machine.updates_glyphRegime hE).runFrom nofun Machine.budget
    (holds_regime hs ho (fun z => z.scaled = o.scaled) rfl hf)
  exact Ends.anything (Ends.mono h fun m hm => ⟨hm.glyph.2, hm.graphics.2⟩)

/-- The phantom points that a glyph comes out with, and its scaled positions. -/
theorem hint_phantom (hs : c.outcome = .ok s) (ho : o.isConsistent) (hf : sc.Fits s.sizes) :
    (s.hint o (some sc)).outline.scaled = o.scaled ∧
    (s.retained.isBackwardCompatible →
      (s.hint o (some sc)).outline.phantom.toList = Phantom.lastPoints o.scaled) ∧
    (¬s.retained.isBackwardCompatible → ¬o.bytecode.isEmpty → (s.hint o (some sc)).error = none →
      (s.hint o (some sc)).outline.phantom.toList =
        Phantom.lastPoints (s.hint o (some sc)).outline.points) := by
  have hc := Outline.count_le_scaled ho
  have hr := ends_run (o := { o with phantom := .ofEnd o.scaled hc }) hs ho hf
  rw [Snapshot.hint_eq_run ho hf]
  unfold Snapshot.run
  dsimp only
  by_cases hb : o.bytecode.isEmpty
  · rw [if_pos hb]
    exact ⟨rfl, fun _ => Phantom.toList_ofEnd hc, fun _ h => absurd hb h⟩
  rw [if_neg hb]
  cases hx : Machine.run .glyph (s.machine { o with phantom := .ofEnd o.scaled hc } sc hf) with
  | error f m =>
    refine ⟨(hr.error hx).2.1, fun _ => Phantom.toList_ofEnd hc, fun _ _ he => ?_⟩
    cases he
  | ok u m =>
    obtain ⟨hsc, hbc⟩ := hr.ok hx
    dsimp only
    by_cases hcomp : s.retained.isBackwardCompatible
    · rw [if_pos (hbc.trans hcomp)]
      exact ⟨hsc, fun _ => Phantom.toList_ofEnd hc, fun h => absurd hcomp h⟩
    · rw [if_neg (by rw [hbc]; exact hcomp)]
      split
      · rename_i hp
        exact ⟨hsc, fun h => absurd h hcomp, fun _ _ _ => Phantom.toList_ofEnd hp⟩
      · refine ⟨hsc, fun h => absurd h hcomp, fun _ _ he => ?_⟩
        cases he

theorem isBackwardCompatible_linear (hs : c.outcome = .ok s) (hm : c.mode.isSmooth)
    (hl : c.mode.linearMetrics) : s.retained.isBackwardCompatible := by
  have h := linear_retained hs
  rw [Retained.isBackwardCompatible, h.mode_eq, hm, h.native hl]
  rfl

/-- After a successful configuration the instruct control and the backward compatibility of the
instance are those of every glyph program in all its states. A glyph that is hinted without an error
has its phantom points from its hinted points, or with backward compatibility from its scaled ones.
In a smooth mode with linear metrics an instance is always backward compatible. -/
theorem instructControl_kept {i j : Instance} (hs : c.outcome = .ok s) (hj : c.apply i = j) :
    j.snapshot = some s ∧
    (∀ m, c.source.Configuring c.scale c.ppem c.mode c.coords .font m →
      m.graphics.instructControl = 0) ∧
    (∀ o m, o.isConsistent → s.Hinting o m →
      m.graphics.instructControl = s.retained.instructControl ∧
        m.graphics.backwardCompatible = j.isBackwardCompatible) ∧
    (∀ o sc?, (j.hint o sc?).error = none → ¬o.bytecode.isEmpty →
      (j.hint o sc?).outline.scaled = o.scaled ∧
        (j.hint o sc?).outline.phantom.toList =
          if j.isBackwardCompatible then Phantom.lastPoints o.scaled
          else Phantom.lastPoints (j.hint o sc?).outline.points) ∧
    (c.mode.isSmooth → c.mode.linearMetrics → j.isBackwardCompatible ∧
      ∀ o sc, o.isConsistent → sc.Fits s.sizes →
        (j.hint o (some sc)).outline.scaled = o.scaled ∧
          (j.hint o (some sc)).outline.phantom.toList = Phantom.lastPoints o.scaled) := by
  rw [apply_of_ok hs] at hj
  subst hj
  refine ⟨rfl, fun m hm => instructControl_font hm, fun o m ho hm => control_hinting hs ho hm,
    fun o sc? hok hb => ?_, fun hm hl => ?_⟩
  · obtain ⟨ho, sc, rfl, hf⟩ := Snapshot.valid_of_ok hok
    obtain ⟨hscaled, hcomp, hnot⟩ := hint_phantom hs ho hf
    refine ⟨hscaled, ?_⟩
    by_cases hb' : Instance.isBackwardCompatible ⟨some s⟩
    · rw [if_pos hb']
      exact hcomp hb'
    · rw [if_neg hb']
      exact hnot hb' hb hok
  · have hb := isBackwardCompatible_linear hs hm hl
    refine ⟨hb, fun o sc ho hf => ?_⟩
    obtain ⟨hscaled, hcomp, -⟩ := hint_phantom hs ho hf
    exact ⟨hscaled, hcomp hb⟩

/-- A font with a function that asks to leave backward compatibility, and a control value program
that asks for the default state. -/
def askingFont : Configuration where
  source :=
    { maxima := { stack := 8, functions := 1 }
      fontProgram := #[0xb0, 0, 0x2c, 0xb1, 4, 3, 0x8e, 0x2d]
      controlValueProgram := #[0xb1, 2, 2, 0x8e] }
  scale := 65536
  ppem := 16
  mode := { target := .smooth, linearMetrics := true }
  coords := #[]

/-- The glyph calls the function. -/
theorem instructControl_kept_askingFont :
    ∃ s, askingFont.outcome = .ok s ∧ s.retained.instructControl = 2 ∧
      (∀ m, s.Hinting (Session.emptyGlyph #[0xb0, 0, 0x2b]) m →
        m.graphics.instructControl = 2 ∧ m.graphics.backwardCompatible) ∧
      ((askingFont.apply {}).hint (Session.emptyGlyph #[0xb0, 0, 0x2b])
        (some (.ofSizes s.sizes))).outline.phantom.toList = List.replicate 4 {} := by
  have h : (askingFont.outcome.toOption.any fun s => s.retained.instructControl == 2) = true := by
    decide +kernel
  obtain ⟨s, hs, hc⟩ := (Option.any_eq_true _ _).1 h
  have hs : askingFont.outcome = .ok s := by
    cases ho : askingFont.outcome with
    | ok t =>
      rw [ho] at hs
      exact congrArg Except.ok (Option.some.inj hs)
    | error f =>
      rw [ho] at hs
      cases hs
  have hc : s.retained.instructControl = 2 := eq_of_beq hc
  have ho : (Session.emptyGlyph #[0xb0, 0, 0x2b]).isConsistent := by decide
  obtain ⟨-, -, hrun, -, hlin⟩ := instructControl_kept (i := {}) hs rfl
  obtain ⟨hb, hph⟩ := hlin (by decide) (by decide)
  refine ⟨s, hs, hc, fun m hm => ?_, ?_⟩
  · obtain ⟨h1, h2⟩ := hrun _ m ho hm
    exact ⟨h1.trans hc, h2.trans hb⟩
  · rw [(hph _ _ ho (Scratch.fits_ofSizes _)).2]
    decide

end Configuration

end GridFit
