import GridFit.Proofs.Compatibility

/-!
# The graphics state is well formed

The machine divides by the dot product of its vectors, masks with a period and picks a zone by a
pointer, all without a check. What it relies on is that the graphics state is well formed
(`Graphics.WellFormed`). Programs cannot break this: each of the changes that instructions make
keeps it (`Graphics.WellFormed.update`). Parameters of a round mode outlive the mode, so they are
only constrained while a mode uses them.

The retained part goes from the control value program through the snapshot into every glyph program.
It is well formed on the way (`Session.graphics_wellFormed`).
-/

namespace GridFit

/-- The parameters are those of the super rounding that is in use, if any is. -/
structure RoundState.WellFormed (r : RoundState) : Prop where
  super : r.mode = .super → r.period ∈ [32, 64, 128] ∧ 0 ≤ r.phase ∧ r.phase < r.period
  super45 : r.mode = .super45 → r.period ∈ [22, 45, 90] ∧ 0 ≤ r.phase ∧ r.phase < r.period

structure Retained.WellFormed (r : Retained) : Prop where
  deltaShift : 0 ≤ r.deltaShift ∧ r.deltaShift ≤ 6
  instructControl : r.instructControl < 8
  round : r.round.WellFormed

/-- `d` stands for the dot product of the vectors: it is the dot product, unless that is small. -/
structure Vec.Factor (fv pv : Vec) (d : Int32) : Prop where
  eq : d = if Fixed.magnitude (Fixed.dot14 fv.x fv.y pv.x pv.y) < 0x400 then 0x4000
    else Fixed.dot14 fv.x fv.y pv.x pv.y
  large : 0x400 ≤ d.toInt.natAbs

structure Graphics.WellFormed (g : Graphics) : Prop where
  fdotp : Vec.Factor g.fv g.pv g.fdotp
  zones : ∀ z ∈ [g.zp0, g.zp1, g.zp2], z.code = 0 ∨ z.code = 1
  references : ∀ p ∈ [g.rp0, g.rp1, g.rp2], p ≤ 2147483647
  loop : 0 ≤ g.loop ∧ g.loop ≤ 65535
  retained : g.toRetained.WellFormed

/-! ### Rounding -/

namespace RoundState

theorem selectPeriod_mem (gridPeriod selector : Int32) :
    selectPeriod gridPeriod selector ∈ [gridPeriod / 2, gridPeriod * 2, gridPeriod] := by
  unfold selectPeriod
  split <;> simp

theorem selectPhase_mem (period selector : Int32) :
    selectPhase period selector ∈ [0, period / 4, period / 2, period * 3 / 4] := by
  unfold selectPhase
  split <;> simp

/-- A grid has three periods with four phases each, so a check of these covers all selectors. -/
theorem ofSelector_grid {gridPeriod : Int32} {periods : List Int32}
    (h : ([gridPeriod / 2, gridPeriod * 2, gridPeriod].all fun period =>
      [0, period / 4, period / 2, period * 3 / 4].all fun phase =>
        decide (period >>> 8 ∈ periods ∧ period >>> 8 ≠ 0 ∧ (0 : Int32) ≤ phase >>> 8 ∧
          phase >>> 8 < period >>> 8)) = true)
    (selector : Int32) (mode : RoundMode) :
    (ofSelector gridPeriod selector mode).period ∈ periods ∧
      0 ≤ (ofSelector gridPeriod selector mode).phase ∧
      (ofSelector gridPeriod selector mode).phase <
        (ofSelector gridPeriod selector mode).period := by
  have hperiod := List.all_eq_true.1 h _ (selectPeriod_mem gridPeriod selector)
  have hphase := List.all_eq_true.1 hperiod _ (selectPhase_mem _ selector)
  obtain ⟨hmem, hne, hrange⟩ := of_decide_eq_true hphase
  simp only [ofSelector, if_neg hne]
  exact ⟨hmem, hrange⟩

namespace WellFormed

theorem of_isSimple {r : RoundState} (h : r.mode.isSimple) : r.WellFormed := by
  constructor <;> intro hm <;> rw [hm] at h <;> cases h

theorem ofSelector_super (selector : Int32) :
    (ofSelector squareGrid selector .super).WellFormed where
  super _ := ofSelector_grid (by decide) selector .super
  super45 := nofun

theorem ofSelector_super45 (selector : Int32) :
    (ofSelector diagonalGrid selector .super45).WellFormed where
  super := nofun
  super45 _ := ofSelector_grid (by decide) selector .super45

end WellFormed

end RoundState

/-! ### The retained part -/

namespace Retained.WellFormed

theorem initial (scale ppem : Int32) (mode : Mode) :
    (Retained.initial scale ppem mode).WellFormed where
  deltaShift := show (0 : Int32) ≤ 3 ∧ (3 : Int32) ≤ 6 by decide
  instructControl := show (0 : UInt8) < 8 by decide
  round := .of_isSimple rfl

theorem glyphState {s : Snapshot} (h : s.retained.WellFormed) : s.glyphState.WellFormed := by
  have hi := initial s.retained.scale s.retained.ppem s.retained.mode
  unfold Snapshot.glyphState
  dsimp only
  split
  · exact ⟨hi.deltaShift, h.instructControl, hi.round⟩
  · exact h

end Retained.WellFormed

/-! ### What instructions change -/

namespace Graphics

/-- The bits of the instruct control stay among the lowest three. -/
theorem instructControl_lt {a bit : UInt8} (ha : a < 8) (hb : bit < 8) :
    a &&& ~~~bit < 8 ∧ a &&& ~~~bit ||| bit < 8 := by
  rw [UInt8.lt_iff_toNat_lt] at ha hb ⊢
  have hcleared : (a &&& ~~~bit).toNat < 2 ^ 3 := by
    rw [UInt8.toNat_and]
    exact Nat.lt_of_le_of_lt Nat.and_le_left ha
  refine ⟨hcleared, ?_⟩
  rw [UInt8.lt_iff_toNat_lt, UInt8.toNat_or]
  exact Nat.or_lt_two_pow hcleared hb

theorem le_natAbs_of_magnitude {d : Int32} (h : ¬Fixed.magnitude d < 0x400) :
    0x400 ≤ d.toInt.natAbs := by
  unfold Fixed.magnitude at h
  split at h
  · -- negating the least value changes nothing, and it is far from zero
    rename_i hneg
    rw [Int32.lt_iff_toInt_lt] at h hneg
    have hle := d.le_toInt
    have h0 : (0 : Int32).toInt = 0 := rfl
    have h400 : (0x400 : Int32).toInt = 0x400 := rfl
    rw [h0] at hneg
    rw [h400, Int32.toInt_neg] at h
    by_cases hmin : d.toInt = -2 ^ 31
    · rw [hmin]
      decide
    · rw [Int.bmod_eq_of_le (by omega) (by omega)] at h
      omega
  · rename_i hpos
    rw [Int32.lt_iff_toInt_lt] at h hpos
    have h0 : (0 : Int32).toInt = 0 := rfl
    have h400 : (0x400 : Int32).toInt = 0x400 := rfl
    rw [h400] at h
    omega

theorem factor_projectionFactor (fv pv : Vec) : Vec.Factor fv pv (projectionFactor fv pv) := by
  refine ⟨rfl, ?_⟩
  unfold projectionFactor
  dsimp only
  split
  · decide
  · rename_i hd
    exact le_natAbs_of_magnitude hd

theorem code_zonePointer (z : ZonePointer) : z.code = 0 ∨ z.code = 1 := by
  cases z with
  | twilight => exact .inl rfl
  | glyph => exact .inr rfl

theorem loop_countDown {n : Int32} (h0 : 0 < n) (h1 : n ≤ 65535) : 0 ≤ n - 1 ∧ n - 1 ≤ 65535 := by
  rw [Int32.lt_iff_toInt_lt] at h0
  rw [Int32.le_iff_toInt_le] at h1 ⊢
  rw [Int32.le_iff_toInt_le, Int32.toInt_sub]
  have hz : (0 : Int32).toInt = 0 := rfl
  have ho : (1 : Int32).toInt = 1 := rfl
  have hm : (65535 : Int32).toInt = 65535 := rfl
  rw [hz] at h0
  rw [hm] at h1
  rw [hz, ho, hm, Int.bmod_eq_of_le (by omega) (by omega)]
  omega

namespace WellFormed

variable {g g' : Graphics} {p : Program}

theorem start {r : Retained} (h : r.WellFormed) (composite : Bool) :
    (Graphics.start r composite).WellFormed where
  fdotp := factor_projectionFactor .xAxis .xAxis
  zones z _ := code_zonePointer z
  references := show ∀ p ∈ [0, 0, 0], p ≤ 2147483647 by decide
  loop := show (0 : Int32) ≤ 1 ∧ (1 : Int32) ≤ 65535 by decide
  retained := h

theorem setControl (h : g.WellFormed) {selector : Int32} {bit : UInt8}
    (hb : Exec.controlBit? selector = some bit) (on : Bool) :
    (Exec.setControl g bit on).WellFormed := by
  have hbit : bit < 8 := by
    rcases controlBit?_cases hb with rfl | rfl | rfl <;> decide
  have hcontrol : (Exec.setControl g bit on).instructControl < 8 := by
    obtain ⟨hcleared, hset⟩ := instructControl_lt h.retained.instructControl hbit
    rw [instructControl_setControl]
    cases on with
    | true => exact hset
    | false => exact hcleared
  unfold Exec.setControl at hcontrol ⊢
  dsimp only at hcontrol ⊢
  by_cases hn : bit = InstructControl.nativeClearType
  · rw [if_pos hn] at hcontrol ⊢
    exact ⟨h.fdotp, h.zones, h.references, h.loop, h.retained.deltaShift, hcontrol,
      h.retained.round⟩
  · rw [if_neg hn] at hcontrol ⊢
    exact ⟨h.fdotp, h.zones, h.references, h.loop, h.retained.deltaShift, hcontrol,
      h.retained.round⟩

theorem withReferences (h : g.WellFormed) {a b c : Nat} (ha : a ≤ maxIndex) (hb : b ≤ maxIndex)
    (hc : c ≤ maxIndex) : ({ g with rp0 := a, rp1 := b, rp2 := c } : Graphics).WellFormed := by
  refine { h with references := ?_ }
  show ∀ p ∈ [a, b, c], p ≤ maxIndex
  simpa using ⟨ha, hb, hc⟩

theorem withReference (h : g.WellFormed) (k : Fin 3) {q : Nat} (hq : q ≤ maxIndex) :
    (g.withReference k q).WellFormed := by
  obtain ⟨h0, h1, h2⟩ : g.rp0 ≤ maxIndex ∧ g.rp1 ≤ maxIndex ∧ g.rp2 ≤ maxIndex := by
    simpa [maxIndex] using h.references
  match k with
  | 0 => exact h.withReferences hq h1 h2
  | 1 => exact h.withReferences h0 hq h2
  | 2 => exact h.withReferences h0 h1 hq

theorem withZone (h : g.WellFormed) (k : Fin 3) (z : ZonePointer) :
    (g.withZone k z).WellFormed := by
  match k with
  | 0 | 1 | 2 => exact { h with zones := fun z _ => code_zonePointer z }

theorem withRound (h : g.WellFormed) {r : RoundState} (hr : r.WellFormed) :
    ({ g with round := r } : Graphics).WellFormed :=
  ⟨h.fdotp, h.zones, h.references, h.loop, h.retained.deltaShift, h.retained.instructControl, hr⟩

/-- Whatever an instruction changes, the graphics state stays well formed. -/
theorem update (h : g.WellFormed) (hu : g.Update p g') : g'.WellFormed := by
  have h0 : g.rp0 ≤ maxIndex := h.references g.rp0 (by simp)
  have h2 : g.rp2 ≤ maxIndex := h.references g.rp2 (by simp)
  cases hu with
  | vectors pv fv dv =>
    refine ⟨?_, h.zones, h.references, h.loop, h.retained⟩
    simp only [updateProjection]
    exact factor_projectionFactor fv pv
  | reference k hp => exact h.withReference k hp
  | absoluteReferences hp => exact h.withReferences hp hp h2
  | relativeReferences sets hp =>
    refine h.withReferences ?_ h0 hp
    split
    · exact hp
    · exact h0
  | zone k z => exact h.withZone k z
  | zones z => exact { h with zones := fun z _ => code_zonePointer z }
  | loop hn hm => exact { h with loop := ⟨hn, hm⟩ }
  | countDown hn => exact { h with loop := loop_countDown hn h.loop.2 }
  | roundMode hm => exact h.withRound (.of_isSimple hm)
  | super selector => exact h.withRound (.ofSelector_super selector)
  | super45 selector => exact h.withRound (.ofSelector_super45 selector)
  | scalars =>
    exact ⟨h.fdotp, h.zones, h.references, h.loop, h.retained.deltaShift,
      h.retained.instructControl, h.retained.round⟩
  | deltaShift hn hm =>
    exact ⟨h.fdotp, h.zones, h.references, h.loop, ⟨hn, hm⟩, h.retained.instructControl,
      h.retained.round⟩
  | control selector on hi hb hn => exact h.setControl hb on
  | interpolated a hb => cases a <;> exact { h with }

end WellFormed

end Graphics

/-! ### Configuring and hinting -/

namespace Machine

/-- A machine between two runs that retains a well-formed state. Its zones have `n` points. -/
structure RetainsWellFormed (n : ZonePointer → Nat) (m : Machine) : Prop where
  retained : m.graphics.toRetained.WellFormed
  twilight : m.twilight.Regular (n .twilight)
  glyph : m.glyph.Regular (n .glyph)

/-- A well-formed graphics state, in a run of the program `p` on zones with `n` points. -/
def wellFormedRegime (n : ZonePointer → Nat) (p : Program) : Regime where
  initial := p
  size := n
  graphics := Graphics.WellFormed
  glyph := Anything

theorem wellFormed_run (n : ZonePointer → Nat) (p : Program) :
    RunInvariant (· ≠ .breach) p (RetainsWellFormed n) (wellFormedRegime n p).Holds where
  steady := Regime.steady (fun _ _ hg hu => hg.update hu) fun _ _ _ _ _ _ _ => trivial
  budget := nofun
  restart _ hm := ⟨rfl, .start hm.retained _, hm.twilight, hm.glyph, trivial⟩
  stop _ hm := ⟨hm.graphics.retained, hm.twilight, hm.glyph.1⟩

theorem wellFormed_invariant (n : ZonePointer → Nat) :
    Invariant (· ≠ .breach) (RetainsWellFormed n) fun p => (wellFormedRegime n p).Holds where
  font := wellFormed_run n .font
  controlValue := wellFormed_run n .controlValue
  refresh _ hm := ⟨.initial _ _ _, hm.twilight, hm.glyph⟩

end Machine

namespace Configuration

variable {c : Configuration}

theorem retainsWellFormed (c : Configuration) :
    Machine.RetainsWellFormed (Machine.configurationSize c.source)
      (c.source.machine c.scale c.ppem c.mode c.coords) := by
  have hr := Machine.ready_machine c.source c.scale c.ppem c.mode c.coords
  exact ⟨.initial _ _ _, hr.twilight, hr.glyph⟩

theorem wellFormed_hinting {s : Snapshot} (hs : c.outcome = .ok s) {o : Outline} {m : Machine}
    (ho : o.isConsistent) (hm : s.Hinting o m) : m.graphics.WellFormed := by
  obtain ⟨sc, hf, hocc⟩ := hm
  have hret : s.retained.WellFormed := by
    obtain ⟨m', hm', rfl⟩ := (Machine.wellFormed_invariant _).configured c.retainsWellFormed hs
    exact hm'.retained
  have hr := Source.ready_snapshot hs ho sc hf
  have hrest : Machine.RetainsWellFormed (Machine.glyphSize c.source o) (s.machine o sc hf) :=
    ⟨hret.glyphState, hr.twilight, hr.glyph⟩
  exact ((Machine.wellFormed_run _ .glyph).occurs hrest hocc).graphics

end Configuration

/-- In every state of the runs that configure an instance, and of the runs that hint a glyph after
any history of requests, the graphics state is well formed. -/
theorem Session.graphics_wellFormed (history : List Request) :
    (∀ (c : Configuration) (p : Program) (m : Machine),
      c.source.Configuring c.scale c.ppem c.mode c.coords p m → m.graphics.WellFormed) ∧
    ∀ s ∈ (after history).current.snapshot, ∀ (o : Outline) (m : Machine), o.isConsistent →
      s.Hinting o m → m.graphics.WellFormed := by
  refine ⟨fun c p m hm => ?_, fun s hs o m ho hm => ?_⟩
  · exact ((Machine.wellFormed_invariant _).configuring c.retainsWellFormed hm).graphics
  · obtain ⟨c, hc⟩ := configured hs
    exact c.wellFormed_hinting hc ho hm

end GridFit
