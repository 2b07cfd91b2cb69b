import GridFit.Proofs.Control
import GridFit.Proofs.Independence
import GridFit.Proofs.Linkage

/-!
# Working memory can be used again

A glyph program writes to the tables of its machine through overlays, which always lie over the values
of the font (`Machine.Overlaid`), and it cannot define anything (`Machine.Sealed`). So what the
instance has of a font stays as it is while a glyph is hinted (`Snapshot.hinting_keeps`).

What a run does not use of the working memory is left as it is, too. Memory that was large enough for
a glyph is large enough for the next one, whether the program succeeds or fails (`Snapshot.fits_hint`).
-/

namespace GridFit

/-! ### Overlays stay in place -/

/-- The table is an overlay of `base`. -/
def Table.Over (base : Array Int32) (t : Table) : Prop :=
  ∃ o : Overlay, t = .overlay o ∧ o.base = base

theorem Table.Over.set {base : Array Int32} {t : Table} (h : t.Over base) (i : Int) (v : Int32) :
    (t.set i v).Over base := by
  obtain ⟨o, rfl, rfl⟩ := h
  by_cases hi : 0 ≤ i ∧ i.toNat < (overlay o).size
  · exact ⟨o.set i.toNat v hi.2, dif_pos hi, rfl⟩
  · rw [set_of_not_mem hi]
    exact ⟨o, rfl, rfl⟩

namespace Machine

/-- The tables of the machine are overlays of the given values. -/
structure Overlaid (controlValues storage : Array Int32) (m : Machine) : Prop where
  controlValues : m.controlValues.Over controlValues
  storage : m.storage.Over storage

variable {cv st : Array Int32}

/-- Control instructions do not touch the tables. -/
theorem control_overlaid : Control Anything Anything (Overlaid cv st) where
  survives _ _ _ _ := trivial
  flow _ _ := trivial
  withFlow _ _ hm _ := ⟨hm.controlValues, hm.storage⟩
  withStack _ _ hm := ⟨hm.controlValues, hm.storage⟩
  definitions _ _ _ _ _ := trivial
  store _ k _ _ _ _ hm _ _ := by cases k <;> exact ⟨hm.controlValues, hm.storage⟩

end Machine

theorem Plain.overlaid {α : Type} {x : Exec α} (h : Plain x) {cv st : Array Int32} (m : Machine)
    (hm : m.Overlaid cv st) : Ends Anything (Machine.Overlaid cv st) (x m) := by
  induction h generalizing m with
  | pure a => exact hm
  | throw e => exact ⟨trivial, hm⟩
  | @bind α β x f _ _ ihx ihf =>
    have hx := ihx m hm
    cases hr : x m with
    | ok a m₁ =>
      rw [bind_of_ok hr]
      exact ihf a m₁ (hx.ok hr)
    | error e m₁ =>
      rw [bind_of_error hr]
      exact hx.error hr
  | @stack α x _ =>
    unfold Exec.onStack
    dsimp only
    cases x m.stack
    · exact ⟨hm.controlValues, hm.storage⟩
    · exact ⟨trivial, hm.controlValues, hm.storage⟩
  | zone z x =>
    unfold Exec.onZone
    cases z with
    | twilight =>
      dsimp only
      cases x m.twilight
      · exact ⟨hm.controlValues, hm.storage⟩
      · exact ⟨trivial, hm.controlValues, hm.storage⟩
    | glyph =>
      dsimp only
      cases x m.glyph
      · exact ⟨hm.controlValues, hm.storage⟩
      · exact ⟨trivial, hm.controlValues, hm.storage⟩
  | graphics => exact hm
  | modifyGraphics f => exact ⟨hm.controlValues, hm.storage⟩
  | controlValue i =>
    unfold Exec.controlValue
    cases m.controlValues.get? i
    · exact ⟨trivial, hm⟩
    · exact hm
  | setControlValue i v =>
    unfold Exec.setControlValue
    cases m.controlValues.contains i
    · exact ⟨trivial, hm⟩
    · exact ⟨hm.controlValues.set i v, hm.storage⟩
  | stored i =>
    unfold Exec.stored
    cases m.storage.get? i
    · exact ⟨trivial, hm⟩
    · exact hm
  | setStored i v =>
    unfold Exec.setStored
    cases m.storage.contains i
    · exact ⟨trivial, hm⟩
    · exact ⟨hm.controlValues, hm.storage.set i v⟩
  | settings _ _ ih => exact ih m m hm

theorem Machine.overlaid_run (cv st : Array Int32) (p : Program) :
    RunInvariant Anything p (Overlaid cv st) (Overlaid cv st) where
  steady := by
    refine ⟨fun m hm => (control_overlaid.next.ends hm).anything, fun b m hm => ?_⟩
    by_cases hp : (Instruction.ofByte b).isPlain
    · exact (Plain.execute hp).overlaid m hm
    · exact ((control_overlaid.execute hp).ends hm).anything
  budget := trivial
  restart _ hm := ⟨hm.controlValues, hm.storage⟩
  stop _ hm := hm

/-! ### Definitions stay in place -/

namespace Machine

/-- The machine has the definitions of the snapshot and cannot change them. -/
structure Sealed (s : Snapshot) (m : Machine) : Prop where
  functions : m.functions = ⟨s.functions, false⟩
  instructions : m.instructions = ⟨s.instructions, false⟩

variable {s : Snapshot} {m m' : Machine}

theorem Sealed.not_writable (h : m.Sealed s) (k : DefinitionKind) :
    (m.definitions k).writable = false := by
  cases k with
  | function => exact congrArg (·.writable) h.functions
  | instruction => exact congrArg (·.writable) h.instructions

/-- No slot is found for a definition. -/
theorem control_sealed (s : Snapshot) : Control Anything Anything (Sealed s) where
  survives _ _ _ _ := trivial
  flow _ _ := trivial
  withFlow _ _ h _ := ⟨h.functions, h.instructions⟩
  withStack _ _ h := ⟨h.functions, h.instructions⟩
  definitions _ _ _ _ _ := trivial
  store m k _ _ _ _ h hslot _ := by
    have hw := DefinitionTable.writable_of_slotFor hslot
    rw [h.not_writable k] at hw
    cases hw

theorem Sealed.of_sameControl (h : m.Sealed s) (hc : m.SameControl m') : m'.Sealed s :=
  ⟨hc.functions.trans h.functions, hc.instructions.trans h.instructions⟩

theorem steady_sealed (s : Snapshot) : Steady Anything (Sealed s) :=
  (control_sealed s).steady fun _ _ h hc => h.of_sameControl hc

end Machine

namespace Snapshot

variable {s : Snapshot} {sc : Scratch} {o : Outline} {m : Machine}

theorem overlaid_machine (s : Snapshot) (o : Outline) (hf : sc.Fits s.sizes) :
    (s.machine o sc hf).Overlaid s.controlValues s.storage :=
  ⟨⟨_, rfl, rfl⟩, ⟨_, rfl, rfl⟩⟩

/-- In every state while a glyph is hinted, the definitions are those of the font, and the control
values and the storage lie over those of the font. -/
theorem hinting_keeps (h : s.Hinting o m) :
    m.Sealed s ∧ m.Overlaid s.controlValues s.storage := by
  obtain ⟨sc, hf, ho⟩ := h
  refine ⟨(Machine.steady_sealed s).occurs ⟨rfl, rfl⟩ ho, ?_⟩
  exact (Machine.overlaid_run s.controlValues s.storage .glyph).occurs (overlaid_machine s o hf) ho

end Snapshot

/-! ### Memory after a run -/

namespace Scratch

theorem size_overwrite {α : Type} (whole part : Array α) :
    whole.size ≤ (overwrite whole part).size := by
  simp only [overwrite, Array.size_append, Array.size_extract]
  omega

theorem fits_after {s : Snapshot} {sc : Scratch} {m : Machine} (h : sc.Fits s.sizes)
    (hm : m.Overlaid s.controlValues s.storage) : (m.scratch sc).Fits s.sizes := by
  obtain ⟨⟨o, ho, hcv⟩, ⟨o', ho', hst⟩⟩ := hm
  have hcells : s.controlValues.size ≤ m.controlValues.cells.size := by
    rw [ho, ← hcv]
    exact o.base_le
  have hwords : bitmapWords s.controlValues.size ≤ m.controlValues.written.size := by
    rw [ho, ← hcv]
    exact o.words_le
  have hcells' : s.storage.size ≤ m.storage.cells.size := by
    rw [ho', ← hst]
    exact o'.base_le
  have hwords' : bitmapWords s.storage.size ≤ m.storage.written.size := by
    rw [ho', ← hst]
    exact o'.words_le
  exact ⟨Nat.le_trans h.stack (size_overwrite ..), hcells, hwords, hcells', hwords',
    Nat.le_trans h.twilightScaled (size_overwrite ..),
    Nat.le_trans h.twilightPoints (size_overwrite ..),
    Nat.le_trans h.twilightFlags (size_overwrite ..)⟩

end Scratch

namespace Snapshot

variable {s : Snapshot} {sc : Scratch}

theorem fits_run {o : Outline} (hc : Phantom.count ≤ o.scaled.size) (hf : sc.Fits s.sizes) :
    ∃ sc', (s.run o sc hc hf).scratch = some sc' ∧ sc'.Fits s.sizes := by
  have hr := (Machine.overlaid_run s.controlValues s.storage .glyph).run
    (overlaid_machine s { o with phantom := .ofEnd o.scaled hc } hf)
  unfold run
  dsimp only
  split
  · exact ⟨sc, rfl, hf⟩
  cases hx : Machine.run .glyph (s.machine { o with phantom := .ofEnd o.scaled hc } sc hf) with
  -- A failed run hands its memory back, too.
  | error f m => exact ⟨_, rfl, Scratch.fits_after hf (hr.error hx).2⟩
  | ok u m =>
    refine ⟨m.scratch sc, ?_, Scratch.fits_after hf (hr.ok hx)⟩
    dsimp only
    split
    · rfl
    · split <;> rfl

/-- Memory that is large enough is so after hinting, too. -/
theorem fits_hint (hf : sc.Fits s.sizes) (o : Outline) :
    ∃ sc', (s.hint o (some sc)).scratch = some sc' ∧ sc'.Fits s.sizes := by
  by_cases hc : o.isConsistent
  · rw [hint_eq_run hc hf]
    exact fits_run (Outline.count_le_scaled hc) hf
  · rw [hint, dif_neg hc]
    exact ⟨sc, rfl, hf⟩

end Snapshot

end GridFit
