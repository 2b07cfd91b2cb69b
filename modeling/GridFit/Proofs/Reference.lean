import GridFit.Proofs.Compatibility

/-!
# The reference outline

Distances before hinting are measured between the unscaled and the scaled positions of points, along
contours. Instructions that write scaled positions do so in the twilight zone only, so a glyph
program finds the reference of its glyph as it was, in all states of its run
(`Zone.Edit.reference_eq`). Points are put on or off the curve by flips in the glyph zone, and by
nothing else (`Zone.Edit.classifications_eq_of_flips`). Flips in the twilight zone do not count, so
a run is listed together with the zone pointer that each instruction finds (`Machine.executed`).
-/

namespace GridFit

/-! ### What instructions do to the reference -/

structure ReferenceOutline where
  unscaled : Array Point
  scaled : Array Point
  contours : Array UInt16

def Zone.reference (z : Zone) : ReferenceOutline := ⟨z.unscaled, z.scaled, z.contours⟩

namespace Zone.Edit

variable {i : Instruction} {g : Graphics} {z z' : Zone}

theorem reference_eq (h : z.Edit i g z') : z'.reference = z.reference := by
  cases h <;> rfl

theorem classifications_eq_of_flips (h : z.Edit i g z') (hi : i.flips → g.zp0 ≠ .glyph) :
    z'.classifications = z.classifications := by
  cases h with
  | mark p hf => exact classifications_modify z p _ (PointFlags.classification_union hf)
  | unmark p hf => exact classifications_modify z p _ (PointFlags.classification_diff hf)
  | flip p f hflips hn hz => exact absurd hz (hi hflips)
  | _ => rfl

end Zone.Edit

/-! ### Runs -/

namespace Machine

/-- The instructions that a run executes, the one that fails included. Each comes with zone pointer
0 as the instruction finds it. -/
def executed : Nat → Machine → List (Instruction × ZonePointer)
  | 0, _ => []
  | fuel + 1, m =>
    if m.flow.finished then []
    else
      match Exec.onFlow FlowM.next m with
      | .error _ _ => []
      | .ok b m₁ =>
        (.ofByte b, m₁.graphics.zp0) ::
          match Exec.execute (.ofByte b) m₁ with
          | .error _ _ => []
          | .ok () m₂ => executed fuel m₂

/-- A run of the glyph program on zones with `n` points. -/
def outlineRegime (n : ZonePointer → Nat) (graphics : Graphics → Prop) (glyph : Zone → Prop) :
    Regime where
  initial := .glyph
  size := n
  graphics := graphics
  glyph := glyph

section

variable {n : ZonePointer → Nat} {c : Array UInt8} {m m₁ : Machine} {b : UInt8} {fuel : Nat}

theorem steady_reference (n : ZonePointer → Nat) (r : ReferenceOutline) :
    Steady (· ≠ .breach) (outlineRegime n Anything fun z => z.reference = r).Holds :=
  Regime.steady (fun _ _ _ _ => trivial) fun _ _ _ _ _ hz he => he.reference_eq.trans hz

/-- A flip while zone pointer 0 is in the twilight zone. The pointer stays there until the flip is
done: nothing but the loop counter changes. -/
theorem keeps_flips {i : Instruction} (hi : i.flips) :
    Keeps (outlineRegime n (·.zp0 = .twilight) fun z => z.classifications = c).Holds
      (Exec.execute i) Anything := by
  have hC : (outlineRegime n (·.zp0 = .twilight) fun z => z.classifications = c).Counts :=
    ⟨fun _ _ hg _ _ => hg, fun _ hg _ => hg⟩
  have hE (i : Instruction) :
      (outlineRegime n (·.zp0 = .twilight) fun z => z.classifications = c).Edits i := by
    intro g z z' hg hz he
    have hne : g.zp0 ≠ .glyph := by
      intro h
      rw [show g.zp0 = .twilight from hg] at h
      cases h
    exact (he.classifications_eq_of_flips fun _ => hne).trans hz
  cases i <;> first | (cases hi; done) | rw [Exec.execute]
  case flippt => exact Regime.flipPoints hC (hE _)
  case fliprg on => exact Regime.flipRange (hE _)

theorem ends_execute (h : (outlineRegime n Anything fun z => z.classifications = c).Holds m)
    (hb : (Instruction.ofByte b).flips → m.graphics.zp0 ≠ .glyph) :
    Ends Anything (outlineRegime n Anything fun z => z.classifications = c).Holds
      (Exec.execute (.ofByte b) m) := by
  by_cases hflips : (Instruction.ofByte b).flips
  · have ht : m.graphics.zp0 = .twilight := by
      have hne := hb hflips
      generalize m.graphics.zp0 = z at hne ⊢
      cases z with
      | twilight => rfl
      | glyph => exact absurd rfl hne
    have hk := (keeps_flips (n := n) (c := c) hflips).ends
      ⟨h.initial, ht, h.twilight, h.glyph⟩
    exact (hk.mono fun m' hm => ⟨hm.initial, trivial, hm.twilight, hm.glyph⟩).anything
  · refine Ends.anything (Keeps.ends (p := Anything) ?_ h)
    refine Regime.execute (fun _ _ _ _ => trivial) (fun g z z' _ hz he => ?_)
      (Instruction.roundsSimply_ofByte b)
    exact (he.classifications_eq_of_flips fun hf => absurd hf hflips).trans hz

/-- A run without flips in the glyph zone keeps the classifications of points. -/
theorem ends_runFrom (h : (outlineRegime n Anything fun z => z.classifications = c).Holds m)
    (hx : ∀ e ∈ executed fuel m, e.1.flips → e.2 ≠ .glyph) :
    Ends Anything (outlineRegime n Anything fun z => z.classifications = c).Holds
      (runFrom fuel m) := by
  induction fuel generalizing m with
  | zero =>
    by_cases hf : m.flow.finished
    · rw [runFrom_finished 0 hf]
      exact h
    · rw [runFrom_zero hf]
      exact ⟨trivial, h⟩
  | succ fuel ih =>
    by_cases hf : m.flow.finished
    · rw [runFrom_finished _ hf]
      exact h
    rw [executed, if_neg hf] at hx
    cases hn : Exec.onFlow FlowM.next m with
    | error e m₁ =>
      rw [runFrom_error hf (step_unread hn)]
      exact ⟨trivial, (Regime.control.next.error h hn).2⟩
    | ok b m₁ =>
      simp only [hn, List.mem_cons, forall_eq_or_imp] at hx
      obtain ⟨hb, hx⟩ := hx
      have hs := ends_execute (Regime.control.next.ok h hn).2 hb
      cases he : Exec.execute (.ofByte b) m₁ with
      | error e m₂ =>
        rw [runFrom_error hf ((step_read hn).trans (locate_of_error _ b he))]
        exact ⟨trivial, (hs.error he).2⟩
      | ok u m₂ =>
        rw [he] at hx
        rw [runFrom_step hf ((step_read hn).trans (locate_of_ok _ b he))]
        exact ih (hs.ok he) hx

end

end Machine

/-! ### Hinting -/

namespace Snapshot

variable {s : Snapshot} {o : Outline} {sc : Scratch}

/-- The instructions that are executed while a glyph is hinted. -/
def executed (s : Snapshot) (o : Outline) (sc? : Option Scratch) :
    List (Instruction × ZonePointer) :=
  match sc? with
  | none => []
  | some sc =>
    if h : o.isConsistent ∧ ¬o.bytecode.isEmpty ∧ sc.Fits s.sizes then
      Machine.executed Machine.budget ((s.machine o sc h.2.2).restart .glyph)
    else []

theorem holds_outline (hs : ∃ c : Configuration, c.outcome = .ok s) (ho : o.isConsistent)
    (hf : sc.Fits s.sizes) (glyph : Zone → Prop) (hz : glyph o.zone) :
    ∃ n, (Machine.outlineRegime n Anything glyph).Holds ((s.machine o sc hf).restart .glyph) := by
  obtain ⟨c, hc⟩ := hs
  have h := Configuration.holds_regime hc ho glyph hz hf
  exact ⟨_, h.initial, trivial, h.twilight, h.glyph⟩

/-- A glyph comes out as the run has left it, up to the phantom points. -/
theorem outline_ends {inv : Machine → Prop} (hc : Phantom.count ≤ o.scaled.size)
    (hf : sc.Fits s.sizes) (hb : ¬o.bytecode.isEmpty)
    (h : Ends Anything inv (Machine.run .glyph (s.machine o sc hf))) :
    ∃ m p, inv m ∧ (s.run o sc hc hf).outline = { m.outline o with phantom := p } := by
  unfold run
  dsimp only
  rw [if_neg hb]
  cases hx : Machine.run .glyph (s.machine { o with phantom := .ofEnd o.scaled hc } sc hf) with
  | error f m => exact ⟨m, _, (h.error hx).2, rfl⟩
  | ok u m =>
    have hm := h.ok hx
    dsimp only
    split
    · exact ⟨m, _, hm, rfl⟩
    · split <;> exact ⟨m, _, hm, rfl⟩

/-- A glyph is refused or has nothing to execute, and comes out as it is up to the phantom points,
or it is run. -/
theorem hint_cases (s : Snapshot) (o : Outline) (sc? : Option Scratch) :
    (∃ p, (s.hint o sc?).outline = { o with phantom := p }) ∨
    ∃ sc, ∃ hf : sc.Fits s.sizes, ∃ ho : o.isConsistent, sc? = some sc ∧ ¬o.bytecode.isEmpty ∧
      s.hint o sc? = s.run o sc (Outline.count_le_scaled ho) hf := by
  by_cases ho : o.isConsistent
  · cases sc? with
    | none =>
      rw [hint, dif_pos ho]
      exact .inl ⟨o.phantom, rfl⟩
    | some sc =>
      by_cases hf : sc.Fits s.sizes
      · by_cases hb : o.bytecode.isEmpty
        · rw [hint_eq_run ho hf, run]
          dsimp only
          rw [if_pos hb]
          exact .inl ⟨_, rfl⟩
        · exact .inr ⟨sc, hf, ho, rfl, hb, hint_eq_run ho hf⟩
      · rw [hint, dif_pos ho]
        dsimp only
        rw [dif_neg hf]
        exact .inl ⟨o.phantom, rfl⟩
  · rw [hint, dif_neg ho]
    exact .inl ⟨o.phantom, rfl⟩

theorem reference_hint (hs : ∃ c : Configuration, c.outcome = .ok s) (o : Outline)
    (sc? : Option Scratch) :
    (s.hint o sc?).outline.unscaled = o.unscaled ∧ (s.hint o sc?).outline.scaled = o.scaled ∧
      (s.hint o sc?).outline.contours = o.contours ∧
      (s.hint o sc?).outline.points.size = o.points.size ∧
      (s.hint o sc?).outline.flags.size = o.flags.size := by
  rcases hint_cases s o sc? with ⟨p, hp⟩ | ⟨sc, hf, ho, rfl, hb, hr⟩
  · rw [hp]
    exact ⟨rfl, rfl, rfl, rfl, rfl⟩
  obtain ⟨n, h₀⟩ := holds_outline hs ho hf (fun z => z.reference = o.zone.reference) rfl
  have hrun := (Machine.steady_reference n o.zone.reference).runFrom nofun Machine.budget h₀
  obtain ⟨m, p, hm, hout⟩ := outline_ends (Outline.count_le_scaled ho) hf hb (Ends.anything hrun)
  have hscaled : m.glyph.scaled = o.scaled := congrArg ReferenceOutline.scaled hm.glyph.2
  -- the zone had a place for each point at the start, and sizes do not change
  have hsize := h₀.glyph.1
  have hsize' := hm.glyph.1
  have hflags : o.zone.flags.size = o.flags.size := Array.size_map
  rw [hr, hout]
  refine ⟨rfl, hscaled, rfl, hsize'.points.trans hsize.points.symm, ?_⟩
  rw [← hflags]
  exact hsize'.flags.trans hsize.flags.symm

theorem classifications_hint (hs : ∃ c : Configuration, c.outcome = .ok s) (o : Outline)
    (sc? : Option Scratch) (hx : ∀ e ∈ s.executed o sc?, e.1.flips → e.2 ≠ .glyph) :
    (s.hint o sc?).outline.flags.map (·.classification) = o.flags.map (·.classification) := by
  rcases hint_cases s o sc? with ⟨p, hp⟩ | ⟨sc, hf, ho, rfl, hb, hr⟩
  · rw [hp]
  rw [executed, dif_pos ⟨ho, hb, hf⟩] at hx
  obtain ⟨n, h₀⟩ := holds_outline hs ho hf
    (fun z => z.classifications = o.zone.classifications) rfl
  obtain ⟨m, p, hm, hout⟩ :=
    outline_ends (Outline.count_le_scaled ho) hf hb (Machine.ends_runFrom h₀ hx)
  have hzone : o.zone.classifications = o.flags.map (·.classification) := by
    simp only [Outline.zone, Zone.clearHintingFlags, Zone.classifications, Array.map_map]
    congr 1
    funext f
    exact PointFlags.classification_diff (by decide) f
  rw [hr, hout, ← hzone]
  exact hm.glyph.2

theorem reference_hinting (hs : ∃ c : Configuration, c.outcome = .ok s) (ho : o.isConsistent)
    {m : Machine} (hm : s.Hinting o m) : m.glyph.reference = o.zone.reference := by
  obtain ⟨sc, hf, hocc⟩ := hm
  obtain ⟨n, h₀⟩ := holds_outline hs ho hf (fun z => z.reference = o.zone.reference) rfl
  exact ((Machine.steady_reference n _).occurs h₀ hocc).glyph.2

end Snapshot

/-- The instructions that are executed while an instance hints a glyph. -/
def Instance.executed (i : Instance) (o : Outline) (sc? : Option Scratch) :
    List (Instruction × ZonePointer) :=
  match i.snapshot with
  | none => []
  | some s => s.executed o sc?

namespace Session

/-- Whatever was requested before, and whether it succeeds or fails, hinting a glyph leaves the
reference of the glyph alone. Unless a flip is executed while zone pointer 0 is in the glyph zone,
points stay on or off the curve. The machine finds the reference of the glyph throughout. -/
theorem reference_kept (history : List Request) (o : Outline) (sc? : Option Scratch) :
    let hinted := (after history).current.hint o sc?
    (hinted.outline.scaled = o.scaled ∧ hinted.outline.unscaled = o.unscaled ∧
      hinted.outline.contours = o.contours) ∧
    (hinted.outline.points.size = o.points.size ∧ hinted.outline.flags.size = o.flags.size) ∧
    ((∀ e ∈ (after history).current.executed o sc?, e.1.flips → e.2 ≠ .glyph) →
      hinted.outline.flags.map (·.classification) = o.flags.map (·.classification)) ∧
    ∀ s ∈ (after history).current.snapshot, o.isConsistent → ∀ m, s.Hinting o m →
      m.glyph.scaled = o.scaled ∧ m.glyph.unscaled = o.unscaled.getD #[] ∧
        m.glyph.contours = o.contours := by
  have hc (s : Snapshot) (hs : (after history).current.snapshot = some s) := configured hs
  generalize (after history).current = i at hc ⊢
  obtain ⟨_ | s⟩ := i
  · exact ⟨⟨rfl, rfl, rfl⟩, ⟨rfl, rfl⟩, fun _ => rfl, fun _ hs => nomatch hs⟩
  have hc := hc s rfl
  obtain ⟨hu, hsc, hco, hp, hf⟩ := Snapshot.reference_hint hc o sc?
  refine ⟨⟨hsc, hu, hco⟩, ⟨hp, hf⟩, fun hx => ?_, fun s' hs' ho m hm => ?_⟩
  · exact Snapshot.classifications_hint hc o sc? hx
  · cases hs'
    have hr := Snapshot.reference_hinting hc ho hm
    exact ⟨congrArg ReferenceOutline.scaled hr, congrArg ReferenceOutline.unscaled hr,
      congrArg ReferenceOutline.contours hr⟩

-- A flip in the glyph zone takes its point off the curve, one in the twilight zone does not.
example :
    let i := (after [.configure smoothFont]).current
    let inGlyph := crossing #[0xb0, 4, 0x80]
    let inTwilight := crossing #[0xb1, 3, 0, 0x13, 0x80]
    i.executed inGlyph i.newScratch = [(.pushb 0, .glyph), (.flippt, .glyph)] ∧
      (i.hint inGlyph i.newScratch).outline.flags[4]? = some ⟨0⟩ ∧
      (.flippt, .twilight) ∈ i.executed inTwilight i.newScratch ∧
      (i.hint inTwilight i.newScratch).outline.flags = inTwilight.flags := by
  decide +kernel

end Session

end GridFit
