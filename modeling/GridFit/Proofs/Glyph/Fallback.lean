import GridFit.Proofs.Glyph.Flattening

/-!
# Glyphs whose program fails

The program of a compound glyph runs after those of its components, and the error that is kept is
that of the last program that failed. So the error of a loaded glyph names the glyph itself if and
only if its own program has failed, for a glyph is no component of its components
(`loadPiece_blames`).

A glyph whose own program fails has the outline of the glyph loaded without a hinter
(`load_fallback`), but not always at the same place. The origin that a component gives to it is that
of the hinted component, and it is not put back (`load_fallback_shifts`).
-/

namespace GridFit

/-! ### Whom an error names -/

/-- The error is that of the program of glyph `j`. -/
def HintError.Names (e : HintError) (j : UInt16) : Prop :=
  ∃ x, e = .failed x ∧ x.glyph = j.toUInt32

theorem HintError.Names.unique {e : HintError} {j k : UInt16} (hj : e.Names j) (hk : e.Names k) :
    j = k := by
  obtain ⟨x, rfl, hx⟩ := hj
  obtain ⟨y, hy, hk⟩ := hk
  cases hy
  exact UInt16.toUInt32_inj.1 (hx.symm.trans hk)

namespace Snapshot

variable {s : Snapshot} {o : Outline} {e : HintError}

theorem run_error {sc : Scratch} {hc : Phantom.count ≤ o.scaled.size} {hf : sc.Fits s.sizes}
    (h : (s.run o sc hc hf).error = some e) : ∃ x, e = .failed x ∧ x.glyph = o.glyph := by
  unfold Snapshot.run at h
  dsimp only at h
  split at h
  · cases h
  split at h
  · split at h
    · cases h
    · split at h <;> cases h
      exact ⟨_, rfl, rfl⟩
  · cases h
    exact ⟨_, rfl, rfl⟩

theorem hint_error {sc? : Option Scratch} (h : (s.hint o sc?).error = some e) :
    ∃ x, e = .failed x ∧ x.glyph = o.glyph := by
  unfold Snapshot.hint at h
  dsimp only at h
  split at h
  · split at h
    · cases h
      exact ⟨_, rfl, rfl⟩
    · split at h
      · exact run_error h
      · cases h
        exact ⟨_, rfl, rfl⟩
  · cases h
    exact ⟨_, rfl, rfl⟩

end Snapshot

/-- Some component of glyph `i` gives its metrics to it. -/
def Font.TakesMetrics (f : Font) (i : UInt16) : Prop :=
  ∃ r g, f.record i = .ok r ∧ r.shape = .compound g ∧ ∃ c ∈ g.components, c.givesMetrics

namespace Glyph

variable {ctx : Context} {d : Draft} {i : UInt16} {t : Placing} {s s' s₁ : Progress} {p : Piece}
  {depth : Nat} {offset : Point} {rounds : Bool}

theorem hint_names {inst : Instance} (hi : inst.Configured) {program : Bytes} {composite : Bool}
    {c : Contours} {rounded : Array GlyphPoint} {sc? : Option Scratch} {e : HintError}
    (h : (inst.hint (outline i program composite c rounded) sc?).error = some e) : e.Names i := by
  obtain ⟨snap, hsnap, -⟩ := hi
  rw [Instance.hint, hsnap] at h
  exact Snapshot.hint_error h

/-! ### Finishing a glyph whose program fails -/

def Draft.unhint (d : Draft) : Draft := { d with body := d.body.unhint }

def Context.unhinted (ctx : Context) : Context := { ctx with hinting := none }

theorem Context.Valid.unhinted (hv : ctx.Valid) : ctx.unhinted.Valid :=
  ⟨hv.font, fun _ h => absurd h (Option.not_mem_none _)⟩

/-- The error of a finished glyph is the one from before, or its own program has failed and the glyph
is as without hinting. -/
theorem finish_error (hv : ctx.Valid) (h : d.finish ctx i t s = .ok p s') :
    s'.hintError = s.hintError ∨
      (∃ e, s'.hintError = some e ∧ e.Names i) ∧
        ∀ s₂, d.unhint.finish ctx.unhinted i t s₂ = .ok p s₂ := by
  obtain ⟨m, c, start, stop, hm, hc, hstart, hstop, rfl⟩ := finish_ok h
  obtain ⟨-, rfl⟩ | ⟨inst, hinst, hi⟩ := hintWith_ok hc
  · exact .inl rfl
  obtain ⟨rounded, -, ⟨-, he, -⟩ | ⟨e, herr, he, rfl⟩⟩ := hint_ok hi
  · exact .inl he
  · refine .inr ⟨⟨e, he, hint_names (hv.hinting inst hinst) herr⟩, fun s₂ => ?_⟩
    rw [unhint_withPhantoms] at hstart hstop ⊢
    have hsize : d.unhint.body.points.size = d.body.points.size := d.body.size_unhinted
    rw [← hsize] at hstart hstop
    exact (bind_ofFont hm _ s₂).trans <| (bind_ofFont hstart _ s₂).trans (bind_ofFont hstop _ s₂)

/-- Only the origin of a glyph depends on the origin that a component gives to it. -/
theorem finish_origin {d' : Draft} {p' : Piece} {s₂ s₂' : Progress} (hn : ctx.hinting = none)
    (h : d.finish ctx i t s = .ok p s') (h' : d'.finish ctx i t s₂ = .ok p' s₂')
    (hd : d' = { d with origin? := d'.origin? }) :
    p' = { p with origin := p'.origin } ∧ (d'.origin? = d.origin? → p' = p) := by
  obtain ⟨m, c, start, stop, hm, hc, hstart, hstop, rfl⟩ := finish_ok h
  obtain ⟨m', c', start', stop', hm', hc', hstart', hstop', rfl⟩ := finish_ok h'
  have hbody : d'.body = d.body := by rw [hd]
  have hbounds : d'.bounds = d.bounds := by rw [hd]
  cases hm.symm.trans hm'
  rw [hn] at hc hc'
  cases hc
  cases hc'
  have hwith : d'.withPhantoms t m = d.withPhantoms t m := by
    rw [Draft.withPhantoms, Draft.withPhantoms, hbody, hbounds]
  rw [hwith, hbody] at hstart' hstop'
  cases hstart.symm.trans hstart'
  cases hstop.symm.trans hstop'
  rw [hwith, hbounds]
  exact ⟨rfl, fun ho => by rw [ho]⟩

/-! ### Errors of the programs of components -/

/-- Between `s` and `s'` no program has failed, or the error is now that of a glyph in `glyphs`. -/
def Blames (s s' : Progress) (glyphs : UInt16 → Prop) : Prop :=
  s'.hintError = s.hintError ∨ ∃ e j, s'.hintError = some e ∧ e.Names j ∧ glyphs j

theorem Blames.trans {glyphs : UInt16 → Prop} (h : Blames s s₁ glyphs) (h' : Blames s₁ s' glyphs) :
    Blames s s' glyphs := by
  rcases h' with h' | h'
  · rcases h with h | ⟨e, j, h, hj⟩
    · exact .inl (h'.trans h)
    · exact .inr ⟨e, j, h'.trans h, hj⟩
  · exact .inr h'

theorem Blames.mono {glyphs glyphs' : UInt16 → Prop} (h : Blames s s' glyphs)
    (hm : ∀ j, glyphs j → glyphs' j) : Blames s s' glyphs' :=
  h.imp_right fun ⟨e, j, he, hj, hg⟩ => ⟨e, j, he, hj, hm j hg⟩

open Relation (ReflTransGen TransGen)

/-- While a glyph is put together, only the programs of glyphs that it reaches through components
run. -/
theorem Assembled.blames (ha : Assembled ctx depth i offset rounds s d s₁)
    (hp : ∀ j offset rounds s p s', loadPiece ctx depth j offset rounds s = .ok p s' →
      Blames s s' (ReflTransGen ctx.font.HasComponent j)) :
    Blames s s₁ (TransGen ctx.font.HasComponent i) := by
  cases ha with
  | simple _ _ => exact .inl rfl
  | @compound r g _ pieces _ hr hg hmap hl _ =>
    have hc : ∀ q ∈ pieces, ctx.font.HasComponent i q.1.glyph := fun q hq =>
      Font.hasComponent_iff.2 ⟨r, g, hr, hg, q.1, hmap ▸ List.mem_map_of_mem hq, rfl⟩
    clear hmap
    induction hl with
    | nil s => exact .inl rfl
    | cons hpiece _ ih =>
      refine .trans ?_ (ih fun q hq => hc q (by simp [hq]))
      exact (hp _ _ _ _ _ _ hpiece).mono fun j hj => .head' (hc _ List.mem_cons_self) hj

theorem loadPiece_blames (hv : ctx.Valid) (h : loadPiece ctx depth i offset rounds s = .ok p s') :
    Blames s s' (ReflTransGen ctx.font.HasComponent i) := by
  induction depth generalizing i offset rounds s p s' with
  | zero => cases h
  | succ depth ih =>
    obtain ⟨d, s₁, ha, hd⟩ := loadPiece_ok h
    refine (ha.blames fun _ _ _ _ _ _ hp => ih hp).mono (fun _ hj => hj.to_reflTransGen) |>.trans ?_
    rcases finish_error hv hd with he | ⟨⟨e, he, hi⟩, -⟩
    · exact .inl he
    · exact .inr ⟨e, i, he, hi, .refl⟩

/-! ### Whole glyphs -/

theorem Assembled.alike {ctx' : Context} {d' : Draft} {s₂ s₂' : Progress} {depth' : Nat}
    (ha : Assembled ctx depth i offset rounds s d s₁)
    (ha' : Assembled ctx' depth' i offset rounds s₂ d' s₂') (hf : ctx'.font = ctx.font) :
    d'.bounds = d.bounds ∧ d'.program = d.program ∧ d'.composite = d.composite := by
  cases ha with
  | simple hr hg =>
    cases ha' with
    | simple hr' hg' =>
      rw [hf] at hr'
      cases hr.symm.trans hr'
      cases hg.symm.trans hg'
      exact ⟨rfl, rfl, rfl⟩
    | compound hr' hg' =>
      rw [hf] at hr'
      cases hr.symm.trans hr'
      cases hg.symm.trans hg'
  | compound hr hg _ _ hrest =>
    cases ha' with
    | simple hr' hg' =>
      rw [hf] at hr'
      cases hr.symm.trans hr'
      cases hg.symm.trans hg'
    | compound hr' hg' _ _ hrest' =>
      rw [hf] at hr'
      cases hr.symm.trans hr'
      cases hg.symm.trans hg'
      cases hrest.symm.trans hrest'
      exact ⟨rfl, rfl, rfl⟩

theorem metricsOrigin_none {pieces : List (Component × Piece)}
    (h : ∀ q ∈ pieces, q.1.givesMetrics = false) : metricsOrigin pieces = none := by
  unfold metricsOrigin
  induction pieces with
  | nil => rfl
  | cons q pieces ih =>
    obtain ⟨c, p⟩ := q
    have hc : c.givesMetrics = false := h (c, p) List.mem_cons_self
    rw [List.foldl_cons]
    simp only [hc, Bool.false_eq_true, if_false]
    exact ih fun q hq => h q (List.mem_cons_of_mem _ hq)

theorem Assembled.origin_none (ha : Assembled ctx depth i offset rounds s d s₁)
    (hm : ¬ctx.font.TakesMetrics i) : d.origin? = none := by
  cases ha with
  | simple _ _ => rfl
  | compound hr hg hmap _ _ =>
    refine metricsOrigin_none fun q hq => ?_
    rw [Bool.eq_false_iff]
    intro hgives
    exact hm ⟨_, _, hr, hg, q.1, hmap ▸ List.mem_map_of_mem hq, hgives⟩

theorem shiftOrigin_shiftOrigin (c : Contours) (a b : Int32) :
    shiftOrigin (shiftOrigin c a) b = shiftOrigin c (a + b) := by
  have hmove : ∀ x : Int32, x - a - b = x - (a + b) := fun x => by
    rw [Int32.sub_sub]
  refine Contours.eq_of_parts ?_ ?_ rfl rfl
  all_goals
    simp only [shiftOrigin, Array.map_map, Function.comp_def, hmove]

theorem ofPiece_withOrigin (factor : Int32) (p : Piece) (origin : Int32)
    (hintError hintError' : Option HintError) :
    ofPiece factor { p with origin } hintError' =
      { ofPiece factor p hintError with
        contours := shiftOrigin (ofPiece factor p hintError).contours (origin - p.origin)
        hintError := hintError' } := by
  have ho : p.origin + (origin - p.origin) = origin := by
    rw [Int32.add_comm, Int32.sub_add_cancel]
  simp only [ofPiece, shiftOrigin_shiftOrigin, ho]

variable {f : Font} {scale : Int32} {hinter? : Option Hinter} {g : Glyph}

/-- A piece whose own program fails is the one loaded without hinting, but for its origin. -/
theorem loadPiece_failed {n : Nat} (hv : ctx.Valid) (hs : s.hintError = none)
    (h : loadPiece ctx (n + 1) i offset rounds s = .ok p s') (hfail : ∃ e ∈ s'.hintError, e.Names i)
    (s₂ : Progress) :
    ∃ p', loadPiece ctx.unhinted (n + 1) i offset rounds s₂ = .ok p' s₂ ∧
      p' = { p with origin := p'.origin } ∧ (¬ctx.font.TakesMetrics i → p' = p) := by
  obtain ⟨t, ht, hc⟩ := loadPiece_tree h
  obtain ⟨d, s₁, ha, hd⟩ := loadPiece_ok h
  -- No component of the glyph is the glyph itself, so it is its own program that has failed.
  have hown : d.unhint.finish ctx.unhinted i ⟨ctx.factor, offset, rounds⟩ s₂ = .ok p s₂ := by
    rcases finish_error hv hd with he | ⟨-, hown⟩
    · exfalso
      obtain ⟨e, hge, hi⟩ := hfail
      rcases ha.blames fun _ _ _ _ _ _ hp => loadPiece_blames hv hp with hnone | ⟨e', j, he', hj, hij⟩
      · cases (he.trans (hnone.trans hs)).symm.trans hge
      · cases (he.trans he').symm.trans hge
        cases hi.unique hj
        exact ht.acyclic hij
    · exact hown s₂
  obtain ⟨p', s₂', hp'⟩ := loadPiece_of_tree hv.unhinted ht offset rounds s₂
  obtain ⟨hself, rfl⟩ := loadPiece_none rfl hp'
  obtain ⟨t', ht', hc'⟩ := loadPiece_tree hp'
  cases ht'.unique ht
  obtain ⟨d', s₁', ha', hd'⟩ := loadPiece_ok hp'
  obtain ⟨hbounds, hprogram, hcomposite⟩ := ha.alike ha' rfl
  have hbody : d'.body = d.body.unhint :=
    calc d'.body = p'.contours := (finish_none rfl hd').1.symm
      _ = p'.contours.unhint := hself.symm
      _ = p.contours.unhint := hc'.trans hc.symm
      _ = d.body.unhint := (finish_unhint hd).1
  have hdraft : d' = { d.unhint with origin? := d'.origin? } := by
    cases d'
    cases hbounds
    cases hprogram
    cases hcomposite
    cases hbody
    rfl
  obtain ⟨ho, hsame⟩ := finish_origin rfl hown hd' hdraft
  refine ⟨p', hp', ho, fun hm => hsame ?_⟩
  rw [ha'.origin_none hm]
  exact (ha.origin_none hm).symm

/-- A glyph whose own program fails is the one loaded without a hinter, up to a distance by which it
is moved. Only a component that gives its metrics can cause such a distance. -/
theorem load_fallback {file : Bytes} (hf : Font.parse file = .ok f) (hu : ∀ h ∈ hinter?, h.Used)
    (hl : (load f scale i hinter?).1 = .ok g) (hfail : ∃ e ∈ g.hintError, e.Names i) :
    (∃ distance, (load f scale i none).1 =
        .ok { g with contours := shiftOrigin g.contours distance, hintError := none }) ∧
      (¬f.TakesMetrics i → (load f scale i none).1 = .ok { g with hintError := none }) := by
  have hv := contextFor_valid ((Font.ample_parse file).ok hf) scale fun h hm => (hu h hm).sound
  obtain ⟨p, s', hp, rfl⟩ := load_ok.1 hl
  obtain ⟨p', hp', ho, hsame⟩ := loadPiece_failed hv rfl hp hfail (progressFor f scale none)
  have hl' : (load f scale i none).1 = .ok (ofPiece (contextFor f scale none).factor p' none) :=
    load_ok.2 ⟨p', _, hp', rfl⟩
  refine ⟨⟨p'.origin - p.origin, ?_⟩, fun hm => ?_⟩
  · rw [hl', ho]
    exact congrArg Except.ok (ofPiece_withOrigin ..)
  · rw [hl', hsame hm]
    rfl

/-! ### An example -/

/-- The error of the program of the two triangles, which pops an empty stack. -/
def pairError : HintError :=
  .failed { program := .glyph, glyph := 2, pc := 0, opcode := 0x21, fault := .stackUnderflow }

theorem names_pairError : pairError.Names 2 := ⟨_, rfl, rfl⟩

/-- Where the first point of a glyph is. -/
def startX (g : Glyph) : Option Int32 := g.contours.points[0]?.map (·.x)

/-- With a hinter the two triangles start at 10, as in font units, and without one at 0. -/
theorem load_pair : ∃ f g g', Font.parse Font.triangles = .ok f ∧
    (load f 1024 2 (some { mode := {} })).1 = .ok g ∧ (load f 1024 2 none).1 = .ok g' ∧
    g.hintError = some pairError ∧ g.startX = some 10 ∧ g'.startX = some 0 := by
  have hhinted : (loadFrom Font.triangles 1024 2 (some { mode := {} })).toOption.any fun g =>
      g.hintError = some pairError ∧ g.startX = some 10 := by
    decide +kernel
  have hplain : (loadFrom Font.triangles 1024 2 none).toOption.any fun g => g.startX = some 0 := by
    decide +kernel
  obtain ⟨f, g, hf, hg, hgood⟩ := exists_of_loadFrom hhinted
  obtain ⟨f', g', hf', hg', hgood'⟩ := exists_of_loadFrom hplain
  cases hf.symm.trans hf'
  obtain ⟨he, hx⟩ := of_decide_eq_true hgood
  exact ⟨f, g, g', hf, hg, hg', he, hx, of_decide_eq_true hgood'⟩

theorem load_fallback_pair : ∃ f g, Font.parse Font.triangles = .ok f ∧
    (load f 1024 2 (some { mode := {} })).1 = .ok g ∧ (∃ e ∈ g.hintError, e.Names 2) ∧
    ∃ distance, (load f 1024 2 none).1 =
      .ok { g with contours := shiftOrigin g.contours distance, hintError := none } := by
  obtain ⟨f, g, -, hf, hg, -, he, -⟩ := load_pair
  have hu : ∀ h ∈ some ({ mode := {} } : Hinter), h.Used := by
    intro h hm
    cases hm
    exact .new {}
  have hfail : ∃ e ∈ g.hintError, e.Names 2 := ⟨pairError, he, names_pairError⟩
  exact ⟨f, g, hf, hg, hfail, (load_fallback hf hu hg hfail).1⟩

/-- The distance need not be zero: the outline after the failure is not the unhinted one. -/
theorem load_fallback_shifts : ∃ f g g', Font.parse Font.triangles = .ok f ∧
    (load f 1024 2 (some { mode := {} })).1 = .ok g ∧ (∃ e ∈ g.hintError, e.Names 2) ∧
    (load f 1024 2 none).1 = .ok g' ∧ g.contours.points ≠ g'.contours.points := by
  obtain ⟨f, g, g', hf, hg, hg', he, hx, hx'⟩ := load_pair
  refine ⟨f, g, g', hf, hg, ⟨pairError, he, names_pairError⟩, hg', fun hp => ?_⟩
  rw [startX, hp, ← startX, hx'] at hx
  cases hx

end Glyph

end GridFit
