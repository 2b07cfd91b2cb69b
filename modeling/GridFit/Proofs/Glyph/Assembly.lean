import GridFit.Proofs.Glyph.Loading
import GridFit.Proofs.Glyph.Tree

/-!
# How a glyph is put together

Loading a glyph goes in two steps. First its contours are brought together: those of a simple glyph,
or those of the components of a compound one, each loaded before the next (`Assembled`). Then the
glyph is finished: it gets its phantom points, its program runs, and its metrics are taken from the
phantom points. The lemmas of this module say what each step does when it succeeds, so that results
about loaded glyphs need not look into the definitions.
-/

namespace GridFit.Glyph

variable {ctx : Context} {inst : Instance} {i : UInt16} {program : Bytes} {composite : Bool}
  {c c' : Contours} {s s' s₁ s₂ : Progress}

theorem bind_ofFont {α β : Type} {x : FontM α} {a : α} (h : x = .ok a) (g : α → LoadM β)
    (s : Progress) : (ofFont x >>= g) s = g a s := by
  subst h
  rfl

theorem exists_of_bind_ofFont {α β : Type} {x : FontM α} {g : α → LoadM β} {b : β}
    (h : (ofFont x >>= g) s = .ok b s') : ∃ a, x = .ok a ∧ g a s = .ok b s' := by
  cases x with
  | ok a => exact ⟨a, rfl, h⟩
  | error e => cases h

/-! ### Hinting -/

/-- The program of a glyph either hints its points or fails, and then they are the unhinted ones. -/
theorem hint_ok (h : hint inst i program composite c s = .ok c' s') :
    ∃ rounded, roundPhantoms c.points = .ok rounded ∧
      ((inst.hint (outline i program composite c rounded) s.scratch).error = none ∧
          s'.hintError = s.hintError ∧ c'.unhint = c.unhint ∨
        ∃ e, (inst.hint (outline i program composite c rounded) s.scratch).error = some e ∧
          s'.hintError = some e ∧ c' = c.unhint) := by
  unfold hint at h
  obtain ⟨rounded, hrounded, hrest⟩ := exists_of_bind_ofFont h
  refine ⟨rounded, hrounded, ?_⟩
  obtain ⟨_, _, hget, hmatch⟩ := exists_of_bind_ok hrest
  cases hget
  dsimp only at hmatch
  cases he : (inst.hint (outline i program composite c rounded) s.scratch).error with
  | some e =>
    rw [he] at hmatch
    cases hmatch
    exact .inr ⟨e, rfl, rfl, rfl⟩
  | none =>
    rw [he] at hmatch
    obtain ⟨_, _, hmodify, htake⟩ := exists_of_bind_ok hmatch
    cases hmodify
    obtain ⟨⟨points, hp⟩, -, hpure⟩ := exists_of_bind_ofFont htake
    cases hpure
    exact .inl ⟨rfl, rfl, rfl⟩

theorem hint_exists (hi : inst.Configured) (i : UInt16) (program : Bytes) (composite : Bool)
    (h : Phantom.count ≤ c.points.size) (s : Progress) :
    ∃ c' s', hint inst i program composite c s = .ok c' s' := by
  obtain ⟨snap, hs, cfg, hc⟩ := hi
  obtain ⟨rounded, hr⟩ := (roundPhantoms_surely h).exists_ok
  have hsize := (roundPhantoms_surely h).ok hr
  have ho := isConsistent_outline i program composite h hsize
  have hh := Configuration.size_hint hc ho s.scratch
  have hinst : inst.hint (outline i program composite c rounded) s.scratch =
      snap.hint (outline i program composite c rounded) s.scratch := by
    rw [Instance.hint, hs]
  rw [size_outline i program composite hsize, ← hinst] at hh
  obtain ⟨⟨points, hp⟩, hpoints⟩ := (hintedPoints_surely h hh.1 hh.2).exists_ok
  unfold hint
  rw [bind_ofFont hr, bind_of_ok (x := get) rfl]
  dsimp only
  cases (inst.hint (outline i program composite c rounded) s.scratch).error with
  | some e => exact ⟨_, _, rfl⟩
  | none =>
    dsimp only
    rw [bind_of_ok (x := modify _) rfl, bind_ofFont hpoints]
    exact ⟨_, _, rfl⟩

theorem hintWith_ok {hinting : Option Instance}
    (h : hintWith hinting i program composite c s = .ok c' s') :
    (c' = c ∧ s' = s) ∨ ∃ inst ∈ hinting, hint inst i program composite c s = .ok c' s' := by
  unfold hintWith at h
  cases hinting with
  | none =>
    cases h
    exact .inl ⟨rfl, rfl⟩
  | some inst =>
    dsimp only at h
    split at h
    · cases h
      exact .inl ⟨rfl, rfl⟩
    · exact .inr ⟨inst, rfl, h⟩

theorem hintWith_unhint {hinting : Option Instance}
    (h : hintWith hinting i program composite c s = .ok c' s') : c'.unhint = c.unhint := by
  obtain ⟨rfl, -⟩ | ⟨inst, -, hi⟩ := hintWith_ok h
  · rfl
  · obtain ⟨_, -, ⟨-, -, he⟩ | ⟨_, -, -, rfl⟩⟩ := hint_ok hi
    · exact he
    · rfl

theorem hintWith_exists {hinting : Option Instance} (hi : ∀ inst ∈ hinting, inst.Configured)
    (i : UInt16) (program : Bytes) (composite : Bool) (h : Phantom.count ≤ c.points.size)
    (s : Progress) : ∃ c' s', hintWith hinting i program composite c s = .ok c' s' := by
  cases hinting with
  | none => exact ⟨c, s, rfl⟩
  | some inst =>
    unfold hintWith
    dsimp only
    split
    · exact ⟨c, s, rfl⟩
    · exact hint_exists (hi inst rfl) i program composite h s

/-! ### Finishing a glyph -/

/-- What is known of a glyph when its contours have been brought together. -/
structure Draft where
  bounds : Bounds
  body : Contours
  program : Bytes
  composite : Bool
  /-- The origin of the component that gives its metrics. -/
  origin? : Option Int32

/-- The contours of a draft with the phantom points after them. -/
def Draft.withPhantoms (d : Draft) (t : Placing) (m : HMetric) : Contours :=
  d.body.append (t.contours (phantoms d.bounds m) #[])

/-- Finishes the glyph `i` of which `d` is the draft. -/
def Draft.finish (d : Draft) (ctx : Context) (i : UInt16) (t : Placing) : LoadM Piece :=
  Glyph.finish ctx i d.bounds t d.body d.program d.composite d.origin?

variable {d : Draft} {t : Placing} {p : Piece}

theorem dropPhantoms_append (body : Contours) (t : Placing) (b : Bounds) (m : HMetric) :
    dropPhantoms (body.append (t.contours (phantoms b m) #[])) = body := by
  have hsize : (body.append (t.contours (phantoms b m) #[])).points.size - Phantom.count =
      body.points.size := by
    rw [size_append_phantoms, Nat.add_sub_cancel]
  refine Contours.eq_of_parts ?_ ?_ ?_ ?_
  · show Array.extract (body.points ++ _) 0 _ = _
    rw [hsize, Array.extract_append_left, Array.extract_size]
  · show Array.extract (body.unhinted ++ _) 0 _ = _
    rw [hsize, ← body.size_unhinted, Array.extract_append_left, Array.extract_size]
  · show Array.extract (body.units ++ _) 0 _ = _
    rw [hsize, ← body.size_units, Array.extract_append_left, Array.extract_size]
  · show body.ends ++ #[].map _ = _
    simp

/-- A finished glyph has the contours of its draft, and its metrics are taken from the phantom
points. -/
theorem finish_ok (h : d.finish ctx i t s = .ok p s') :
    ∃ m c start stop, ctx.font.hmetric i = .ok m ∧
      hintWith ctx.hinting i d.program d.composite (d.withPhantoms t m) s = .ok c s' ∧
      FontM.elementAt c.points d.body.points.size = .ok start ∧
      FontM.elementAt c.points (d.body.points.size + 1) = .ok stop ∧
      p = { contours := dropPhantoms c, origin := d.origin?.getD (start.x - t.scaledOffset.x)
            advance := stop.x - start.x, bounds := d.bounds } := by
  obtain ⟨m, hm, h₁⟩ := exists_of_bind_ofFont h
  obtain ⟨c, s₁, hc, h₂⟩ := exists_of_bind_ok h₁
  obtain ⟨start, hstart, h₃⟩ := exists_of_bind_ofFont h₂
  obtain ⟨stop, hstop, h₄⟩ := exists_of_bind_ofFont h₃
  cases h₄
  exact ⟨m, c, start, stop, hm, hc, hstart, hstop, rfl⟩

theorem unhint_dropPhantoms (c : Contours) : (dropPhantoms c).unhint = dropPhantoms c.unhint := by
  refine Contours.eq_of_parts ?_ ?_ ?_ rfl
  all_goals
    simp only [dropPhantoms, Contours.unhint, Contours.withPoints, c.size_unhinted]

theorem unhint_withPhantoms (d : Draft) (t : Placing) (m : HMetric) :
    (d.withPhantoms t m).unhint = d.body.unhint.append (t.contours (phantoms d.bounds m) #[]) :=
  Contours.unhint_append ..

/-- Whatever its program does, a finished glyph has the contours of its draft before hinting. -/
theorem finish_unhint (h : d.finish ctx i t s = .ok p s') :
    p.contours.unhint = d.body.unhint ∧ p.bounds = d.bounds := by
  obtain ⟨m, c, start, stop, -, hc, -, -, rfl⟩ := finish_ok h
  refine ⟨?_, rfl⟩
  rw [unhint_dropPhantoms, hintWith_unhint hc, unhint_withPhantoms, dropPhantoms_append]

/-- Without hinting, a finished glyph is as its draft. -/
theorem finish_none (hn : ctx.hinting = none) (h : d.finish ctx i t s = .ok p s') :
    p.contours = d.body ∧ s' = s := by
  obtain ⟨m, c, start, stop, -, hc, -, -, rfl⟩ := finish_ok h
  rw [hn] at hc
  cases hc
  exact ⟨dropPhantoms_append .., rfl⟩

theorem finish_exists (hv : ctx.Valid) (d : Draft) (i : UInt16) (t : Placing) (s : Progress) :
    ∃ p s', d.finish ctx i t s = .ok p s' := by
  obtain ⟨m, hm⟩ := (hv.font.hmetric_surely i).exists_ok
  have hsize : (d.withPhantoms t m).points.size = d.body.points.size + Phantom.count :=
    size_append_phantoms d.body t d.bounds m
  have hcount : Phantom.count ≤ (d.withPhantoms t m).points.size := by omega
  obtain ⟨c, s', hc⟩ := hintWith_exists hv.hinting i d.program d.composite hcount s
  have hn : c.points.size = d.body.points.size + 4 :=
    (Contours.size_of_unhint (hintWith_unhint hc)).trans hsize
  obtain ⟨start, hstart⟩ := (yields_elementAt (a := c.points) (i := d.body.points.size) (by omega) :
    Surely _ _).exists_ok
  obtain ⟨stop, hstop⟩ := (yields_elementAt (a := c.points) (i := d.body.points.size + 1) (by omega) :
    Surely _ _).exists_ok
  exact ⟨_, s', (bind_ofFont hm _ s).trans <| (bind_of_ok hc).trans <|
    (bind_ofFont hstart _ s').trans (bind_ofFont hstop _ s')⟩

/-! ### Components -/

/-- The components of a compound glyph have been loaded one after the other. -/
inductive ComponentsLoaded (ctx : Context) (depth : Nat) (offset : Point) :
    Progress → List (Component × Piece) → Progress → Prop
  | nil (s : Progress) : ComponentsLoaded ctx depth offset s [] s
  | cons {s s₁ s₂ : Progress} {c : Component} {p : Piece} {pieces : List (Component × Piece)} :
      loadPiece ctx depth c.glyph (offset + c.offset) c.roundsOffset s = .ok p s₁ →
      ComponentsLoaded ctx depth offset s₁ pieces s₂ →
      ComponentsLoaded ctx depth offset s ((c, p) :: pieces) s₂

def loadComponent (ctx : Context) (depth : Nat) (offset : Point) (c : Component) :
    LoadM (Component × Piece) := do
  return (c, ← loadPiece ctx depth c.glyph (offset + c.offset) c.roundsOffset)

/-- Loads components one after the other. -/
def loadComponents (ctx : Context) (depth : Nat) (offset : Point) (components : List Component) :
    LoadM (List (Component × Piece)) :=
  components.mapM (loadComponent ctx depth offset)

variable {depth : Nat} {offset : Point} {rounds : Bool}

theorem loadComponents_ok {components : List Component} {pieces : List (Component × Piece)} :
    loadComponents ctx depth offset components s = .ok pieces s' ↔
      pieces.map (·.1) = components ∧ ComponentsLoaded ctx depth offset s pieces s' := by
  induction components generalizing s pieces with
  | nil =>
    refine ⟨fun h => ?_, fun ⟨hmap, hl⟩ => ?_⟩
    · cases h
      exact ⟨rfl, .nil _⟩
    · cases List.map_eq_nil_iff.1 hmap
      cases hl
      rfl
  | cons c components ih =>
    rw [loadComponents, List.mapM_cons]
    refine ⟨fun h => ?_, fun ⟨hmap, hl⟩ => ?_⟩
    · obtain ⟨q, s₁, hq, h₁⟩ := exists_of_bind_ok h
      obtain ⟨p, s₁', hp, h₂⟩ := exists_of_bind_ok hq
      cases h₂
      obtain ⟨rest, s₂, hrest, h₃⟩ := exists_of_bind_ok h₁
      cases h₃
      obtain ⟨hmap, hl⟩ := ih.1 hrest
      exact ⟨congrArg (c :: ·) hmap, .cons hp hl⟩
    · cases hl with
      | nil => cases hmap
      | cons hp hl =>
        obtain ⟨rfl, htail⟩ := List.cons.inj hmap
        have hc : loadComponent ctx depth offset _ s = .ok _ _ := bind_of_ok hp
        exact (bind_of_ok hc).trans (bind_of_ok (ih.2 ⟨htail, hl⟩))

theorem ComponentsLoaded.mem {pieces : List (Component × Piece)}
    (hl : ComponentsLoaded ctx depth offset s pieces s') {q : Component × Piece} (hq : q ∈ pieces) :
    ∃ s₁ s₂,
      loadPiece ctx depth q.1.glyph (offset + q.1.offset) q.1.roundsOffset s₁ = .ok q.2 s₂ := by
  induction hl with
  | nil s => cases hq
  | cons hp _ ih =>
    rcases List.mem_cons.1 hq with rfl | hq
    · exact ⟨_, _, hp⟩
    · exact ih hq

theorem ComponentsLoaded.exists {components : List Component} (s : Progress)
    (h : ∀ c ∈ components, ∀ s, ∃ p s',
      loadPiece ctx depth c.glyph (offset + c.offset) c.roundsOffset s = .ok p s') :
    ∃ pieces s', pieces.map (·.1) = components ∧ ComponentsLoaded ctx depth offset s pieces s' := by
  induction components generalizing s with
  | nil => exact ⟨[], s, rfl, .nil s⟩
  | cons c components ih =>
    obtain ⟨p, s₁, hp⟩ := h c (by simp) s
    obtain ⟨pieces, s₂, hmap, hl⟩ := ih s₁ fun c' hc' => h c' (by simp [hc'])
    exact ⟨(c, p) :: pieces, s₂, congrArg (c :: ·) hmap, .cons hp hl⟩

/-- The contours of glyph `i` have been brought together, down to a depth of `depth`. -/
inductive Assembled (ctx : Context) (depth : Nat) (i : UInt16) (offset : Point) (rounds : Bool)
    (s : Progress) : Draft → Progress → Prop
  | simple {r : GlyphRecord} {g : SimpleGlyph} : ctx.font.record i = .ok r → r.shape = .simple g →
      Assembled ctx depth i offset rounds s
        ⟨r.bounds, Placing.contours ⟨ctx.factor, offset, rounds⟩ g.points g.ends, g.program, false,
          none⟩ s
  | compound {r : GlyphRecord} {g : Compound} {program : Bytes} {pieces : List (Component × Piece)}
      {s₁ : Progress} : ctx.font.record i = .ok r → r.shape = .compound g →
      pieces.map (·.1) = g.components → ComponentsLoaded ctx depth offset s pieces s₁ →
      g.rest = .ok program →
      Assembled ctx depth i offset rounds s
        ⟨r.bounds, .join (pieces.map (·.2.contours)), program, true, metricsOrigin pieces⟩ s₁

/-- Loads glyph `i` once it has been read. -/
def loadRecord (ctx : Context) (depth : Nat) (i : UInt16) (offset : Point) (rounds : Bool)
    (r : GlyphRecord) : LoadM Piece :=
  let t : Placing := ⟨ctx.factor, offset, rounds⟩
  match r.shape with
  | .simple g => Draft.finish ⟨r.bounds, t.contours g.points g.ends, g.program, false, none⟩ ctx i t
  | .compound g => do
    let pieces ← loadComponents ctx depth offset g.components
    let program ← ofFont g.rest
    Draft.finish ⟨r.bounds, .join (pieces.map (·.2.contours)), program, true, metricsOrigin pieces⟩
      ctx i t

theorem loadPiece_succ (ctx : Context) (depth : Nat) (i : UInt16) (offset : Point) (rounds : Bool) :
    loadPiece ctx (depth + 1) i offset rounds =
      ofFont (ctx.font.record i) >>= loadRecord ctx depth i offset rounds := by
  have hjoin : ∀ pieces : List (Component × Piece),
      pieces.foldl (fun a q => a.append q.2.contours) {} =
        Contours.join (pieces.map (·.2.contours)) :=
    fun pieces => by rw [← List.foldl_map, Contours.foldl_append, Contours.empty_append]
  show _ = ofFont (ctx.font.record i) >>= fun r => loadRecord ctx depth i offset rounds r
  simp only [loadRecord, ← hjoin]
  rfl

/-- A glyph whose contours have been brought together is finished next. -/
theorem loadPiece_assembled (h : Assembled ctx depth i offset rounds s d s₁) :
    loadPiece ctx (depth + 1) i offset rounds s =
      d.finish ctx i ⟨ctx.factor, offset, rounds⟩ s₁ := by
  rw [loadPiece_succ]
  cases h with
  | simple hr hg =>
    rw [bind_ofFont hr]
    simp only [loadRecord, hg]
  | compound hr hg hmap hl hrest =>
    rw [bind_ofFont hr]
    simp only [loadRecord, hg]
    rw [bind_of_ok (loadComponents_ok.2 ⟨hmap, hl⟩), bind_ofFont hrest]

/-- A glyph that has been loaded was brought together and then finished. -/
theorem loadPiece_ok (h : loadPiece ctx (depth + 1) i offset rounds s = .ok p s') :
    ∃ d s₁, Assembled ctx depth i offset rounds s d s₁ ∧
      d.finish ctx i ⟨ctx.factor, offset, rounds⟩ s₁ = .ok p s' := by
  rw [loadPiece_succ] at h
  obtain ⟨r, hr, h₁⟩ := exists_of_bind_ofFont h
  unfold loadRecord at h₁
  cases hg : r.shape with
  | simple g =>
    rw [hg] at h₁
    exact ⟨_, s, .simple hr hg, h₁⟩
  | compound g =>
    rw [hg] at h₁
    obtain ⟨pieces, s₁, hp, h₂⟩ := exists_of_bind_ok h₁
    obtain ⟨program, hprogram, h₃⟩ := exists_of_bind_ofFont h₂
    obtain ⟨hmap, hl⟩ := loadComponents_ok.1 hp
    exact ⟨_, s₁, .compound hr hg hmap hl hprogram, h₃⟩

/-! ### Whole glyphs -/

/-- The instance by which a glyph is hinted, if it is. -/
def hintingFor (f : Font) (scale : Int32) (hinter? : Option Hinter) : Option Instance :=
  hinter?.bind fun h =>
    if (h.prepare f scale).isActive then some (h.prepare f scale).current else none

def contextFor (f : Font) (scale : Int32) (hinter? : Option Hinter) : Context where
  font := f
  factor := Fixed.scaleFactor scale (Int64.ofNat f.unitsPerEm)
  hinting := hintingFor f scale hinter?

def progressFor (f : Font) (scale : Int32) (hinter? : Option Hinter) : Progress where
  scratch := hinter?.bind fun h => (h.prepare f scale).scratch

/-- The glyph that consists of one piece. -/
def ofPiece (factor : Int32) (p : Piece) (hintError : Option HintError) : Glyph where
  advance := p.advance
  bounds := scaleBounds p.bounds factor
  contours := shiftOrigin p.contours p.origin
  hintError := hintError

variable {f : Font} {scale : Int32} {hinter? : Option Hinter} {g : Glyph}

theorem load_ok : (load f scale i hinter?).1 = .ok g ↔ ∃ p s',
    loadPiece (contextFor f scale hinter?) maxDepth i {} false (progressFor f scale hinter?) =
      .ok p s' ∧ g = ofPiece (contextFor f scale hinter?).factor p s'.hintError := by
  have hw : (load f scale i hinter?).1 = .ok g ↔ ∃ s',
      loadWith f scale i (hintingFor f scale hinter?) (progressFor f scale hinter?) = .ok g s' := by
    unfold load
    cases hinter? with
    | none =>
      dsimp only [Option.map_none]
      show _ ↔ ∃ s', loadWith f scale i none {} = .ok g s'
      cases loadWith f scale i none {} <;> simp
    | some h =>
      dsimp only [Option.map_some]
      show _ ↔ ∃ s', loadWith f scale i (if (h.prepare f scale).isActive then _ else none)
        { scratch := (h.prepare f scale).scratch } = .ok g s'
      cases loadWith f scale i (if (h.prepare f scale).isActive then _ else none)
        { scratch := (h.prepare f scale).scratch } <;> simp
  rw [hw]
  refine ⟨fun ⟨s', h⟩ => ?_, fun ⟨p, s', hp, hg⟩ => ⟨s', ?_⟩⟩
  · obtain ⟨p, s₁, hp, hrest⟩ := exists_of_bind_ok h
    cases hrest
    exact ⟨p, _, hp, rfl⟩
  · rw [hg]
    exact bind_of_ok hp

theorem contextFor_valid (hf : f.Ample) (scale : Int32) (hh : ∀ h ∈ hinter?, h.Sound) :
    (contextFor f scale hinter?).Valid := by
  refine ⟨hf, fun inst hinst => ?_⟩
  obtain ⟨h, rfl, hi⟩ := Option.bind_eq_some_iff.1 hinst
  split at hi
  · cases hi
    exact ((hh h rfl).prepare f scale).configured ‹_›
  · cases hi

end GridFit.Glyph
