import GridFit.Proofs.Glyph.Assembly

/-!
# Compound glyphs are flattened

A glyph that is loaded has a tree of components, three levels deep at most (`loadPiece_tree`). The
tree is that of the component records in the data of the font (`Font.HasTree`). The points of the
glyph in font units are those of the simple glyphs of the tree, from left to right, each at its
place, and its contours end where theirs do. A glyph with such a tree is loaded at every scale and
with every hinter (`loadPiece_of_tree`), so neither decides what its points in font units are.
-/

namespace GridFit

/-! ### Leaves of the tree of a glyph -/

namespace Font.HasTree

variable {f : Font} {n : Nat} {i : UInt16} {t : GlyphTree} {offset : Point} {rounds : Bool}

theorem leaves_regular (ht : f.HasTree n i t) {l : Leaf} (hl : l ∈ t.leaves offset rounds) :
    l.glyph.Regular := by
  induction ht generalizing offset rounds with
  | simple hd hw =>
    obtain ⟨r, hr, hg⟩ := record_simple hd hw
    rw [GlyphTree.leaves_simple, List.mem_singleton] at hl
    have hreg := (f.record_regular _).ok hr
    rw [hg] at hreg
    rw [hl]
    exact hreg
  | compound _ _ _ ih =>
    rw [GlyphTree.leaves_compound] at hl
    obtain ⟨p, hp, hl⟩ := List.mem_flatMap.1 hl
    exact ih p hp hl

/-- A leaf is rounded only for the sake of a component that rounds its offset. -/
theorem leaves_unrounded (ht : f.HasTree n i t) (hc : ∀ c ∈ t.components, c.roundsOffset = false)
    {l : Leaf} (hl : l ∈ t.leaves offset false) : l.rounds = false := by
  induction ht generalizing offset with
  | simple _ _ =>
    rw [GlyphTree.leaves_simple, List.mem_singleton] at hl
    rw [hl]
  | compound _ _ _ ih =>
    rw [GlyphTree.leaves_compound] at hl
    obtain ⟨p, hp, hl⟩ := List.mem_flatMap.1 hl
    rw [hc p.1 (GlyphTree.mem_components.2 ⟨p, hp, .inl rfl⟩)] at hl
    exact ih p hp (fun c hm => hc c (GlyphTree.mem_components.2 ⟨p, hp, .inr hm⟩)) hl

end Font.HasTree

/-- A point in font units, scaled. -/
def GlyphPoint.scale (factor : Int32) (p : GlyphPoint) : GlyphPoint :=
  { p with x := Fixed.scaleUnits p.x factor, y := Fixed.scaleUnits p.y factor }

theorem Contours.points_join {k : GlyphPoint → GlyphPoint} {l : List Contours}
    (h : ∀ c ∈ l, c.points = c.units.map k) : (join l).points = (join l).units.map k := by
  induction l with
  | nil => exact Array.map_empty.symm
  | cons c l ih =>
    have hc := h c (by simp)
    have hl := ih fun c' hc' => h c' (by simp [hc'])
    rw [join_cons]
    show c.points ++ (join l).points = (c.units ++ (join l).units).map k
    rw [hc, hl, Array.map_append]

theorem Leaf.points_contours {l : Leaf} (h : l.rounds = false) (factor : Int32) :
    (l.contours factor).points = (l.contours factor).units.map (GlyphPoint.scale factor) := by
  show l.glyph.points.map _ = (l.glyph.points.map _).map _
  rw [Array.map_map, h]
  rfl

namespace Glyph

variable {ctx : Context} {n : Nat} {i : UInt16} {offset : Point} {rounds : Bool} {s s' : Progress}
  {p : Piece}

/-! ### From loading to the tree -/

/-- The trees of loaded components, in order. -/
theorem exists_parts {f : Font} {factor : Int32} {pieces : List (Component × Piece)}
    (h : ∀ q ∈ pieces, ∃ t, f.HasTree n q.1.glyph t ∧
      q.2.contours.unhint = t.contours factor (offset + q.1.offset) q.1.roundsOffset) :
    ∃ parts : List (Component × GlyphTree), parts.map (·.1) = pieces.map (·.1) ∧
      (∀ p ∈ parts, f.HasTree n p.1.glyph p.2) ∧
      pieces.map (·.2.contours.unhint) =
        parts.map fun p => p.2.contours factor (offset + p.1.offset) p.1.roundsOffset := by
  induction pieces with
  | nil => exact ⟨[], rfl, List.forall_mem_nil _, rfl⟩
  | cons q pieces ih =>
    obtain ⟨t, ht, hq⟩ := h q (by simp)
    obtain ⟨parts, hmap, hparts, hc⟩ := ih fun q' hq' => h q' (by simp [hq'])
    refine ⟨(q.1, t) :: parts, congrArg (q.1 :: ·) hmap, fun p hp => ?_, ?_⟩
    · rcases List.mem_cons.1 hp with rfl | hp
      · exact ht
      · exact hparts p hp
    · rw [List.map_cons, List.map_cons, hc, hq]

/-- The contours that are brought together for a glyph are those of its tree. -/
theorem Assembled.tree {d : Draft} (ha : Assembled ctx n i offset rounds s d s') :
    ∃ t, ctx.font.HasTree n i t ∧ d.body.unhint = t.contours ctx.factor offset rounds := by
  induction n generalizing i offset rounds s d s' with
  | zero =>
    cases ha with
    | simple hr hg => exact ⟨_, .of_simple hr hg, (GlyphTree.contours_simple ..).symm⟩
    | compound hr hg hmap hl hrest =>
      -- There is a component, and it cannot have been loaded.
      have hne := (ctx.font.record_regular _).ok hr
      rw [hg] at hne
      cases hl with
      | nil s => exact absurd hmap.symm (hne (by rw [hrest]; rfl))
      | cons hp _ => cases hp
  | succ n ih =>
    cases ha with
    | simple hr hg => exact ⟨_, .of_simple hr hg, (GlyphTree.contours_simple ..).symm⟩
    | compound hr hg hmap hl hrest =>
      obtain ⟨parts, hparts, htrees, hc⟩ := exists_parts fun q hq => by
        obtain ⟨_, _, hp⟩ := hl.mem hq
        obtain ⟨d, s₁, ha, hd⟩ := loadPiece_ok hp
        rw [(finish_unhint hd).1]
        exact ih ha
      refine ⟨.compound parts, .of_compound hr hg hrest (hparts.trans hmap) htrees, ?_⟩
      rw [Contours.unhint_join, List.map_map, GlyphTree.contours_compound]
      exact congrArg Contours.join hc

/-- A piece has the contours of a tree. Hinting moves its points, but not those that are kept
unhinted. -/
theorem loadPiece_tree (h : loadPiece ctx (n + 1) i offset rounds s = .ok p s') :
    ∃ t, ctx.font.HasTree n i t ∧ p.contours.unhint = t.contours ctx.factor offset rounds := by
  obtain ⟨d, s₁, ha, hd⟩ := loadPiece_ok h
  rw [(finish_unhint hd).1]
  exact ha.tree

theorem ComponentsLoaded.same {depth : Nat} {pieces : List (Component × Piece)}
    (hl : ComponentsLoaded ctx depth offset s pieces s')
    (h : ∀ i offset rounds s p s', loadPiece ctx depth i offset rounds s = .ok p s' → s' = s) :
    s' = s := by
  induction hl with
  | nil s => rfl
  | cons hp _ ih => exact ih.trans (h _ _ _ _ _ _ hp)

/-- Without hinting the points of a piece are the unhinted ones, and no program fails. -/
theorem loadPiece_none {depth : Nat} (hn : ctx.hinting = none)
    (h : loadPiece ctx depth i offset rounds s = .ok p s') :
    p.contours.unhint = p.contours ∧ s' = s := by
  induction depth generalizing i offset rounds s p s' with
  | zero => cases h
  | succ depth ih =>
    obtain ⟨d, s₁, ha, hd⟩ := loadPiece_ok h
    obtain ⟨hbody, rfl⟩ := finish_none hn hd
    rw [hbody]
    cases ha with
    | simple _ _ => exact ⟨rfl, rfl⟩
    | compound _ _ _ hl _ =>
      refine ⟨?_, hl.same fun _ _ _ _ _ _ hp => (ih hp).2⟩
      rw [Contours.unhint_join, List.map_map]
      refine congrArg Contours.join (List.map_congr_left fun q hq => ?_)
      obtain ⟨_, _, hp⟩ := hl.mem hq
      exact (ih hp).1

/-! ### From the tree to loading -/

/-- A glyph that has a tree is loaded: only reading its records can fail. -/
theorem loadPiece_of_tree (hv : ctx.Valid) {t : GlyphTree} (ht : ctx.font.HasTree n i t)
    (offset : Point) (rounds : Bool) (s : Progress) :
    ∃ p s', loadPiece ctx (n + 1) i offset rounds s = .ok p s' := by
  induction ht generalizing offset rounds s with
  | simple hd hw =>
    obtain ⟨r, hr, hg⟩ := Font.HasTree.record_simple hd hw
    rw [loadPiece_assembled (.simple hr hg)]
    exact finish_exists hv ..
  | @compound n _ _ _ _ hd hw _ ih =>
    obtain ⟨r, g, hr, hg, hmap, hrest⟩ := Font.HasTree.record_compound hd hw
    have hloads : ∀ c ∈ g.components, ∀ s, ∃ p s',
        loadPiece ctx (n + 1) c.glyph (offset + c.offset) c.roundsOffset s = .ok p s' := by
      intro c hc s
      rw [hmap] at hc
      obtain ⟨p, hp, rfl⟩ := List.mem_map.1 hc
      exact ih p hp (offset + p.1.offset) p.1.roundsOffset s
    obtain ⟨pieces, s₁, hpieces, hl⟩ := ComponentsLoaded.exists s hloads
    rw [loadPiece_assembled (.compound hr hg hpieces hl hrest)]
    exact finish_exists hv ..

/-! ### Whole glyphs -/

/-- Glyph `g` consists of the simple glyphs of the tree `t`. -/
structure Flattens (g : Glyph) (t : GlyphTree) : Prop where
  units : g.contours.units.toList = (t.leaves {} false).flatMap Leaf.units
  ends : g.contours.ends.toList = Leaf.endsFrom 0 (t.leaves {} false)
  inOrder : g.contours.ends.toList.Pairwise (· < ·)
  last : g.contours.ends.back?.getD 0 = g.contours.points.size
  unhinted : g.contours.unhinted.size = g.contours.points.size
  size : g.contours.units.size = g.contours.points.size

theorem flattens_ofPiece {f : Font} {t : GlyphTree} {factor : Int32} (ht : f.HasTree n i t)
    (hc : p.contours.unhint = t.contours factor {} false) (hintError : Option HintError) :
    (ofPiece factor p hintError).Flattens t := by
  have hreg : ∀ l ∈ t.leaves {} false, l.glyph.Regular := fun _ hl => ht.leaves_regular hl
  have hunits : p.contours.units = (t.contours factor {} false).units := congrArg (·.units) hc
  have hends : p.contours.ends.toList = Leaf.endsFrom 0 (t.leaves {} false) :=
    (congrArg (·.ends.toList) hc).trans (Leaf.ends_join ..)
  have hsize : p.contours.points.size = Leaf.pointCount (t.leaves {} false) :=
    GlyphTree.size_of_unhint hc
  refine ⟨?_, hends, ?_, ?_, Contours.size_unhinted _, Contours.size_units _⟩
  · exact (congrArg Array.toList hunits).trans (GlyphTree.units_contours ..)
  · show p.contours.ends.toList.Pairwise _
    rw [hends]
    exact (Leaf.endsFrom_inOrder hreg 0).1
  · have hlast := Leaf.getLast_endsFrom hreg 0
    rw [← hends, Nat.zero_add, ← hsize, Array.getLast?_toList] at hlast
    exact hlast.trans Array.size_map.symm

/-- Glyph `g` has the points of its contours in font units, scaled and moved left by one distance. -/
def IsScaled (g : Glyph) (factor : Int32) : Prop :=
  ∃ origin : Int32, g.contours.points = g.contours.units.map fun q =>
    { q with x := Fixed.scaleUnits q.x factor - origin, y := Fixed.scaleUnits q.y factor }

theorem isScaled_ofPiece {f : Font} {t : GlyphTree} {factor : Int32} (ht : f.HasTree n i t)
    (hc : p.contours = t.contours factor {} false)
    (hround : ∀ c ∈ t.components, c.roundsOffset = false) (hintError : Option HintError) :
    (ofPiece factor p hintError).IsScaled factor := by
  refine ⟨p.origin, ?_⟩
  have hpoints : p.contours.points = p.contours.units.map (GlyphPoint.scale factor) := by
    rw [hc]
    refine Contours.points_join fun c hm => ?_
    obtain ⟨l, hl, rfl⟩ := List.mem_map.1 hm
    exact Leaf.points_contours (ht.leaves_unrounded hround hl) factor
  show p.contours.points.map _ = p.contours.units.map _
  rw [hpoints, Array.map_map]
  rfl

variable {f : Font} {scale : Int32} {hinter? : Option Hinter} {g : Glyph}

/-- Glyph `g`, which has been loaded as glyph `i` of `f`, consists of the simple glyphs of the tree
`t`. -/
structure FlattenedFrom (t : GlyphTree) (f : Font) (scale : Int32) (i : UInt16)
    (hinter? : Option Hinter) (g : Glyph) : Prop extends g.Flattens t where
  tree : f.HasTree 3 i t
  acyclic : ¬Relation.TransGen f.HasComponent i i
  /-- At another scale or with another hinter the points in font units are the same. -/
  stable : ∀ scale' hinter?', (∀ h ∈ hinter?', Hinter.Used h) → ∃ g',
    (load f scale' i hinter?').1 = .ok g' ∧ g'.contours.units = g.contours.units ∧
      g'.contours.ends = g.contours.ends
  scaled : hinter? = none → (∀ c ∈ t.components, c.roundsOffset = false) →
    g.IsScaled (Fixed.scaleFactor scale (Int64.ofNat f.unitsPerEm))

theorem load_flattens {file : Bytes} (hf : Font.parse file = .ok f) (hu : ∀ h ∈ hinter?, h.Used)
    (hl : (load f scale i hinter?).1 = .ok g) : ∃ t, FlattenedFrom t f scale i hinter? g := by
  have hample := (Font.ample_parse file).ok hf
  obtain ⟨p, s', hp, rfl⟩ := load_ok.1 hl
  obtain ⟨t, ht, hc⟩ := loadPiece_tree (n := 3) hp
  have hflat := flattens_ofPiece ht hc s'.hintError
  refine ⟨t, hflat, ht, ht.acyclic, fun scale' hinter?' hu' => ?_, fun hn hround => ?_⟩
  · have hv := contextFor_valid hample scale' fun h hm => (hu' h hm).sound
    obtain ⟨p', s₂, hp'⟩ := loadPiece_of_tree hv ht {} false (progressFor f scale' hinter?')
    obtain ⟨t', ht', hc'⟩ := loadPiece_tree (n := 3) hp'
    cases ht'.unique ht
    have hflat' := flattens_ofPiece ht' hc' s₂.hintError
    exact ⟨_, load_ok.2 ⟨p', s₂, hp', rfl⟩, Array.toList_inj.1 (hflat'.units.trans hflat.units.symm),
      Array.toList_inj.1 (hflat'.ends.trans hflat.ends.symm)⟩
  · subst hn
    rw [(loadPiece_none rfl hp).1] at hc
    exact isScaled_ofPiece ht hc hround s'.hintError

end Glyph

/-! ### An example -/

/-- A font with a triangle (glyph 1), two of them side by side (glyph 2), and these with one more
(glyph 3). The first triangle gives glyph 2 its metrics, and the program of glyph 2 fails. Glyph 3
moves glyph 2 by (-200, 300), in words, and the triangle by (-50, 0), in bytes. -/
@[irreducible] def Font.triangles : Bytes :=
  let pair := compoundData
    [[0x02, 0x22, 0, 1, 0, 0], [0x01, 0x02, 0, 1, 100, 0], [0, 1, 0x21, 0]]
  let three := compoundData [[0x00, 0x23, 0, 2, 0xff, 0x38, 0x01, 0x2c], [0x00, 0x02, 0, 1, 206, 0]]
  sample [([], 220), (triangleData [0x00], 220), (pair, 220), (three, 220)] []

/-- Glyph `i` of the font `file`, at scale `scale`. -/
def Glyph.loadFrom (file : Bytes) (scale : Int32) (i : UInt16) (hinter? : Option Hinter) :
    FontM Glyph := do
  (Glyph.load (← Font.parse file) scale i hinter?).1

theorem Glyph.exists_of_loadFrom {file : Bytes} {scale : Int32} {i : UInt16}
    {hinter? : Option Hinter} {good : Glyph → Bool}
    (h : (loadFrom file scale i hinter?).toOption.any good) :
    ∃ f g, Font.parse file = .ok f ∧ (load f scale i hinter?).1 = .ok g ∧ good g := by
  obtain ⟨g, hg, hgood⟩ := FontM.exists_of_any h
  cases hf : Font.parse file with
  | error e =>
    rw [loadFrom, hf] at hg
    cases hg
  | ok f =>
    rw [loadFrom, hf] at hg
    exact ⟨f, g, rfl, hg, hgood⟩

/-- The corners of three triangles, in a tree two levels deep. -/
theorem Glyph.load_flattens_triangles : ∃ f g t, Font.parse Font.triangles = .ok f ∧
    (load f 1024 3 (some { mode := {} })).1 = .ok g ∧ g.contours.ends = #[3, 6, 9] ∧
    g.contours.units.toList.map (fun p => (p.x, p.y)) =
      [(-190, 300), (0, 300), (-100, 400)] ++ [(-90, 300), (100, 300), (0, 400)] ++
        [(-40, 0), (150, 0), (50, 100)] ∧
    FlattenedFrom t f 1024 3 (some { mode := {} }) g := by
  have hl : (loadFrom Font.triangles 1024 3 (some { mode := {} })).toOption.any fun g =>
      g.contours.ends = #[3, 6, 9] ∧ g.contours.units.toList.map (fun p => (p.x, p.y)) =
        [(-190, 300), (0, 300), (-100, 400)] ++ [(-90, 300), (100, 300), (0, 400)] ++
          [(-40, 0), (150, 0), (50, 100)] := by
    decide +kernel
  obtain ⟨f, g, hf, hg, hgood⟩ := exists_of_loadFrom hl
  obtain ⟨hends, hunits⟩ := of_decide_eq_true hgood
  have hu : ∀ h ∈ some ({ mode := {} } : Hinter), h.Used := by
    intro h hm
    cases hm
    exact .new {}
  obtain ⟨t, ht⟩ := load_flattens hf hu hg
  exact ⟨f, g, t, hf, hg, hends, hunits, ht⟩

end GridFit
