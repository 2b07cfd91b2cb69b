import GridFit.Proofs.Glyph.Flattening

/-!
# Metrics of components

A component may give its metrics to a compound glyph. Then the glyph has the origin of this component:
loaded without hinting, it shows a component that is not moved where that glyph itself would be
(`Glyph.load_component`). The advance width is not taken over. A glyph has its own, whatever its
components are, so it can differ from that of the component (`Glyph.load_component_advance`).
-/

namespace GridFit

namespace Glyph

variable {ctx : Context} {depth n : Nat} {i : UInt16} {offset : Point} {rounds : Bool}
  {s s' s₁ : Progress} {d : Draft} {p : Piece}

/-! ### Depth -/

theorem ComponentsLoaded.imp {depth' : Nat} {pieces : List (Component × Piece)}
    (hl : ComponentsLoaded ctx depth offset s pieces s')
    (h : ∀ i offset rounds s p s', loadPiece ctx depth i offset rounds s = .ok p s' →
      loadPiece ctx depth' i offset rounds s = .ok p s') :
    ComponentsLoaded ctx depth' offset s pieces s' := by
  induction hl with
  | nil s => exact .nil s
  | cons hp _ ih => exact .cons (h _ _ _ _ _ _ hp) ih

/-- A piece that has been loaded comes out the same where components may go deeper. -/
theorem loadPiece_deeper (h : loadPiece ctx depth i offset rounds s = .ok p s') :
    loadPiece ctx (depth + 1) i offset rounds s = .ok p s' := by
  induction depth generalizing i offset rounds s p s' with
  | zero => cases h
  | succ depth ih =>
    obtain ⟨d, s₁, ha, hd⟩ := loadPiece_ok h
    have ha' : Assembled ctx (depth + 1) i offset rounds s d s₁ := by
      cases ha with
      | simple hr hg => exact .simple hr hg
      | compound hr hg hmap hl hrest =>
        exact .compound hr hg hmap (hl.imp fun _ _ _ _ _ _ hp => ih hp) hrest
    rw [loadPiece_assembled ha']
    exact hd

/-- Without hinting each component is loaded in the state of the glyph. -/
theorem ComponentsLoaded.mem_none (hn : ctx.hinting = none)
    {pieces : List (Component × Piece)} (hl : ComponentsLoaded ctx depth offset s pieces s')
    {q : Component × Piece} (hq : q ∈ pieces) :
    loadPiece ctx depth q.1.glyph (offset + q.1.offset) q.1.roundsOffset s = .ok q.2 s := by
  induction hl with
  | nil s => cases hq
  | cons hp _ ih =>
    obtain ⟨-, rfl⟩ := loadPiece_none hn hp
    rcases List.mem_cons.1 hq with rfl | hq
    · exact hp
    · exact ih hq

/-! ### Glyphs that are not moved -/

theorem scaleUnits_zero (factor : Int32) : Fixed.scaleUnits 0 factor = 0 := by
  have hv : (0 : Int32).toInt64 * factor.toInt64 = 0 := by simp
  simp only [Fixed.scaleUnits, hv]
  rfl

theorem scaledOffset_zero (factor : Int32) (rounds : Bool) :
    Placing.scaledOffset ⟨factor, {}, rounds⟩ = {} := by
  simp only [Placing.scaledOffset, scaleUnits_zero]
  cases rounds <;> rfl

theorem scaled_zero (factor : Int32) (rounds : Bool) :
    Placing.scaled ⟨factor, {}, rounds⟩ = GlyphPoint.scale factor := by
  funext q
  simp only [Placing.scaled, scaledOffset_zero, Int32.zero_add, Int32.add_zero]
  cases rounds <;> rfl

theorem contours_zero (factor : Int32) (rounds : Bool) (points : Array GlyphPoint)
    (ends : Array Nat) :
    Placing.contours ⟨factor, {}, rounds⟩ points ends =
      Placing.contours ⟨factor, {}, false⟩ points ends := by
  simp only [Placing.contours, scaled_zero]
  rfl

theorem finish_zero (d : Draft) (ctx : Context) (i : UInt16) (factor : Int32) (rounds : Bool) :
    d.finish ctx i ⟨factor, {}, rounds⟩ = d.finish ctx i ⟨factor, {}, false⟩ := by
  simp only [Draft.finish, finish, contours_zero, scaledOffset_zero]

/-- Where nothing is moved, it does not matter whether the offset is rounded. -/
theorem loadPiece_zero (ctx : Context) (depth : Nat) (i : UInt16) (rounds : Bool) :
    loadPiece ctx depth i {} rounds = loadPiece ctx depth i {} false := by
  cases depth with
  | zero => rfl
  | succ depth =>
    rw [loadPiece_succ, loadPiece_succ]
    congr 1
    funext r
    simp only [loadRecord, contours_zero, finish_zero]

/-! ### Metrics without hinting -/

/-- The advance width that the bounds and the metrics of a glyph give, scaled. -/
def scaledAdvance (b : Bounds) (m : HMetric) (factor : Int32) : Int32 :=
  let origin := b.xMin - m.bearing
  Fixed.scaleUnits (origin + Int32.ofNat m.advance.toNat) factor - Fixed.scaleUnits origin factor

/-- The advance width of an unhinted glyph that is not moved comes from its own phantom points,
whichever component gives its origin. -/
theorem finish_advance (hn : ctx.hinting = none)
    (h : d.finish ctx i ⟨ctx.factor, {}, false⟩ s = .ok p s') :
    ∃ m, ctx.font.hmetric i = .ok m ∧ p.advance = scaledAdvance d.bounds m ctx.factor := by
  obtain ⟨m, c, start, stop, hm, hc, hstart, hstop, rfl⟩ := finish_ok h
  rw [hn] at hc
  cases hc
  have hpoints : (d.withPhantoms ⟨ctx.factor, {}, false⟩ m).points =
      d.body.points ++ (phantoms d.bounds m).map (GlyphPoint.scale ctx.factor) := by
    rw [← scaled_zero ctx.factor false]
    rfl
  have hcount : ((phantoms d.bounds m).map (GlyphPoint.scale ctx.factor)).size = 4 :=
    Array.size_map
  rw [hpoints] at hstart hstop
  have hstart := hstart.symm.trans ((FontM.elementAt_append_right _ _ 0).trans (dif_pos (by omega)))
  have hstop := hstop.symm.trans ((FontM.elementAt_append_right _ _ 1).trans (dif_pos (by omega)))
  cases hstart
  cases hstop
  refine ⟨m, hm, ?_⟩
  simp only [Array.getElem_map]
  rfl

theorem finish_origin_given {t : Placing} {origin : Int32} (h : d.finish ctx i t s = .ok p s')
    (ho : d.origin? = some origin) : p.origin = origin := by
  obtain ⟨m, c, start, stop, -, -, -, -, rfl⟩ := finish_ok h
  show d.origin?.getD _ = _
  rw [ho]
  rfl

/-- The origin is that of the last component that gives its metrics. -/
theorem metricsOrigin_last {before after : List (Component × Piece)} {q : Component × Piece}
    (hq : q.1.givesMetrics = true) (hafter : ∀ q' ∈ after, q'.1.givesMetrics = false) :
    metricsOrigin (before ++ q :: after) = some q.2.origin := by
  have hkeep : ∀ o : Option Int32, after.foldl
      (fun o (q' : Component × Piece) => if q'.1.givesMetrics then some q'.2.origin else o) o = o := by
    intro o
    induction after with
    | nil => rfl
    | cons q' after ih =>
      rw [List.foldl_cons, hafter q' (by simp)]
      exact ih fun q'' hq'' => hafter q'' (by simp [hq''])
  rw [metricsOrigin, List.foldl_append]
  show after.foldl _ (if q.1.givesMetrics then some q.2.origin else _) = _
  rw [hq]
  exact hkeep _

theorem shiftOrigin_append (a b : Contours) (origin : Int32) :
    shiftOrigin (a.append b) origin = (shiftOrigin a origin).append (shiftOrigin b origin) := by
  refine Contours.eq_of_parts Array.map_append Array.map_append rfl ?_
  show a.ends ++ b.ends.map (a.points.size + ·) = a.ends ++ b.ends.map ((a.points.map _).size + ·)
  rw [Array.size_map]

theorem shiftOrigin_join (l l' : List Contours) (c : Contours) (origin : Int32) :
    shiftOrigin (.join (l ++ c :: l')) origin = (shiftOrigin (.join l) origin).append
      ((shiftOrigin c origin).append (shiftOrigin (.join l') origin)) := by
  rw [Contours.join_append, Contours.join_cons, shiftOrigin_append, shiftOrigin_append]

/-! ### The size of components -/

/-- Wherever a glyph is placed, it has as many points. -/
theorem pointCount_leaves {f : Font} {t : GlyphTree} (ht : f.HasTree n i t) (offset offset' : Point)
    (rounds rounds' : Bool) :
    Leaf.pointCount (t.leaves offset rounds) = Leaf.pointCount (t.leaves offset' rounds') := by
  induction ht generalizing offset offset' rounds rounds' with
  | simple _ _ => rw [GlyphTree.leaves_simple, GlyphTree.leaves_simple]; rfl
  | compound _ _ _ ih =>
    rw [GlyphTree.leaves_compound, GlyphTree.leaves_compound, Leaf.pointCount_flatMap,
      Leaf.pointCount_flatMap]
    exact congrArg List.sum (List.map_congr_left fun p hp => ih p hp ..)

variable {f : Font} {scale : Int32} {g : Glyph}

/-- A component without hinting has as many points as the same glyph by itself. -/
theorem loadPiece_alone (hf : f.Ample)
    (h : loadPiece (contextFor f scale none) (maxDepth - 1) i offset rounds s = .ok p s') :
    ∃ g, (load f scale i none).1 = .ok g ∧ g.contours.points.size = p.contours.points.size := by
  have hv : (contextFor f scale none).Valid := contextFor_valid hf scale fun _ hh => by cases hh
  obtain ⟨t, ht, hc⟩ := loadPiece_tree (n := 2) h
  obtain ⟨p', s₂, hp'⟩ := loadPiece_of_tree hv ht {} false (progressFor f scale none)
  obtain ⟨t', ht', hc'⟩ := loadPiece_tree (n := 2) hp'
  cases ht'.unique ht
  refine ⟨_, load_ok.2 ⟨p', s₂, loadPiece_deeper hp', rfl⟩, ?_⟩
  rw [GlyphTree.size_of_unhint hc, pointCount_leaves ht offset {} rounds false,
    ← GlyphTree.size_of_unhint hc']
  exact Array.size_map

/-- The glyphs `gs` are the components, each loaded by itself. -/
def LoadAlone (f : Font) (scale : Int32) (components : List Component) (gs : List Glyph) : Prop :=
  components.map (fun k => (load f scale k.glyph none).1) = gs.map .ok

theorem exists_loadAlone {pieces : List (Component × Piece)}
    (h : ∀ q ∈ pieces, ∃ g, (load f scale q.1.glyph none).1 = .ok g ∧
      g.contours.points.size = q.2.contours.points.size) :
    ∃ gs, LoadAlone f scale (pieces.map (·.1)) gs ∧
      (Contours.join (pieces.map (·.2.contours))).points.size =
        (gs.map (·.contours.points.size)).sum := by
  induction pieces with
  | nil => exact ⟨[], rfl, rfl⟩
  | cons q pieces ih =>
    obtain ⟨g, hg, hsize⟩ := h q (by simp)
    obtain ⟨gs, hgs, hsizes⟩ := ih fun q' hq' => h q' (by simp [hq'])
    refine ⟨g :: gs, ?_, ?_⟩
    · show (load f scale q.1.glyph none).1 :: _ = .ok g :: _
      rw [hg]
      exact congrArg _ hgs
    · rw [List.map_cons, Contours.join_cons, List.map_cons, List.sum_cons, hsize, ← hsizes]
      exact Array.size_append

end Glyph

/-! ### Whole glyphs -/

/-- The components of glyph `i`, in order. Only a compound glyph has some. -/
def Font.componentsOf (f : Font) (i : UInt16) : FontM (List Component) := do
  return (← f.record i).shape.components

theorem Font.componentsOf_eq {f : Font} {i : UInt16} {r : GlyphRecord} (hr : f.record i = .ok r) :
    f.componentsOf i = .ok r.shape.components := by
  rw [componentsOf, hr]
  rfl

namespace Glyph

/-- Glyph `g` has the advance width that the bounds and the metrics of glyph `i` give. -/
def HasOwnAdvance (f : Font) (scale : Int32) (i : UInt16) (g : Glyph) : Prop :=
  ∃ r m, f.record i = .ok r ∧ f.hmetric i = .ok m ∧
    g.advance = scaledAdvance r.bounds m (Fixed.scaleFactor scale (Int64.ofNat f.unitsPerEm))

theorem load_advance (hl : (load f scale i none).1 = .ok g) : HasOwnAdvance f scale i g := by
  obtain ⟨p, s', hp, rfl⟩ := load_ok.1 hl
  obtain ⟨d, s₁, ha, hd⟩ := loadPiece_ok hp
  obtain ⟨m, hm, hadvance⟩ := finish_advance rfl hd
  cases ha with
  | simple hr _ => exact ⟨_, m, hr, hm, hadvance⟩
  | compound hr _ _ _ _ => exact ⟨_, m, hr, hm, hadvance⟩

/-- The contours of glyph `g` contain those of glyph `g'`, with the points in the same places, after
as many points as the components `before` have. -/
def Includes (f : Font) (scale : Int32) (before : List Component) (g g' : Glyph) : Prop :=
  ∃ (lead rest : Contours) (gs : List Glyph), g.contours = lead.append (g'.contours.append rest) ∧
    LoadAlone f scale before gs ∧ lead.points.size = (gs.map (·.contours.points.size)).sum

/-- Without hinting a compound glyph consists of its components, each loaded for itself. A component
that gives its metrics gives its origin. -/
theorem load_pieces {components : List Component} (hl : (load f scale i none).1 = .ok g)
    (hi : f.componentsOf i = .ok components) (hne : components ≠ []) :
    ∃ pieces : List (Component × Piece), pieces.map (·.1) = components ∧
      (∀ q ∈ pieces, loadPiece (contextFor f scale none) (maxDepth - 1) q.1.glyph
        ({} + q.1.offset) q.1.roundsOffset {} = .ok q.2 {}) ∧
      ∀ origin, metricsOrigin pieces = some origin →
        g.contours = shiftOrigin (.join (pieces.map (·.2.contours))) origin := by
  obtain ⟨p, s', hp, hg⟩ := load_ok.1 hl
  obtain ⟨d, s₁, ha, hd⟩ := loadPiece_ok hp
  obtain ⟨hbody, -⟩ := finish_none rfl hd
  cases ha with
  | simple hr hshape =>
    rw [Font.componentsOf_eq (f := f) hr, hshape] at hi
    exact absurd (Except.ok.inj hi).symm hne
  | @compound _ c _ pieces _ hr hshape hmap hpieces _ =>
    rw [Font.componentsOf_eq (f := f) hr, hshape] at hi
    refine ⟨pieces, hmap.trans (Except.ok.inj hi), fun q hq => hpieces.mem_none rfl hq,
      fun origin horigin => ?_⟩
    rw [hg]
    show shiftOrigin p.contours p.origin = _
    rw [hbody, finish_origin_given hd horigin]

/-- The last component that gives its metrics appears in the compound glyph as it is, if it is not
moved. But both have an advance width of their own. -/
theorem load_component {file : Bytes} {before after : List Component} {k : Component}
    (hf : Font.parse file = .ok f) (hl : (load f scale i none).1 = .ok g)
    (hi : f.componentsOf i = .ok (before ++ k :: after)) (hk : k.givesMetrics = true)
    (hafter : ∀ k' ∈ after, k'.givesMetrics = false) (ho : k.offset = {}) :
    ∃ g', (load f scale k.glyph none).1 = .ok g' ∧ Includes f scale before g g' ∧
      HasOwnAdvance f scale i g ∧ HasOwnAdvance f scale k.glyph g' := by
  have hample := (Font.ample_parse file).ok hf
  obtain ⟨pieces, hmap, hpieces, hcontours⟩ := load_pieces hl hi (by simp)
  obtain ⟨lead, tail, rfl, hlead, htail⟩ := List.map_eq_append_iff.1 hmap
  obtain ⟨q, rest, rfl, rfl, hrest⟩ := List.map_eq_cons_iff.1 htail
  -- By itself the component is loaded in the same way, only that it may go deeper.
  have hq := hpieces q (by simp)
  rw [ho, show ({} : Point) + {} = {} from rfl, loadPiece_zero] at hq
  have hq' := load_ok.2 ⟨q.2, _, loadPiece_deeper hq, rfl⟩
  have halone : ∀ q' ∈ lead, ∃ g', (load f scale q'.1.glyph none).1 = .ok g' ∧
      g'.contours.points.size = q'.2.contours.points.size := fun q' hq' =>
    loadPiece_alone hample (hpieces q' (List.mem_append_left _ hq'))
  obtain ⟨gs, hgs, hsize⟩ := exists_loadAlone halone
  rw [hlead] at hgs
  have horigin : metricsOrigin (lead ++ q :: rest) = some q.2.origin :=
    metricsOrigin_last hk fun q' hq' => hafter q'.1 (hrest ▸ List.mem_map_of_mem hq')
  refine ⟨_, hq', ⟨shiftOrigin (.join (lead.map (·.2.contours))) q.2.origin,
    shiftOrigin (.join (rest.map (·.2.contours))) q.2.origin, gs, ?_, hgs, ?_⟩,
    load_advance hl, load_advance hq'⟩
  · rw [hcontours _ horigin, List.map_append, List.map_cons, shiftOrigin_join]
    rfl
  · rw [← hsize]
    exact Array.size_map

end Glyph

/-! ### An example -/

/-- A font with a triangle (glyph 0) and a compound glyph (glyph 1) that shows it twice. The second
one, which is not moved, gives glyph 1 its metrics. But glyph 1 is wider. -/
@[irreducible] def Font.borrowing : Bytes :=
  let pair := compoundData [[0x00, 0x22, 0, 0, 100, 0], [0x02, 0x02, 0, 0, 0, 0]]
  sample [(triangleData [], 500), (pair, 700)] []

namespace Glyph

/-- The triangle of `Font.borrowing` at the right of the other one. -/
def movedTriangle : Component :=
  { glyph := 0, offset := ⟨100, 0⟩, roundsOffset := false, givesMetrics := false }

/-- The triangle that gives its metrics. -/
def borrowedTriangle : Component :=
  { glyph := 0, offset := {}, roundsOffset := false, givesMetrics := true }

theorem load_borrowing : ∃ f g, Font.parse Font.borrowing = .ok f ∧
    (load f 1024 1 none).1 = .ok g ∧ g.advance = 700 ∧
    f.componentsOf 1 = .ok ([movedTriangle] ++ borrowedTriangle :: []) := by
  have hload : (loadFrom Font.borrowing 1024 1 none).toOption.any (·.advance = 700) := by
    decide +kernel
  have hcomponents : (do (← Font.parse Font.borrowing).componentsOf 1).toOption.any
      (· = [movedTriangle, borrowedTriangle]) := by
    decide +kernel
  obtain ⟨f, g, hf, hg, hadvance⟩ := exists_of_loadFrom hload
  rw [hf] at hcomponents
  obtain ⟨components, hc, hgood⟩ := FontM.exists_of_any (x := f.componentsOf 1) hcomponents
  rw [of_decide_eq_true hgood] at hc
  exact ⟨f, g, hf, hg, of_decide_eq_true hadvance, hc⟩

theorem load_component_borrowed : ∃ f g, Font.parse Font.borrowing = .ok f ∧
    (load f 1024 1 none).1 = .ok g ∧
    f.componentsOf 1 = .ok ([movedTriangle] ++ borrowedTriangle :: []) ∧
    ∃ g', (load f 1024 0 none).1 = .ok g' ∧ Includes f 1024 [movedTriangle] g g' := by
  obtain ⟨f, g, hf, hg, -, hc⟩ := load_borrowing
  obtain ⟨g', hg', hincludes, -⟩ := load_component hf hg hc rfl nofun rfl
  exact ⟨f, g, hf, hg, hc, g', hg', hincludes⟩

/-- The advance widths differ, although the component gives its metrics and is not moved. -/
theorem load_component_advance : ∃ f g g', Font.parse Font.borrowing = .ok f ∧
    (load f 1024 1 none).1 = .ok g ∧
    f.componentsOf 1 = .ok ([movedTriangle] ++ borrowedTriangle :: []) ∧
    borrowedTriangle.givesMetrics = true ∧ borrowedTriangle.offset = {} ∧
    (load f 1024 borrowedTriangle.glyph none).1 = .ok g' ∧ g.advance ≠ g'.advance := by
  obtain ⟨f, g, hf, hg, hadvance, hc⟩ := load_borrowing
  have hload : (loadFrom Font.borrowing 1024 0 none).toOption.any (·.advance = 500) := by
    decide +kernel
  obtain ⟨f', g', hf', hg', hadvance'⟩ := exists_of_loadFrom hload
  cases hf.symm.trans hf'
  refine ⟨f, g, g', hf, hg, hc, rfl, rfl, hg', ?_⟩
  rw [hadvance, of_decide_eq_true hadvance']
  decide

end Glyph

end GridFit
