import GridFit.Glyph.Load
import GridFit.Proofs.Glyph.Layout
import Mathlib.Algebra.GroupWithZero.Nat
import Mathlib.Logic.Relation

/-!
# Component trees

A compound glyph is made of components, which may be compound themselves. `Font.HasTree f n i t` says
that `t` is the tree of components of glyph `i`, and that it has `n` levels of components at most. It
takes the components from the records in the data of the glyph, and the loader finds the same ones
(`HasTree.of_compound`, `HasTree.record_compound`). A glyph has one tree or none (`HasTree.unique`),
and one that reaches itself through components has none (`HasTree.acyclic`).

The leaves of the tree are simple glyphs, each with the place where it goes. Their contours in order
(`Leaf.contours`, `Contours.join`) are those of the glyph.
-/

namespace GridFit

/-- The description of a glyph. -/
def Font.record (f : Font) (i : UInt16) : FontM GlyphRecord := do
  GlyphRecord.read (← f.glyphData i)

theorem Font.record_regular (f : Font) (i : UInt16) :
    Yields Anything (f.record i) fun r => r.shape.Regular :=
  (Yields.anything _).bind fun d _ => GlyphRecord.read_regular d

theorem Font.record_points_le (f : Font) (i : UInt16) : Yields Anything (f.record i) fun r =>
    ∀ g, r.shape = .simple g → g.points.size ≤ 65536 :=
  (Yields.anything _).bind fun d _ => GlyphRecord.read_points_le d

def GlyphShape.components : GlyphShape → List Component
  | .simple _ => []
  | .compound g => g.components

def GlyphShape.program : GlyphShape → FontM Bytes
  | .simple g => .ok g.program
  | .compound g => g.rest

/-- A glyph with its components, down to simple glyphs. -/
inductive GlyphTree where
  | simple (g : SimpleGlyph)
  | compound (parts : List (Component × GlyphTree))

/-- A simple glyph in a tree. `offset` is the sum of the offsets on the way to it, and `rounds` says
whether that sum is rounded to the grid. -/
structure Leaf where
  glyph : SimpleGlyph
  offset : Point
  rounds : Bool

namespace GlyphTree

theorem sizeOf_part {parts : List (Component × GlyphTree)} {p : Component × GlyphTree}
    (h : p ∈ parts) : sizeOf p.2 < sizeOf (compound parts) := by
  have hp := List.sizeOf_lt_of_mem h
  rcases p with ⟨c, t⟩
  simp only [Prod.mk.sizeOf_spec, compound.sizeOf_spec] at hp ⊢
  omega

/-- The simple glyphs of a tree that is moved by `offset`, from left to right. -/
def leaves (t : GlyphTree) (offset : Point) (rounds : Bool) : List Leaf :=
  match t with
  | .simple g => [⟨g, offset, rounds⟩]
  | .compound parts => parts.flatMap fun p => p.2.leaves (offset + p.1.offset) p.1.roundsOffset
termination_by sizeOf t
decreasing_by exact sizeOf_part ‹_›

/-- The components of a tree, on all levels. -/
def components (t : GlyphTree) : List Component :=
  match t with
  | .simple _ => []
  | .compound parts => parts.flatMap fun p => p.1 :: p.2.components
termination_by sizeOf t
decreasing_by exact sizeOf_part ‹_›

theorem leaves_simple (g : SimpleGlyph) (offset : Point) (rounds : Bool) :
    leaves (.simple g) offset rounds = [⟨g, offset, rounds⟩] := by
  rw [leaves]

theorem leaves_compound (parts : List (Component × GlyphTree)) (offset : Point) (rounds : Bool) :
    leaves (.compound parts) offset rounds =
      parts.flatMap fun p => p.2.leaves (offset + p.1.offset) p.1.roundsOffset := by
  rw [leaves]

theorem mem_components {parts : List (Component × GlyphTree)} {c : Component} :
    c ∈ components (.compound parts) ↔ ∃ p ∈ parts, c = p.1 ∨ c ∈ p.2.components := by
  rw [components]
  simp only [List.mem_flatMap, List.mem_cons]

end GlyphTree

/-! ### The tree of a glyph -/

namespace Font

variable {f : Font} {n k : Nat} {i j : UInt16} {t u : GlyphTree}

/-- Glyph `j` is a component of glyph `i`: the first record of glyph `i` leads to one of glyph `j`. -/
def HasComponent (f : Font) (i j : UInt16) : Prop :=
  ∃ d c, f.HasData i d ∧ Compound.HasHeader d ∧ (Compound.firstRecord d).Leads c ∧ c.glyph = j

/-- `t` is the tree of components of glyph `i`, with at most `n` levels of components: its data is
that of a simple glyph, or has a record for each component in order. -/
inductive HasTree (f : Font) : Nat → UInt16 → GlyphTree → Prop
  | simple {n : Nat} {i : UInt16} {d : Bytes} {g : SimpleGlyph} :
      f.HasData i d → SimpleGlyph.Written d g → HasTree f n i (.simple g)
  | compound {n : Nat} {i : UInt16} {d program : Bytes} {parts : List (Component × GlyphTree)} :
      f.HasData i d → Compound.Written d (parts.map (·.1)) program →
      (∀ p ∈ parts, HasTree f n p.1.glyph p.2) → HasTree f (n + 1) i (.compound parts)

theorem exists_record {shape : GlyphShape} : (∃ r, f.record i = .ok r ∧ r.shape = shape) ↔
    ∃ d, f.HasData i d ∧ ∃ r, GlyphRecord.read d = .ok r ∧ r.shape = shape := by
  constructor
  · rintro ⟨r, hr, hs⟩
    obtain ⟨d, hd, hr⟩ := FontM.exists_of_bind_ok hr
    exact ⟨d, glyphData_ok.1 hd, r, hr, hs⟩
  · rintro ⟨d, hd, r, hr, hs⟩
    exact ⟨r, FontM.bind_eq_ok.2 ⟨d, glyphData_ok.2 hd, hr⟩, hs⟩

theorem hasComponent_iff : f.HasComponent i j ↔
    ∃ r g, f.record i = .ok r ∧ r.shape = .compound g ∧ ∃ c ∈ g.components, c.glyph = j := by
  constructor
  · rintro ⟨d, c, hd, hheader, hc, hj⟩
    obtain ⟨r, hr, hg⟩ := exists_record.2 ⟨d, hd, GlyphRecord.exists_compound.2 ⟨hheader, rfl⟩⟩
    exact ⟨r, _, hr, hg, c, ComponentRecord.mem_components.2 hc, hj⟩
  · rintro ⟨r, g, hr, hg, c, hc, hj⟩
    obtain ⟨d, hd, hread⟩ := exists_record.1 ⟨r, hr, hg⟩
    obtain ⟨hheader, rfl⟩ := GlyphRecord.exists_compound.1 hread
    exact ⟨d, c, hd, hheader, ComponentRecord.mem_components.1 hc, hj⟩

namespace HasTree

variable {r : GlyphRecord} {g : SimpleGlyph} {program : Bytes} {parts : List (Component × GlyphTree)}

/-- A simple glyph that is read is its own tree. -/
theorem of_simple (hr : f.record i = .ok r) (hg : r.shape = .simple g) :
    f.HasTree n i (.simple g) := by
  obtain ⟨d, hd, hread⟩ := exists_record.1 ⟨r, hr, hg⟩
  exact .simple hd (GlyphRecord.exists_simple.1 hread)

theorem of_compound {g : Compound} (hr : f.record i = .ok r) (hg : r.shape = .compound g)
    (hrest : g.rest = .ok program) (hmap : parts.map (·.1) = g.components)
    (h : ∀ p ∈ parts, f.HasTree n p.1.glyph p.2) : f.HasTree (n + 1) i (.compound parts) := by
  obtain ⟨d, hd, hread⟩ := exists_record.1 ⟨r, hr, hg⟩
  obtain ⟨hheader, rfl⟩ := GlyphRecord.exists_compound.1 hread
  exact .compound hd ⟨hheader, ComponentRecord.readFrom_lists.1 ⟨hmap.symm, hrest⟩⟩ h

theorem record_simple {d : Bytes} (hd : f.HasData i d) (hw : SimpleGlyph.Written d g) :
    ∃ r, f.record i = .ok r ∧ r.shape = .simple g :=
  exists_record.2 ⟨d, hd, GlyphRecord.exists_simple.2 hw⟩

theorem record_compound {d : Bytes} {cs : List Component} (hd : f.HasData i d)
    (hw : Compound.Written d cs program) : ∃ r g, f.record i = .ok r ∧ r.shape = .compound g ∧
      g.components = cs ∧ g.rest = .ok program := by
  obtain ⟨r, hr, hg⟩ :=
    exists_record.2 ⟨d, hd, GlyphRecord.exists_compound.2 ⟨hw.toHasHeader, rfl⟩⟩
  exact ⟨r, _, hr, hg, ComponentRecord.readFrom_lists.2 hw.lists⟩

/-- Parts that belong to the same components are the same, if components determine them. -/
theorem parts_unique {parts parts' : List (Component × GlyphTree)}
    (hmap : parts.map (·.1) = parts'.map (·.1))
    (h : ∀ p ∈ parts, ∀ p' ∈ parts', p.1 = p'.1 → p.2 = p'.2) : parts = parts' := by
  induction parts generalizing parts' with
  | nil =>
    cases parts' with
    | nil => rfl
    | cons p' parts' => cases hmap
  | cons p parts ih =>
    cases parts' with
    | nil => cases hmap
    | cons p' parts' =>
      simp only [List.map_cons, List.cons.injEq] at hmap
      have hp : p = p' := Prod.ext hmap.1 (h p (by simp) p' (by simp) hmap.1)
      rw [hp, ih hmap.2 fun q hq q' hq' => h q (by simp [hq]) q' (by simp [hq'])]

theorem shape_unique {r r' : GlyphRecord} {a b : GlyphShape} (hr : f.record i = .ok r)
    (ha : r.shape = a) (hr' : f.record i = .ok r') (hb : r'.shape = b) : a = b := by
  rw [hr] at hr'
  cases hr'
  exact ha.symm.trans hb

/-- A glyph has one tree of components at most. -/
theorem unique (ht : f.HasTree n i t) (hu : f.HasTree k i u) : t = u := by
  induction ht generalizing k u with
  | simple hd hw =>
    obtain ⟨r, hr, hg⟩ := record_simple hd hw
    cases hu with
    | simple hd' hw' =>
      obtain ⟨r', hr', hg'⟩ := record_simple hd' hw'
      cases shape_unique hr hg hr' hg'
      rfl
    | compound hd' hw' =>
      obtain ⟨r', g', hr', hg', -⟩ := record_compound hd' hw'
      cases shape_unique hr hg hr' hg'
  | compound hd hw _ ih =>
    obtain ⟨r, g, hr, hg, hmap, -⟩ := record_compound hd hw
    cases hu with
    | simple hd' hw' =>
      obtain ⟨r', hr', hg'⟩ := record_simple hd' hw'
      cases shape_unique hr hg hr' hg'
    | compound hd' hw' hparts' =>
      obtain ⟨r', g', hr', hg', hmap', -⟩ := record_compound hd' hw'
      cases shape_unique hr hg hr' hg'
      refine congrArg _ (parts_unique (hmap.symm.trans hmap') fun p hp p' hp' he => ?_)
      exact ih p hp (he ▸ hparts' p' hp')

/-- A component has a tree with one level less. -/
theorem component (ht : f.HasTree n i t) (hc : f.HasComponent i j) :
    ∃ k u, k < n ∧ f.HasTree k j u := by
  obtain ⟨r, g, hr, hg, c, hm, rfl⟩ := hasComponent_iff.1 hc
  cases ht with
  | simple hd hw =>
    obtain ⟨r', hr', hg'⟩ := record_simple hd hw
    cases shape_unique hr hg hr' hg'
  | @compound n _ _ _ parts hd hw hparts =>
    obtain ⟨r', g', hr', hg', hmap, -⟩ := record_compound hd hw
    cases shape_unique hr hg hr' hg'
    rw [hmap] at hm
    obtain ⟨p, hp, rfl⟩ := List.mem_map.1 hm
    exact ⟨n, p.2, Nat.lt_succ_self n, hparts p hp⟩

theorem descendant (ht : f.HasTree n i t) (hc : Relation.TransGen f.HasComponent i j) :
    ∃ k u, k < n ∧ f.HasTree k j u := by
  induction hc with
  | single hc => exact ht.component hc
  | tail _ hc ih =>
    obtain ⟨k, u, hk, hu⟩ := ih
    obtain ⟨k', u', hk', hu'⟩ := hu.component hc
    exact ⟨k', u', by omega, hu'⟩

/-- A glyph with a tree does not reach itself: each component on the way has fewer levels. -/
theorem acyclic (ht : f.HasTree n i t) : ¬Relation.TransGen f.HasComponent i i := by
  intro hc
  induction n using Nat.strongRecOn generalizing t with
  | _ n ih =>
    obtain ⟨k, u, hk, hu⟩ := ht.descendant hc
    exact ih k hk hu

end HasTree

end Font

/-! ### Contours in order -/

namespace Contours

variable {a b c : Contours}

theorem eq_of_parts (hp : a.points = b.points) (hu : a.unhinted = b.unhinted) (hf : a.units = b.units)
    (he : a.ends = b.ends) : a = b := by
  cases a
  cases b
  cases hp
  cases hu
  cases hf
  cases he
  rfl

theorem size_unhinted_of (c : Contours) {points : Array GlyphPoint}
    (h : points.size = c.points.size) : c.unhinted.size = points.size :=
  c.size_unhinted.trans h.symm

theorem size_units_of (c : Contours) {points : Array GlyphPoint} (h : points.size = c.points.size) :
    c.units.size = points.size :=
  c.size_units.trans h.symm

/-- The contours with other points in place of theirs. -/
def withPoints (c : Contours) (points : Array GlyphPoint) (h : points.size = c.points.size) :
    Contours :=
  { c with points, size_unhinted := c.size_unhinted_of h, size_units := c.size_units_of h }

/-- The contours as they are before hinting. -/
def unhint (c : Contours) : Contours := c.withPoints c.unhinted c.size_unhinted

/-- Hinting keeps the number of points. -/
theorem size_of_unhint (h : a.unhint = b.unhint) : a.points.size = b.points.size :=
  calc a.points.size = a.unhint.points.size := a.size_unhinted.symm
    _ = b.unhint.points.size := by rw [h]
    _ = b.points.size := b.size_unhinted

theorem unhint_append (a b : Contours) : (a.append b).unhint = a.unhint.append b.unhint := by
  refine eq_of_parts rfl rfl rfl ?_
  show a.ends ++ b.ends.map (a.points.size + ·) = a.ends ++ b.ends.map (a.unhinted.size + ·)
  rw [a.size_unhinted]

theorem append_empty (a : Contours) : a.append {} = a := by
  refine eq_of_parts Array.append_empty Array.append_empty Array.append_empty ?_
  show a.ends ++ #[].map (a.points.size + ·) = a.ends
  simp

theorem empty_append (a : Contours) : append {} a = a := by
  refine eq_of_parts Array.empty_append Array.empty_append Array.empty_append ?_
  show #[] ++ a.ends.map (0 + ·) = a.ends
  simp

theorem append_assoc (a b c : Contours) : (a.append b).append c = a.append (b.append c) := by
  refine eq_of_parts (Array.append_assoc ..) (Array.append_assoc ..) (Array.append_assoc ..) ?_
  show a.ends ++ b.ends.map (a.points.size + ·) ++ c.ends.map ((a.points ++ b.points).size + ·) =
    a.ends ++ (b.ends ++ c.ends.map (b.points.size + ·)).map (a.points.size + ·)
  simp [Function.comp_def, Nat.add_assoc]

/-- Contours one after the other. -/
def join : List Contours → Contours
  | [] => default
  | c :: l => c.append (join l)

theorem join_cons (c : Contours) (l : List Contours) : join (c :: l) = c.append (join l) := rfl

theorem foldl_append (a : Contours) (l : List Contours) : l.foldl append a = a.append (join l) := by
  induction l generalizing a with
  | nil => exact (append_empty a).symm
  | cons c l ih => rw [List.foldl_cons, ih, join_cons, append_assoc]

theorem join_append (l l' : List Contours) : join (l ++ l') = (join l).append (join l') := by
  induction l with
  | nil => exact (empty_append _).symm
  | cons c l ih => rw [List.cons_append, join_cons, ih, join_cons, append_assoc]

theorem join_flatMap {α : Type} (l : List α) (g : α → List Contours) :
    join (l.flatMap g) = join (l.map fun x => join (g x)) := by
  induction l with
  | nil => rfl
  | cons x l ih => rw [List.flatMap_cons, join_append, ih, List.map_cons, join_cons]

theorem unhint_join (l : List Contours) : (join l).unhint = join (l.map unhint) := by
  induction l with
  | nil => rfl
  | cons c l ih => rw [join_cons, unhint_append, ih, List.map_cons, join_cons]

theorem units_join (l : List Contours) : (join l).units.toList = l.flatMap (·.units.toList) := by
  induction l with
  | nil => rfl
  | cons c l ih =>
    rw [join_cons, List.flatMap_cons, ← ih]
    exact Array.toList_append

end Contours

/-- The contours of a leaf for a scale. -/
def Leaf.contours (l : Leaf) (factor : Int32) : Contours :=
  Glyph.Placing.contours ⟨factor, l.offset, l.rounds⟩ l.glyph.points l.glyph.ends

/-- The points of a leaf in font units, at their place. -/
def Leaf.units (l : Leaf) : List GlyphPoint :=
  l.glyph.points.toList.map fun p => { p with x := p.x + l.offset.x, y := p.y + l.offset.y }

/-- The contour ends of consecutive leaves, the first of which comes after `start` points. -/
def Leaf.endsFrom (start : Nat) : List Leaf → List Nat
  | [] => []
  | l :: ls => l.glyph.ends.toList.map (start + ·) ++ endsFrom (start + l.glyph.points.size) ls

namespace GlyphTree

/-- The contours of a tree for a scale, moved by `offset` and not hinted. -/
def contours (t : GlyphTree) (factor : Int32) (offset : Point) (rounds : Bool) : Contours :=
  .join ((t.leaves offset rounds).map (·.contours factor))

theorem contours_simple (g : SimpleGlyph) (factor : Int32) (offset : Point) (rounds : Bool) :
    contours (.simple g) factor offset rounds =
      Glyph.Placing.contours ⟨factor, offset, rounds⟩ g.points g.ends := by
  rw [contours, leaves_simple, List.map_singleton, Contours.join_cons]
  exact Contours.append_empty _

theorem contours_compound (parts : List (Component × GlyphTree)) (factor : Int32) (offset : Point)
    (rounds : Bool) :
    contours (.compound parts) factor offset rounds =
      .join (parts.map fun p => p.2.contours factor (offset + p.1.offset) p.1.roundsOffset) := by
  rw [contours, leaves_compound, List.map_flatMap, Contours.join_flatMap]
  rfl

theorem units_contours (t : GlyphTree) (factor : Int32) (offset : Point) (rounds : Bool) :
    (t.contours factor offset rounds).units.toList = (t.leaves offset rounds).flatMap Leaf.units := by
  rw [contours, Contours.units_join, List.flatMap_map]
  congr 1
  funext l
  exact Array.toList_map

end GlyphTree

/-! ### Contour ends -/

namespace Leaf

theorem endsFrom_eq_map (start : Nat) (ls : List Leaf) :
    endsFrom start ls = (endsFrom 0 ls).map (start + ·) := by
  induction ls generalizing start with
  | nil => rfl
  | cons l ls ih =>
    rw [endsFrom, endsFrom, ih, ih (0 + _)]
    simp [Function.comp_def, Nat.add_assoc]

theorem ends_join (ls : List Leaf) (factor : Int32) :
    (Contours.join (ls.map (·.contours factor))).ends.toList = endsFrom 0 ls := by
  induction ls with
  | nil => rfl
  | cons l ls ih =>
    have hsize : (l.contours factor).points.size = l.glyph.points.size := Array.size_map
    rw [List.map_cons, Contours.join_cons, endsFrom, endsFrom_eq_map, ← ih, ← hsize]
    simp [Contours.append, contours, Glyph.Placing.contours]

/-- The number of points of leaves. -/
def pointCount : List Leaf → Nat
  | [] => 0
  | l :: ls => l.glyph.points.size + pointCount ls

theorem pointCount_append (ls ls' : List Leaf) :
    pointCount (ls ++ ls') = pointCount ls + pointCount ls' := by
  induction ls with
  | nil => exact (Nat.zero_add _).symm
  | cons l ls ih => rw [List.cons_append, pointCount, pointCount, ih, Nat.add_assoc]

theorem pointCount_flatMap {α : Type} (l : List α) (g : α → List Leaf) :
    pointCount (l.flatMap g) = (l.map fun x => pointCount (g x)).sum := by
  induction l with
  | nil => rfl
  | cons x l ih => rw [List.flatMap_cons, pointCount_append, ih, List.map_cons, List.sum_cons]

theorem size_join (ls : List Leaf) (factor : Int32) :
    (Contours.join (ls.map (·.contours factor))).points.size = pointCount ls := by
  induction ls with
  | nil => rfl
  | cons l ls ih =>
    rw [List.map_cons, Contours.join_cons, pointCount, ← ih]
    exact Array.size_append.trans (congrArg (· + _) Array.size_map)

/-- The contours of leaves end in order: those of a leaf lie past all points before it. -/
theorem endsFrom_inOrder {ls : List Leaf} (h : ∀ l ∈ ls, l.glyph.Regular) (start : Nat) :
    (endsFrom start ls).Pairwise (· < ·) ∧ ∀ e ∈ endsFrom start ls, start < e := by
  induction ls generalizing start with
  | nil => exact ⟨.nil, fun _ he => nomatch he⟩
  | cons l ls ih =>
    have hl := h l (by simp)
    obtain ⟨hp, hgt⟩ := ih (fun l' hl' => h l' (by simp [hl'])) (start + l.glyph.points.size)
    have hown : ∀ e ∈ l.glyph.ends.toList.map (start + ·),
        start < e ∧ e ≤ start + l.glyph.points.size := by
      intro e he
      obtain ⟨e', he', rfl⟩ := List.mem_map.1 he
      have hpos := hl.ends.2 e' (Array.mem_toList_iff.1 he')
      have hle := hl.end_le (Array.mem_toList_iff.1 he')
      omega
    rw [endsFrom]
    refine ⟨List.pairwise_append.2 ⟨?_, hp, fun e he e' he' => ?_⟩, fun e he => ?_⟩
    · exact List.pairwise_map.2 (hl.ends.1.imp fun h => Nat.add_lt_add_left h start)
    · exact Nat.lt_of_le_of_lt (hown e he).2 (hgt e' he')
    · rcases List.mem_append.1 he with he | he
      · exact (hown e he).1
      · have hlt := hgt e he
        omega

/-- The last contour of leaves ends at their last point. -/
theorem getLast_endsFrom {ls : List Leaf} (h : ∀ l ∈ ls, l.glyph.Regular) (start : Nat) :
    (endsFrom start ls).getLast?.getD start = start + pointCount ls := by
  induction ls generalizing start with
  | nil => rfl
  | cons l ls ih =>
    have hl := h l (by simp)
    have ih := ih (fun l' hl' => h l' (by simp [hl'])) (start + l.glyph.points.size)
    have hlast : (l.glyph.ends.toList.map (start + ·)).getLast?.getD start =
        start + l.glyph.points.size := by
      rw [hl.points, List.getLast?_map, ← Array.getLast?_toList]
      cases l.glyph.ends.toList.getLast? <;> rfl
    rw [endsFrom, List.getLast?_append, pointCount, ← Nat.add_assoc, ← ih]
    cases hr : (endsFrom (start + l.glyph.points.size) ls).getLast? with
    | none => simpa using hlast
    | some e => rfl

end Leaf

theorem GlyphTree.size_of_unhint {t : GlyphTree} {c : Contours} {factor : Int32} {offset : Point}
    {rounds : Bool} (h : c.unhint = t.contours factor offset rounds) :
    c.points.size = Leaf.pointCount (t.leaves offset rounds) :=
  c.size_unhinted.symm.trans ((congrArg (·.points.size) h).trans (Leaf.size_join ..))

end GridFit
