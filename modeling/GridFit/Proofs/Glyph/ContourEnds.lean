import GridFit.Proofs.Glyph.HintCalls

/-!
# Contours handed to the interpreter

The interpreter knows a contour by the number of its last point, in 16 bits. A simple glyph has at most
65536 points, so its contours are handed on as they are. A compound glyph may have more: then the
numbers wrap around, and the interpreter sees other contours than the glyph has
(`GlyphBuffer.contours_kept`).
-/

namespace GridFit

/-- The contours end in order, the last one at the last point. -/
structure Contours.Regular (c : Contours) : Prop where
  ends : SimpleGlyph.EndsInOrder c.ends
  points : c.points.size = c.ends.back?.getD 0

namespace Contours.Regular

variable {c : Contours}

theorem of_unhint (h : c.unhint.Regular) : c.Regular := ⟨h.ends, c.size_unhinted.symm.trans h.points⟩

theorem end_le (h : c.Regular) {e : Nat} (he : e ∈ c.ends) : e ≤ c.points.size := by
  obtain ⟨last, hback, hle⟩ := h.ends.le_last he
  rw [h.points, hback]
  exact hle

theorem end_pos (h : c.Regular) {n : Nat} (hn : n < c.ends.size) : 0 < c.ends[n] :=
  h.ends.2 _ (Array.getElem_mem hn)

theorem end_lt (h : c.Regular) {m n : Nat} (hn : n < c.ends.size) (hm : m < n) :
    c.ends[m] < c.ends[n] :=
  List.pairwise_iff_getElem.1 h.ends.1 m n (Nat.lt_trans hm hn) hn hm

end Contours.Regular

theorem Font.HasTree.contours_regular {f : Font} {n : Nat} {i : UInt16} {t : GlyphTree}
    (ht : f.HasTree n i t) (factor : Int32) (offset : Point) (rounds : Bool) :
    (t.contours factor offset rounds).Regular := by
  have hreg : ∀ l ∈ t.leaves offset rounds, l.glyph.Regular := fun _ hl => ht.leaves_regular hl
  have hends : (t.contours factor offset rounds).ends.toList =
      Leaf.endsFrom 0 (t.leaves offset rounds) := Leaf.ends_join ..
  obtain ⟨hinorder, hpos⟩ := Leaf.endsFrom_inOrder hreg 0
  refine ⟨⟨hends ▸ hinorder, fun e he => hpos e (hends ▸ Array.mem_toList_iff.2 he)⟩, ?_⟩
  have hlast := Leaf.getLast_endsFrom hreg 0
  rw [← hends, Array.getLast?_toList, Nat.zero_add] at hlast
  rw [hlast]
  exact Leaf.size_join ..

theorem Glyph.Assembled.regular {ctx : Context} {n : Nat} {i : UInt16} {offset : Point}
    {rounds : Bool} {s s' : Progress} {d : Draft} (ha : Assembled ctx n i offset rounds s d s') :
    d.body.Regular := by
  obtain ⟨t, ht, hc⟩ := ha.tree
  exact .of_unhint (hc ▸ ht.contours_regular ..)

theorem Glyph.Assembled.program_eq {ctx : Context} {n : Nat} {i : UInt16} {offset : Point}
    {rounds : Bool} {s s' : Progress} {d : Draft} {r : GlyphRecord}
    (ha : Assembled ctx n i offset rounds s d s') (hr : ctx.font.record i = .ok r) :
    r.shape.program = .ok d.program := by
  cases ha with
  | simple hr' hg =>
    cases hr.symm.trans hr'
    rw [hg]
    rfl
  | compound hr' hg _ _ hprogram =>
    cases hr.symm.trans hr'
    rw [hg]
    exact hprogram

/-- A glyph that is not composite has no more points than a word can count, and one more. -/
theorem Glyph.Assembled.points_le {ctx : Context} {n : Nat} {i : UInt16} {offset : Point}
    {rounds : Bool} {s s' : Progress} {d : Draft} (ha : Assembled ctx n i offset rounds s d s')
    (hd : d.composite = false) : d.body.points.size ≤ 65536 := by
  cases ha with
  | simple hr hg =>
    exact Nat.le_trans (Nat.le_of_eq Array.size_map) ((ctx.font.record_points_le i).ok hr _ hg)
  | compound => cases hd

namespace GlyphBuffer

open Glyph (Placing Context)

namespace HintCall

variable {k : HintCall} {o : Outline} {c : Contours} {d : Glyph.Draft} {t : Placing} {m : HMetric}

/-- Where contour `n` starts, among the points of the glyph. -/
def firstPoint (k : HintCall) (n : Nat) : Nat :=
  if n = 0 then 0 else k.ends[n - 1]?.getD 0 - k.start

/-- The outline `o` has the contours of the glyph. The end of a contour becomes the number of its last
point among the points of the glyph, and the interpreter finds the points of the contour there. -/
structure Keeps (k : HintCall) (o : Outline) : Prop where
  size : o.contours.size = k.ends.size
  exact : ∀ n (h : n < o.contours.size) (h' : n < k.ends.size),
    (o.contours[n].toNat : Int) = k.ends[n] - k.start - 1
  inOrder : o.contours.toList.Pairwise (· < ·)
  range : ∀ n (h : n < k.ends.size),
    o.zone.contour n = .ok (k.firstPoint n, k.ends[n] - k.start - 1)
  points : ∀ j < k.pointCount,
    o.zone.points[j]? = k.bench.buffer.cells[k.start + j]?.map fun p => ⟨p.x, p.y⟩

/-! ### What is known at a call -/

theorem ends_withPhantoms (d : Glyph.Draft) (t : Placing) (m : HMetric) :
    (d.withPhantoms t m).ends = d.body.ends := by
  show d.body.ends ++ #[].map _ = _
  rw [Array.map_empty, Array.append_empty]

theorem size_withPhantoms (d : Glyph.Draft) (t : Placing) (m : HMetric) :
    (d.withPhantoms t m).points.size = d.body.points.size + Phantom.count :=
  Glyph.size_append_phantoms ..

/-- Only the phantom points are rounded. -/
theorem getElem?_roundPhantoms {points rounded : Array GlyphPoint}
    (h : Glyph.roundPhantoms points = .ok rounded) {j : Nat} (hj : j + 4 < points.size) :
    rounded[j]? = points[j]? := by
  unfold Glyph.roundPhantoms at h
  dsimp only at h
  split at h <;> cases h
  simp only [Array.getElem?_modify]
  rw [if_neg (by omega), if_neg (by omega), if_neg (by omega), if_neg (by omega)]

namespace At

variable (h : k.At c d t m)
include h

theorem ends_eq : k.ends = d.body.ends.map (c.points.size + ·) := by
  have hslice := h.holds.slice_ends
  rw [Memory.slice, ends_withPhantoms] at hslice
  split at hslice
  · rw [ends, h.firstEnd]
    exact Except.ok.inj hslice
  · cases hslice

theorem pointCount_eq : k.pointCount = d.body.points.size := by
  rw [pointCount, h.holds.count_append, h.start, size_withPhantoms]
  omega

theorem outline_ok : ∃ rounded, Glyph.roundPhantoms (d.withPhantoms t m).points = .ok rounded ∧
    k.outline = .ok (Glyph.outline k.glyph k.program k.composite (d.withPhantoms t m) rounded) := by
  have hroom : Phantom.count ≤ (d.withPhantoms t m).points.size := by
    rw [size_withPhantoms]
    omega
  obtain ⟨rounded, hr⟩ := (Glyph.roundPhantoms_surely hroom).exists_ok
  refine ⟨rounded, hr, ?_⟩
  rw [← outline_fill k.bench.outlines hr k.glyph k.program k.composite c.points.size]
  unfold outline
  dsimp only
  rw [h.start, h.firstEnd, h.holds.slice_cells, FontM.ok_bind, h.holds.slice_units, FontM.ok_bind,
    h.holds.slice_ends, FontM.ok_bind, hr, FontM.ok_bind]
  rfl

/-- A point of the glyph is handed on from its place in the buffer. -/
theorem getElem?_cells {j : Nat} (hj : j < d.body.points.size) :
    k.bench.buffer.cells[k.start + j]? = (d.withPhantoms t m).points[j]? := by
  obtain ⟨rest, hcells⟩ := h.holds.cells
  have hj' : j < (d.withPhantoms t m).points.size := by
    rw [size_withPhantoms]
    omega
  have happend : (c.append (d.withPhantoms t m)).points =
      c.points ++ (d.withPhantoms t m).points := rfl
  rw [hcells, h.start, happend, Array.append_assoc, Array.getElem?_append_right (by omega),
    Nat.add_sub_cancel_left, Array.getElem?_append_left hj']

end At

/-! ### Contours that fit -/

/-- The number of the last point of a contour that ends at `e`. -/
theorem toNat_last {e : Nat} (h : e ≤ 65536) (hpos : 0 < e) :
    (UInt16.ofNat (e - 1)).toNat = e - 1 := by
  rw [UInt16.toNat_ofNat']
  exact Nat.mod_eq_of_lt (by omega)

namespace At

variable (h : k.At c d t m)
include h

theorem firstPoint_eq {n : Nat} (hn : n < d.body.ends.size) :
    k.firstPoint n = if n = 0 then 0 else d.body.ends[n - 1] := by
  have hn' : n - 1 < d.body.ends.size := by omega
  simp [firstPoint, h.ends_eq, h.start, hn']

theorem contours_eq (ho : k.outline = .ok o) :
    o.contours = d.body.ends.map fun e => UInt16.ofNat (e - 1) := by
  obtain ⟨rounded, -, ho'⟩ := h.outline_ok
  cases ho.symm.trans ho'
  exact congrArg (Array.map _) (ends_withPhantoms ..)

theorem points_eq (ho : k.outline = .ok o) : o.points.size = d.body.points.size + Phantom.count ∧
    ∀ j < d.body.points.size,
      o.points[j]? = k.bench.buffer.cells[k.start + j]?.map fun p => ⟨p.x, p.y⟩ := by
  obtain ⟨rounded, hr, ho'⟩ := h.outline_ok
  cases ho.symm.trans ho'
  have hsize := size_withPhantoms d t m
  refine ⟨?_, fun j hj => ?_⟩
  · rw [← hsize, ← size_roundPhantoms hr]
    exact Array.size_map
  · show (rounded.map _)[j]? = _
    rw [Array.getElem?_map, h.getElem?_cells hj, getElem?_roundPhantoms hr]
    rw [hsize]
    exact Nat.add_lt_add_right hj _

theorem ends_sub {n : Nat} (hn : n < k.ends.size) (hn' : n < d.body.ends.size) :
    k.ends[n] - k.start = d.body.ends[n] := by
  simp only [h.ends_eq, h.start, Array.getElem_map, Nat.add_sub_cancel_left]

theorem toNat_contour (hreg : d.body.Regular) (ho : k.outline = .ok o)
    (hfits : k.pointCount ≤ 65536) {n : Nat} (hn : n < o.contours.size)
    (hn' : n < d.body.ends.size) : o.contours[n].toNat = d.body.ends[n] - 1 := by
  rw [h.pointCount_eq] at hfits
  have hle : d.body.ends[n] ≤ 65536 := Nat.le_trans (hreg.end_le (Array.getElem_mem hn')) hfits
  simp only [h.contours_eq ho, Array.getElem_map]
  exact toNat_last hle (hreg.end_pos hn')

/-- The interpreter finds the points of a contour. -/
theorem contour_ok (hreg : d.body.Regular) (ho : k.outline = .ok o)
    (hfits : k.pointCount ≤ 65536) {n : Nat} (hn : n < o.contours.size)
    (hn' : n < d.body.ends.size) :
    o.zone.contour n = .ok (k.firstPoint n, d.body.ends[n] - 1) := by
  have hpos := hreg.end_pos hn'
  have hlast := h.toNat_contour hreg ho hfits hn hn'
  have hfirst : (if n = 0 then 0 else o.contours[n - 1].toNat + 1) = k.firstPoint n := by
    rw [h.firstPoint_eq hn']
    split
    · rfl
    · rw [h.toNat_contour hreg ho hfits (by omega) (by omega)]
      exact Nat.sub_add_cancel (hreg.end_pos (by omega))
  have hle : k.firstPoint n ≤ d.body.ends[n] - 1 := by
    rw [h.firstPoint_eq hn']
    split
    · exact Nat.zero_le _
    · exact Nat.le_sub_one_of_lt (hreg.end_lt hn' (by omega))
  have hinside : d.body.ends[n] - 1 < o.points.size := by
    rw [(h.points_eq ho).1]
    have := hreg.end_le (Array.getElem_mem hn')
    omega
  rw [← hfirst, ← hlast] at hle ⊢
  rw [← hlast] at hinside
  exact (dif_pos hn).trans (if_pos ⟨hle, hinside⟩)

theorem keeps (hreg : d.body.Regular) (ho : k.outline = .ok o) (hfits : k.pointCount ≤ 65536) :
    k.Keeps o := by
  have hsize : k.ends.size = d.body.ends.size := by rw [h.ends_eq, Array.size_map]
  have hsize' : o.contours.size = d.body.ends.size := by rw [h.contours_eq ho, Array.size_map]
  constructor
  case size => rw [hsize, hsize']
  case exact =>
    intro n hn hn'
    rw [h.toNat_contour hreg ho hfits hn (hsize ▸ hn')]
    have hsub := h.ends_sub hn' (hsize ▸ hn')
    have hpos := hreg.end_pos (hsize ▸ hn')
    omega
  case inOrder =>
    refine List.pairwise_iff_getElem.2 fun n₁ n₂ h₁ h₂ hn => ?_
    rw [Array.length_toList] at h₁ h₂
    rw [Array.getElem_toList, Array.getElem_toList, UInt16.lt_iff_toNat_lt,
      h.toNat_contour hreg ho hfits h₁ (hsize' ▸ h₁), h.toNat_contour hreg ho hfits h₂ (hsize' ▸ h₂)]
    exact Nat.sub_lt_sub_right (hreg.end_pos (hsize' ▸ h₁)) (hreg.end_lt (hsize' ▸ h₂) hn)
  case range =>
    intro n hn
    rw [h.ends_sub hn (hsize ▸ hn)]
    exact h.contour_ok hreg ho hfits (by omega) (hsize ▸ hn)
  case points =>
    intro j hj
    rw [h.pointCount_eq] at hj
    exact (h.points_eq ho).2 j hj

theorem fits (hreg : d.body.Regular) (ho : k.outline = .ok o)
    (hexact : ∀ n (h : n < o.contours.size) (h' : n < k.ends.size),
      (o.contours[n].toNat : Int) = k.ends[n] - k.start - 1) : k.pointCount ≤ 65536 := by
  refine Nat.le_of_not_lt fun hmany => ?_
  rw [h.pointCount_eq, hreg.points, Array.back?_eq_getElem?] at hmany
  -- The last contour ends at the last point, the number of which is too large.
  have hn : d.body.ends.size - 1 < d.body.ends.size := by
    refine Nat.lt_of_not_le fun hempty => ?_
    rw [Array.getElem?_eq_none hempty] at hmany
    exact absurd hmany (by decide)
  rw [Array.getElem?_eq_getElem hn] at hmany
  have hn' : d.body.ends.size - 1 < k.ends.size := by
    rw [h.ends_eq, Array.size_map]
    exact hn
  have hn₁ : d.body.ends.size - 1 < o.contours.size := by
    rw [h.contours_eq ho, Array.size_map]
    exact hn
  have hlast := hexact (d.body.ends.size - 1) hn₁ hn'
  simp only [h.ends_eq, h.start, Array.getElem_map] at hlast
  have hlt := UInt16.toNat_lt o.contours[d.body.ends.size - 1]
  simp only [Option.getD_some] at hmany
  omega

end At

/-- The contours of a glyph are handed on as they are exactly if it has no more points than a word can
count, and one more. -/
theorem keeps_iff (h : k.At c d t m) (hreg : d.body.Regular) (ho : k.outline = .ok o) :
    k.Keeps o ↔ k.pointCount ≤ 65536 :=
  ⟨fun hk => h.fits hreg ho hk.exact, h.keeps hreg ho⟩

end HintCall

variable {f : Font} {scale : Int32} {i : UInt16} {b : GlyphBuffer} {h : BufferedHinter}
  {k : HintCall}

/-- The interpreter is asked to hint an outline with the contours of the glyph exactly if that has at
most 65536 points. A simple glyph never has more. By `add_congr` the outlines of such calls are all
that it sees of a glyph. -/
theorem contours_kept (hk : LoadCalls b f scale i h k) :
    ∃ o, k.outline = .ok o ∧ (k.Keeps o ↔ k.pointCount ≤ 65536) ∧
      (k.composite = false → k.pointCount ≤ 65536) := by
  obtain ⟨c, d, t, m, hat, _, _, _, _, _, _, ha⟩ := hk.at (holds_reset b)
  obtain ⟨rounded, -, ho⟩ := hat.outline_ok
  refine ⟨_, ho, HintCall.keeps_iff hat ha.regular ho, fun hsimple => ?_⟩
  rw [hat.pointCount_eq]
  exact ha.points_le (hat.composite.symm.trans hsimple)

/-! ### Glyphs with programs -/

/-- Whether glyph `i` has a program and the font is hinted. -/
def runsProgram (f : Font) (scale : Int32) (i : UInt16) (h : Hinter) : Bool :=
  (Glyph.hintingFor f scale (some h)).isSome &&
    (f.record i).toOption.any fun r => r.shape.program.toOption.any (!·.isEmpty)

/-- A glyph that can be loaded calls `hint` for its own points, if it has a program and the font is
hinted. -/
theorem exists_loadCalls (b : GlyphBuffer) {p : Piece} {s' : Glyph.Progress}
    (hp : Glyph.loadPiece (Glyph.contextFor f scale (some h.toHinter)) Glyph.maxDepth i {} false
      (Glyph.progressFor f scale (some h.toHinter)) = .ok p s')
    (hruns : runsProgram f scale i h.toHinter) :
    ∃ k, LoadCalls b f scale i h k ∧ k.pointCount = p.contours.points.size := by
  obtain ⟨hi, hrecord⟩ := Bool.and_eq_true_iff.1 hruns
  obtain ⟨r, hr, hprogram⟩ := FontM.exists_of_any hrecord
  obtain ⟨program, hprogram, hne⟩ := FontM.exists_of_any hprogram
  obtain ⟨d, s₁, ha, hd⟩ := Glyph.loadPiece_ok hp
  obtain ⟨m, _, _, _, hm, -⟩ := Glyph.finish_ok hd
  obtain ⟨inst, hinst⟩ := Option.isSome_iff_exists.1 hi
  cases (ha.program_eq hr).symm.trans hprogram
  obtain ⟨k, hk, hat⟩ := exists_calls (s := ⟨b.reset, h.outlines, (h.prepare f scale).scratch⟩)
    (holds_reset b) hr ha hm hinst (by simpa using hne)
  refine ⟨k, hk, ?_⟩
  rw [hat.pointCount_eq]
  exact Contours.size_of_unhint (Glyph.finish_unhint hd).1.symm

/-- The program of the two triangles is given their contours. -/
theorem contours_kept_triangles : ∃ f k o, Font.parse Font.triangles = .ok f ∧
    LoadCalls {} f 1024 2 { mode := {} } k ∧ k.outline = .ok o ∧ k.pointCount = 6 ∧ k.Keeps o := by
  have hload : (Glyph.loadFrom Font.triangles 1024 2 (some { mode := {} })).toOption.any
      (·.contours.points.size = 6) := by
    decide +kernel
  have hprogram : (Font.parse Font.triangles).toOption.any (runsProgram · 1024 2 { mode := {} }) := by
    decide +kernel
  obtain ⟨f, g, hf, hg, hsize⟩ := Glyph.exists_of_loadFrom hload
  obtain ⟨f', hf', hruns⟩ := FontM.exists_of_any hprogram
  cases hf.symm.trans hf'
  obtain ⟨p, s', hp, rfl⟩ := Glyph.load_ok.1 hg
  obtain ⟨k, hk, hcount⟩ := exists_loadCalls (h := { mode := {} }) {} hp hruns
  obtain ⟨o, ho, hkeeps, -⟩ := contours_kept hk
  have hcount : k.pointCount = 6 :=
    hcount.trans (Array.size_map.symm.trans (of_decide_eq_true hsize))
  exact ⟨f, k, o, hf, hk, ho, hcount, hkeeps.2 (by omega)⟩

end GlyphBuffer

/-! ### A glyph with too many points -/

/-- Whether glyph `i` is a simple glyph with `n` points. -/
def Font.hasPoints (f : Font) (i : UInt16) (n : Nat) : Bool :=
  (f.record i).toOption.any fun r =>
    match r.shape with
    | .simple g => g.points.size = n
    | .compound _ => false

/-- Glyph `i` as a component that is not moved. -/
def Component.inPlace (i : UInt16) : Component :=
  { glyph := i, offset := {}, roundsOffset := false, givesMetrics := false }

/-- Whether glyph `i` consists of `n` times glyph `j`. -/
def Font.hasCopies (f : Font) (i : UInt16) (n : Nat) (j : UInt16) : Bool :=
  (f.record i).toOption.any fun r =>
    r.shape.components = List.replicate n (.inPlace j) && r.shape.program.isOk

/-- The tree of a glyph that consists of `n` times glyph `j`, the tree of which is `t`. -/
def GlyphTree.copies (n : Nat) (j : UInt16) (t : GlyphTree) : GlyphTree :=
  .compound (List.replicate n (.inPlace j, t))

namespace Font.HasTree

variable {f : Font} {i : UInt16} {n : Nat}

theorem of_hasPoints {count : Nat} (h : f.hasPoints i count) :
    ∃ g, f.HasTree n i (.simple g) ∧ g.points.size = count := by
  obtain ⟨r, hr, hcount⟩ := FontM.exists_of_any h
  cases hg : r.shape with
  | simple g =>
    rw [hg] at hcount
    exact ⟨g, .of_simple hr hg, of_decide_eq_true hcount⟩
  | compound g =>
    rw [hg] at hcount
    cases hcount

theorem of_hasCopies {j : UInt16} {count : Nat} {t : GlyphTree} (ht : f.HasTree n j t)
    (h : f.hasCopies i (count + 1) j) : f.HasTree (n + 1) i (.copies (count + 1) j t) := by
  obtain ⟨r, hr, hgood⟩ := FontM.exists_of_any h
  obtain ⟨hcomponents, hprogram⟩ := Bool.and_eq_true_iff.1 hgood
  have hcomponents := of_decide_eq_true hcomponents
  cases hg : r.shape with
  | simple g =>
    rw [hg] at hcomponents
    cases hcomponents
  | compound g =>
    rw [hg] at hcomponents hprogram
    cases hrest : g.rest with
    | ok program =>
      refine .of_compound hr hg hrest ?_ fun p hp => ?_
      · rw [List.map_replicate]
        exact hcomponents.symm
      · rw [List.eq_of_mem_replicate hp]
        exact ht
    | error e =>
      rw [GlyphShape.program, hrest] at hprogram
      cases hprogram

end Font.HasTree

/-- A font with a contour of 128 points (glyph 3), a row of eight of them (glyph 2), a block of eight
rows (glyph 1) and nine blocks (glyph 0). The program of glyph 0 shifts its contour with number 512. -/
@[irreducible] def Font.crowded : Bytes :=
  let bounds := List.replicate 8 0
  let copies (n : Nat) (glyph : UInt8) := [0xff, 0xff] ++ bounds ++
    (List.replicate n [0x00, 0x22, 0, glyph, 0, 0]).flatten
  let blocks := copies 8 1 ++ [0x01, 0x02, 0, 1, 0, 0] ++ [0, 4, 0xb8, 0x02, 0x00, 0x34]
  let block := copies 7 2 ++ [0x00, 0x02, 0, 2, 0, 0]
  let row := copies 7 3 ++ [0x00, 0x02, 0, 3, 0, 0]
  let contour := [0, 1] ++ bounds ++ [0, 127, 0, 0] ++ [0x39, 127]
  sample [(blocks, 0), (block, 0), (row, 0), (contour, 0)] []

namespace GlyphBuffer

theorem pointCount_copies {t : GlyphTree} {m : Nat}
    (h : ∀ offset rounds, Leaf.pointCount (t.leaves offset rounds) = m) (n : Nat) (j : UInt16)
    (offset : Point) (rounds : Bool) :
    Leaf.pointCount ((GlyphTree.copies n j t).leaves offset rounds) = n * m := by
  rw [GlyphTree.copies, GlyphTree.leaves_compound, Leaf.pointCount_flatMap, List.map_replicate, h]
  exact List.sum_replicate_nat

/-- The nine blocks have 73728 points. -/
theorem crowded_tree : ∃ f t, Font.parse Font.crowded = .ok f ∧ f.HasTree 3 0 t ∧
    Leaf.pointCount (t.leaves {} false) = 73728 ∧ runsProgram f 1024 0 { mode := {} } := by
  have hfont : (Font.parse Font.crowded).toOption.any fun f =>
      f.hasPoints 3 128 && (f.hasCopies 2 8 3 && (f.hasCopies 1 8 2 && (f.hasCopies 0 9 1 &&
        runsProgram f 1024 0 { mode := {} }))) := by
    decide +kernel
  obtain ⟨f, hf, hgood⟩ := FontM.exists_of_any hfont
  obtain ⟨hcontour, hgood⟩ := Bool.and_eq_true_iff.1 hgood
  obtain ⟨hrow, hgood⟩ := Bool.and_eq_true_iff.1 hgood
  obtain ⟨hblock, hgood⟩ := Bool.and_eq_true_iff.1 hgood
  obtain ⟨hblocks, hruns⟩ := Bool.and_eq_true_iff.1 hgood
  obtain ⟨g, hg, hsize⟩ := Font.HasTree.of_hasPoints (n := 0) hcontour
  have ht := ((hg.of_hasCopies hrow).of_hasCopies hblock).of_hasCopies hblocks
  refine ⟨f, _, hf, ht, ?_, hruns⟩
  refine pointCount_copies (pointCount_copies (pointCount_copies (m := 128) ?_ 8 3) 8 2) 9 1 {} false
  intro offset rounds
  rw [GlyphTree.leaves_simple]
  exact hsize

/-- The contours of the nine blocks are handed on with other numbers. -/
theorem contours_renumbered : ∃ f k o, Font.parse Font.crowded = .ok f ∧
    LoadCalls {} f 1024 0 { mode := {} } k ∧ k.outline = .ok o ∧ k.pointCount = 73728 ∧
    ¬∀ n (h : n < o.contours.size) (h' : n < k.ends.size),
      (o.contours[n].toNat : Int) = k.ends[n] - k.start - 1 := by
  obtain ⟨f, tree, hf, htree, hcount, hruns⟩ := crowded_tree
  have hv : (Glyph.contextFor f 1024 (some { mode := {} })).Valid :=
    Glyph.contextFor_valid ((Font.ample_parse _).ok hf) 1024 fun h hm => by
      cases hm
      exact (Hinter.Used.new {}).sound
  obtain ⟨p, s', hp⟩ := Glyph.loadPiece_of_tree hv htree {} false
    (Glyph.progressFor f 1024 (some { mode := {} }))
  obtain ⟨tree', htree', hc⟩ := Glyph.loadPiece_tree (n := 3) hp
  cases htree'.unique htree
  have hsize : p.contours.points.size = 73728 := (GlyphTree.size_of_unhint hc).trans hcount
  obtain ⟨k, hk, hpoints⟩ := exists_loadCalls (h := { mode := {} }) {} hp hruns
  obtain ⟨c, d, t, m, hat, _, _, _, _, _, _, ha⟩ := hk.at (holds_reset {})
  obtain ⟨rounded, -, ho⟩ := hat.outline_ok
  refine ⟨f, k, _, hf, hk, ho, hpoints.trans hsize, fun hexact => ?_⟩
  have hfits := hat.fits ha.regular ho hexact
  rw [hpoints, hsize] at hfits
  exact absurd hfits (by decide)

end GlyphBuffer

end GridFit
