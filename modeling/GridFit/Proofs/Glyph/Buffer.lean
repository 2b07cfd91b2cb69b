import GridFit.Glyph.Buffer
import GridFit.Proofs.Glyph.Assembly

/-!
# Glyphs in memory

Loading a glyph in place comes to the same as loading it anew, whatever the memory held before
(`GlyphBuffer.load_eq`). So it never leaves the memory (`GlyphBuffer.load_safe`).

The buffer is read as contours with any memory after them (`GlyphBuffer.Holds`). Each step of the
loader in place works on the part after some contours `c` as the other loader does on that part
alone (`GlyphBuffer.Matches`), so a component is added to those before it as if there were none
(`GlyphBuffer.add_matches`).
-/

namespace GridFit

theorem FontM.ok_bind {α β : Type} (a : α) (f : α → FontM β) :
    (Except.ok a >>= f : FontM β) = f a :=
  rfl

/-! ### Memory -/

namespace Memory

variable {α : Type}

theorem extract_split {k : Nat} {a : Array α} (h : k ≤ a.size) :
    a.extract 0 k ++ a.extract k a.size = a := by
  rw [Array.extract_append_extract, Nat.min_eq_left (Nat.zero_le k), Nat.max_eq_right h,
    Array.extract_size]

theorem split {k l : Nat} {a : Array α} (h : a.size = k + l) :
    ∃ x y, x.size = k ∧ y.size = l ∧ a = x ++ y := by
  refine ⟨a.extract 0 k, a.extract k a.size, ?_, ?_, (extract_split (by omega)).symm⟩
  · simp only [Array.size_extract]
    omega
  · simp only [Array.size_extract]
    omega

theorem slice_append (a b rest : Array α) :
    slice (a ++ b ++ rest) a.size (a.size + b.size) = .ok b := by
  have hsize : a.size + b.size ≤ (a ++ b ++ rest).size := by
    simp only [Array.size_append]
    omega
  rw [slice, if_pos ⟨Nat.le_add_right _ _, hsize⟩]
  simp

theorem slice_prefix (a rest : Array α) : slice (a ++ rest) 0 a.size = .ok a := by
  simpa using slice_append #[] a rest

theorem slice_suffix (a b : Array α) : slice (a ++ b) a.size (a.size + b.size) = .ok b := by
  simpa using slice_append a b #[]

theorem write_append (a : Array α) {b v : Array α} (rest : Array α) (h : v.size = b.size) :
    write (a ++ b ++ rest) a.size v = .ok (a ++ v ++ rest) := by
  have hsize : a.size + v.size ≤ (a ++ b ++ rest).size := by
    simp only [Array.size_append]
    omega
  rw [write, if_pos hsize, h]
  congr 2
  · simp
  · simp

theorem update_append (a b rest : Array α) (f : α → α) :
    update (a ++ b ++ rest) a.size (a.size + b.size) f = .ok (a ++ b.map f ++ rest) := by
  rw [update, slice_append]
  exact write_append a rest Array.size_map

/-- Reserved memory begins with what it keeps and has room for as many elements as are asked for. -/
theorem reserve_append (a rest : Array α) (blank : α) (k : Nat) :
    ∃ b rest', b.size = k ∧ reserve (a ++ rest) blank a.size (a.size + k) = a ++ b ++ rest' := by
  rw [reserve]
  split
  · rename_i h
    rw [Array.size_append] at h
    refine ⟨rest.extract 0 k, rest.extract k rest.size, ?_, ?_⟩
    · simp only [Array.size_extract]
      omega
    · rw [Array.append_assoc, extract_split (by omega)]
  · refine ⟨Array.replicate k blank, Array.replicate (a.size + k) blank, Array.size_replicate, ?_⟩
    have hkept : (a ++ rest).extract 0 a.size = a := by simp
    rw [hkept, Array.append_assoc, Array.replicate_append_replicate]
    congr 2
    omega

end Memory

namespace GlyphBuffer

open Glyph (Placing Context)

variable {b b' : GlyphBuffer} {c pre : Contours}

/-! ### What a buffer holds -/

/-- The buffer holds the contours `c`, with any memory after their points. -/
structure Holds (b : GlyphBuffer) (c : Contours) : Prop where
  count : b.count = c.points.size
  cells : ∃ rest, b.cells = c.points ++ rest
  unhinted : b.unhinted = c.unhinted
  units : b.units = c.units
  ends : b.ends = c.ends

/-- The buffer holds the contours `pre` and after them, in font units, points the contours of which
end at `ends`. -/
structure HoldsRaw (b : GlyphBuffer) (pre : Contours) (raw : Array GlyphPoint) (ends : Array Nat) :
    Prop where
  count : b.count = pre.points.size + raw.size
  cells : ∃ rest, b.cells = pre.points ++ raw ++ rest
  unhinted : b.unhinted = pre.unhinted
  units : b.units = pre.units
  ends : b.ends = pre.ends ++ ends.map (pre.points.size + ·)

theorem Holds.points (h : b.Holds c) : b.points = c.points := by
  obtain ⟨rest, hcells⟩ := h.cells
  rw [GlyphBuffer.points, hcells, h.count]
  simp

namespace Holds

variable {full : Contours} (h : b.Holds (c.append full))
include h

/-! The part of the memory after the contours `c`. -/

theorem count_append : b.count = c.points.size + full.points.size := h.count.trans Array.size_append

theorem slice_cells : Memory.slice b.cells c.points.size b.count = .ok full.points := by
  obtain ⟨rest, hcells⟩ := h.cells
  rw [hcells, h.count_append]
  exact Memory.slice_append ..

theorem slice_units : Memory.slice b.units c.points.size b.count = .ok full.units := by
  rw [h.units, h.count_append, ← c.size_units, ← full.size_units]
  exact Memory.slice_suffix ..

theorem slice_unhinted : Memory.slice b.unhinted c.points.size b.count = .ok full.unhinted := by
  rw [h.unhinted, h.count_append, ← c.size_unhinted, ← full.size_unhinted]
  exact Memory.slice_suffix ..

theorem slice_ends :
    Memory.slice b.ends c.ends.size b.ends.size = .ok (full.ends.map (c.points.size + ·)) := by
  rw [h.ends]
  show Memory.slice (c.ends ++ full.ends.map (c.points.size + ·)) _ (c.ends ++ _).size = _
  rw [Array.size_append]
  exact Memory.slice_suffix ..

end Holds

theorem Holds.withMetrics (h : b.Holds c) (advance : Int32) (bounds : Bounds) :
    { b with advance, bounds : GlyphBuffer }.Holds c :=
  ⟨h.count, h.cells, h.unhinted, h.units, h.ends⟩

theorem holds_reset (b : GlyphBuffer) : b.reset.Holds {} :=
  ⟨rfl, ⟨b.cells, Array.empty_append.symm⟩, rfl, rfl, rfl⟩

theorem overwriteCells_eq {cells points : Array GlyphPoint} (h : cells.size = points.size) :
    overwriteCells cells points = points := by
  refine Array.ext ?_ fun k _ hk => ?_
  · simp [overwriteCells, h]
  · simp [overwriteCells]

theorem addSimple_ok (h : b.Holds c) (g : SimpleGlyph) :
    ∃ b' room, b.addSimple g = .ok b' ∧ b'.HoldsRaw c (g.points ++ room) g.ends ∧
      room.size = Phantom.count ∧ b'.hintError = b.hintError := by
  obtain ⟨rest, hcells⟩ := h.cells
  obtain ⟨fresh, rest', hfresh, hreserve⟩ :=
    Memory.reserve_append c.points rest {} (g.points.size + Phantom.count)
  -- What is there before decoding may come from an earlier glyph; every part of it is overwritten.
  obtain ⟨stale, room, hstale, hroom, rfl⟩ := Memory.split hfresh
  have hmemory : Memory.reserve b.cells {} b.count (b.count + g.points.size + Phantom.count) =
      c.points ++ stale ++ (room ++ rest') := by
    rw [hcells, h.count, Nat.add_assoc, hreserve]
    simp only [Array.append_assoc]
  have hslice := Memory.slice_append c.points stale (room ++ rest')
  have hwrite := Memory.write_append c.points (room ++ rest') hstale.symm
  rw [hstale] at hslice
  refine ⟨{ b with
    cells := c.points ++ g.points ++ (room ++ rest')
    count := b.count + g.points.size + Phantom.count
    ends := b.ends ++ g.ends.map (b.count + ·) }, room, ?_,
    ⟨?_, ⟨rest', ?_⟩, h.unhinted, h.units, ?_⟩, hroom, rfl⟩
  · unfold addSimple resize
    dsimp only
    rw [hmemory, h.count, hslice, FontM.ok_bind, overwriteCells_eq hstale, hwrite, FontM.ok_bind]
    rfl
  · dsimp only
    rw [h.count, Nat.add_assoc, Array.size_append, hroom]
  · simp only [Array.append_assoc]
  · dsimp only
    rw [h.ends, h.count]

theorem resize_holdsRaw (h : b.Holds c) :
    ∃ room, (b.resize (b.count + Phantom.count)).HoldsRaw c room #[] ∧
      room.size = Phantom.count := by
  obtain ⟨rest, hcells⟩ := h.cells
  obtain ⟨room, rest', hroom, hreserve⟩ := Memory.reserve_append c.points rest {} Phantom.count
  refine ⟨room, ⟨?_, ⟨rest', ?_⟩, h.unhinted, h.units, ?_⟩, hroom⟩
  · show b.count + Phantom.count = _
    rw [h.count, hroom]
  · rw [← hreserve, ← hcells, ← h.count]
    rfl
  · show b.ends = c.ends ++ #[].map _
    rw [h.ends, Array.map_empty, Array.append_empty]

theorem setPhantoms_ok {raw room : Array GlyphPoint} {ends : Array Nat}
    (h : b.HoldsRaw pre (raw ++ room) ends) (hroom : room.size = Phantom.count)
    (phantoms : Array GlyphPoint) (hp : phantoms.size = Phantom.count) :
    ∃ b', b.setPhantoms phantoms = .ok b' ∧ b'.HoldsRaw pre (raw ++ phantoms) ends ∧
      b'.hintError = b.hintError := by
  obtain ⟨rest, hcells⟩ := h.cells
  have hcount := h.count
  rw [Array.size_append, hroom, ← Nat.add_assoc] at hcount
  have hwrite := Memory.write_append (pre.points ++ raw) rest (hp.trans hroom.symm)
  refine ⟨{ b with cells := pre.points ++ raw ++ phantoms ++ rest }, ?_,
    ⟨?_, ⟨rest, ?_⟩, h.unhinted, h.units, h.ends⟩, rfl⟩
  · unfold setPhantoms
    rw [hcells, hcount, Nat.add_sub_cancel, ← Array.size_append, ← Array.append_assoc, hwrite]
    rfl
  · rw [Array.size_append, hp, ← Nat.add_assoc]
    exact hcount
  · simp only [Array.append_assoc]

theorem place_ok {raw : Array GlyphPoint} {ends : Array Nat} (h : b.HoldsRaw pre raw ends)
    (t : Placing) :
    ∃ b', b.place t pre.points.size = .ok b' ∧ b'.Holds (pre.append (t.contours raw ends)) ∧
      b'.hintError = b.hintError := by
  obtain ⟨rest, hcells⟩ := h.cells
  have hslice := Memory.slice_append pre.points raw rest
  have hcellsT := Memory.update_append pre.points raw rest t.scaled
  have hunits := Memory.update_append pre.units raw #[] t.inUnits
  have hscaled := Memory.slice_append pre.points (raw.map t.scaled) rest
  rw [Array.append_empty, Array.append_empty, pre.size_units] at hunits
  rw [Array.size_map] at hscaled
  refine ⟨{ b with
    cells := pre.points ++ raw.map t.scaled ++ rest
    units := pre.units ++ raw.map t.inUnits
    unhinted := pre.unhinted ++ raw.map t.scaled }, ?_, ⟨?_, ⟨rest, rfl⟩, rfl, rfl, h.ends⟩, rfl⟩
  · unfold place
    rw [hcells, h.count, hslice, FontM.ok_bind, h.units]
    dsimp only
    rw [hunits, FontM.ok_bind, hcellsT, FontM.ok_bind, hscaled, FontM.ok_bind, h.unhinted]
    rfl
  · show b.count = (pre.points ++ raw.map t.scaled).size
    rw [h.count, Array.size_append, Array.size_map]

theorem truncate_ok {full : Contours} (h : b.Holds (c.append full))
    (hsize : Phantom.count ≤ full.points.size) :
    ∃ b', b.truncate (b.count - Phantom.count) = .ok b' ∧
      b'.Holds (c.append (Glyph.dropPhantoms full)) ∧ b'.hintError = b.hintError := by
  let n := full.points.size - Phantom.count
  have hcount : b.count - Phantom.count = c.points.size + n := by
    rw [h.count_append]
    exact Nat.add_sub_assoc hsize _
  -- Each of the arrays that are cut off begins with what is kept.
  have hkept : ∀ a p : Array GlyphPoint, a.size = c.points.size → p.size = full.points.size →
      ∃ rest, a ++ p = a ++ p.extract 0 n ++ rest ∧
        (a ++ p.extract 0 n).size = c.points.size + n := by
    intro a p ha hp
    refine ⟨p.extract n p.size, ?_, ?_⟩
    · rw [Array.append_assoc, Memory.extract_split (by omega)]
    · rw [Array.size_append, Array.size_extract]
      omega
  obtain ⟨rest, hcells⟩ := h.cells
  obtain ⟨restP, hpoints, hn⟩ := hkept c.points full.points rfl rfl
  obtain ⟨restU, hunhinted, hnU⟩ :=
    hkept c.unhinted full.unhinted c.size_unhinted full.size_unhinted
  obtain ⟨restF, hunits, hnF⟩ := hkept c.units full.units c.size_units full.size_units
  refine ⟨{ b with
    count := c.points.size + n
    unhinted := c.unhinted ++ full.unhinted.extract 0 n
    units := c.units ++ full.units.extract 0 n }, ?_,
    ⟨hn.symm, ⟨restP ++ rest, ?_⟩, rfl, rfl, h.ends⟩, rfl⟩
  · have hu := Memory.slice_prefix (c.unhinted ++ full.unhinted.extract 0 n) restU
    have hf := Memory.slice_prefix (c.units ++ full.units.extract 0 n) restF
    rw [hnU, ← hunhinted] at hu
    rw [hnF, ← hunits] at hf
    unfold truncate
    rw [hcount, h.unhinted, h.units]
    show (Memory.slice (c.unhinted ++ full.unhinted) 0 _ >>= fun _ => _) = _
    rw [hu, FontM.ok_bind]
    show (Memory.slice (c.units ++ full.units) 0 _ >>= fun _ => _) = _
    rw [hf]
    rfl
  · show b.cells = c.points ++ full.points.extract 0 n ++ (restP ++ rest)
    rw [← Array.append_assoc, ← hpoints]
    exact hcells

theorem shiftOrigin_zero (c : Contours) : Glyph.shiftOrigin c 0 = c := by
  refine Contours.eq_of_parts ?_ ?_ rfl rfl
  all_goals
    simp only [Glyph.shiftOrigin, Int32.sub_zero, Array.map_id_fun', id_eq]

theorem shift_ok (h : b.Holds c) (origin : Int32) :
    ∃ b', b.shift origin = .ok b' ∧ b'.Holds (Glyph.shiftOrigin c origin) ∧
      b'.hintError = b.hintError := by
  by_cases ho : origin = 0
  · refine ⟨b, ?_, ?_, rfl⟩
    · rw [shift, if_pos ho]
      rfl
    · rw [ho, shiftOrigin_zero]
      exact h
  let move (p : GlyphPoint) : GlyphPoint := { p with x := p.x - origin }
  obtain ⟨rest, hcells⟩ := h.cells
  have hupdate := Memory.update_append #[] c.points rest move
  rw [Array.empty_append, Array.size_empty, Nat.zero_add, Array.empty_append, ← hcells,
    ← h.count] at hupdate
  refine ⟨{ b with cells := c.points.map move ++ rest, unhinted := c.unhinted.map move }, ?_,
    ⟨?_, ⟨rest, rfl⟩, rfl, h.units, h.ends⟩, rfl⟩
  · unfold shift
    rw [if_neg ho]
    dsimp only
    rw [hupdate, h.unhinted]
    rfl
  · exact h.count.trans Array.size_map.symm

/-! ### Steps that match -/

/-- What the state has in common with the one in which glyphs are loaded anew. -/
def Bench.progress (s : Bench) : Glyph.Progress := ⟨s.scratch, s.buffer.hintError⟩

/-- Two outcomes that match: both are values, related by `q`, or both are the same error. -/
def Matches {α β : Type} (q : α → β → Bench → Prop) :
    EStateM.Result FontError Bench α → EStateM.Result FontError Glyph.Progress β → Prop
  | .ok a s, .ok b t => q a b s ∧ s.progress = t
  | .error e s, .error e' t => e = e' ∧ s.progress = t
  | _, _ => False

namespace Matches

variable {α β γ δ : Type} {x : BufferM α} {y : Glyph.LoadM β} {f : α → BufferM γ}
  {g : β → Glyph.LoadM δ} {q : α → β → Bench → Prop} {q' : γ → δ → Bench → Prop} {s s' : Bench}
  {t : Glyph.Progress}

theorem ok_or_error {r : EStateM.Result FontError Bench α}
    {r' : EStateM.Result FontError Glyph.Progress β} (h : Matches q r r') :
    (∃ a b s, q a b s ∧ r = .ok a s ∧ r' = .ok b s.progress) ∨
      ∃ e s, r = .error e s ∧ r' = .error e s.progress := by
  cases r with
  | ok a s =>
    cases r' with
    | ok b t =>
      obtain ⟨hq, rfl⟩ := h
      exact .inl ⟨a, b, s, hq, rfl, rfl⟩
    | error => exact h.elim
  | error e s =>
    cases r' with
    | ok => exact h.elim
    | error e' t =>
      obtain ⟨rfl, rfl⟩ := h
      exact .inr ⟨e, s, rfl, rfl⟩

theorem bind (h : Matches q (x s) (y t))
    (hf : ∀ a b s', q a b s' → y t = .ok b s'.progress → Matches q' (f a s') (g b s'.progress)) :
    Matches q' ((x >>= f) s) ((y >>= g) t) := by
  obtain ⟨a, b, s', hq, hx, hy⟩ | ⟨e, s', hx, hy⟩ := h.ok_or_error
  · rw [bind_of_ok hx, bind_of_ok hy]
    exact hf a b s' hq hy
  · rw [bind_of_error hx, bind_of_error hy]
    exact ⟨rfl, rfl⟩

/-- A step that only the loader in place makes. -/
theorem step {a : α} {r : EStateM.Result FontError Glyph.Progress δ} (hx : x s = .ok a s')
    (h : Matches q' (f a s') r) : Matches q' ((x >>= f) s) r := by
  rw [bind_of_ok hx]
  exact h

theorem stepRight {b : β} {t' : Glyph.Progress} {r : EStateM.Result FontError Bench γ}
    (hy : y t = .ok b t') (h : Matches q' r (g b t')) : Matches q' r ((y >>= g) t) := by
  rw [bind_of_ok hy]
  exact h

theorem map_right {q : α → δ → Bench → Prop} {q' : α → β → Bench → Prop} {φ : β → δ}
    (h : Matches q' (x s) (y t)) (hq : ∀ a b s', q' a b s' → q a (φ b) s') :
    Matches q (x s) ((y >>= fun b => pure (φ b)) t) := by
  have hbind : Matches q ((x >>= pure) s) ((y >>= fun b => pure (φ b)) t) :=
    h.bind fun a b s' hab _ => ⟨hq a b s' hab, rfl⟩
  rwa [bind_pure] at hbind

/-- A step that both make. -/
theorem ofFont_bind {x : FontM α} {f : α → BufferM γ} {g : α → Glyph.LoadM δ}
    (h : ∀ a, x = .ok a → Matches q' (f a s) (g a s.progress)) :
    Matches q' ((ofFont x >>= f) s) ((Glyph.ofFont x >>= g) s.progress) := by
  cases x with
  | ok a => exact h a rfl
  | error e => exact ⟨rfl, rfl⟩

end Matches

theorem ofFont_ok {α : Type} {x : FontM α} {a : α} (h : x = .ok a) (s : Bench) :
    ofFont x s = .ok a s := by
  rw [h]
  rfl

theorem onBuffer_ok {f : GlyphBuffer → FontM GlyphBuffer} {s : Bench} (h : f s.buffer = .ok b) :
    onBuffer f s = .ok () { s with buffer := b } := by
  refine (bind_of_ok (x := get) rfl).trans ?_
  exact bind_of_ok (ofFont_ok h s)

/-! ### Hinting -/

theorem extract_overwrite {α : Type} (whole : Array α) {part : Array α} {n : Nat}
    (h : part.size = n) : (Scratch.overwrite whole part).extract 0 n = part := by
  rw [Scratch.overwrite, ← h]
  simp

theorem size_roundPhantoms {points rounded : Array GlyphPoint}
    (h : Glyph.roundPhantoms points = .ok rounded) : rounded.size = points.size := by
  unfold Glyph.roundPhantoms at h
  dsimp only at h
  split at h <;> cases h
  simp only [Array.size_modify]

theorem isOnCurve_roundPhantoms {points rounded : Array GlyphPoint}
    (h : Glyph.roundPhantoms points = .ok rounded) :
    rounded.map Glyph.isOnCurve = points.map Glyph.isOnCurve := by
  refine Array.ext (by simp [size_roundPhantoms h]) fun k _ _ => ?_
  unfold Glyph.roundPhantoms at h
  dsimp only at h
  split at h <;> cases h
  simp only [Array.getElem_map, Array.getElem_modify]
  split <;> split <;> split <;> split <;> rfl

/-- What is laid out in the memory of the hinter is the outline, whatever the memory held. -/
theorem outline_fill (m : OutlineMemory) {full : Contours} {rounded : Array GlyphPoint}
    (hr : Glyph.roundPhantoms full.points = .ok rounded) (i : UInt16) (program : Bytes)
    (composite : Bool) (start : Nat) :
    (m.fill rounded full.units).outline full.points.size i program composite
        ((full.ends.map (start + ·)).map fun e => UInt16.ofNat (e - start - 1)) =
      Glyph.outline i program composite full rounded := by
  have hsize := size_roundPhantoms hr
  have hunits : (full.units.map fun p => (⟨p.x, p.y⟩ : Point)).size = full.points.size :=
    Array.size_map.trans full.size_units
  have hflags : (rounded.map fun p => if Glyph.isOnCurve p then PointFlags.onCurve else {}) =
      full.points.map fun p => if Glyph.isOnCurve p then .onCurve else {} := by
    have h := congrArg (Array.map fun on => if on then PointFlags.onCurve else {})
      (isOnCurve_roundPhantoms hr)
    rw [Array.map_map, Array.map_map] at h
    exact h
  have hends : ((full.ends.map (start + ·)).map fun e => UInt16.ofNat (e - start - 1)) =
      full.ends.map fun e => UInt16.ofNat (e - 1) := by
    rw [Array.map_map]
    simp only [Function.comp_def, Nat.add_sub_cancel_left]
  unfold OutlineMemory.outline OutlineMemory.fill Glyph.outline
  dsimp only
  have hpart : ∀ {α : Type} (whole : Array α) (f : GlyphPoint → α),
      (Scratch.overwrite whole (rounded.map f)).extract 0 full.points.size = rounded.map f :=
    fun whole _ => extract_overwrite whole (Array.size_map.trans hsize)
  rw [hends, extract_overwrite _ hunits, hpart, hpart, hpart, hflags]

variable {inst : Instance} {i : UInt16} {program : Bytes} {composite : Bool} {full full' : Contours}
  {s : Bench}

/-- Other points in place of the last ones. -/
theorem Holds.repoint (h : b.Holds (c.append full)) (hu : full'.unhint = full.unhint)
    (rest : Array GlyphPoint) (e : Option HintError) :
    GlyphBuffer.Holds { b with cells := c.points ++ full'.points ++ rest, hintError := e }
      (c.append full') := by
  have hunhinted : full'.unhint.unhinted = full.unhint.unhinted := by rw [hu]
  have hunits : full'.unhint.units = full.unhint.units := by rw [hu]
  have hends : full'.unhint.ends = full.unhint.ends := by rw [hu]
  refine ⟨?_, ⟨rest, rfl⟩, ?_, ?_, ?_⟩
  · show b.count = (c.points ++ full'.points).size
    rw [h.count_append, Array.size_append, Contours.size_of_unhint hu]
  · exact h.unhinted.trans (congrArg (c.unhinted ++ ·) hunhinted.symm)
  · exact h.units.trans (congrArg (c.units ++ ·) hunits.symm)
  · exact h.ends.trans (congrArg (c.ends ++ Array.map (c.points.size + ·) ·) hends.symm)

theorem repoint_matches (full' : Contours) (h : b.Holds (c.append full))
    (hu : full'.unhint = full.unhint) {old : Array GlyphPoint}
    (hold : full'.points.size = old.size) (rest : Array GlyphPoint)
    (e : GlyphBuffer → Option HintError) (m : OutlineMemory) (scratch : Option Scratch) :
    Matches (fun _ full' s' => s'.buffer.Holds (c.append full'))
      (onBuffer (fun b => do
        return { b with
          cells := ← Memory.write (c.points ++ old ++ rest) c.points.size full'.points
          hintError := e b }) ⟨b, m, scratch⟩)
      ((pure full' : Glyph.LoadM Contours) ⟨scratch, e b⟩) := by
  have hput : (do
      return { b with
        cells := ← Memory.write (c.points ++ old ++ rest) c.points.size full'.points
        hintError := e b } : FontM GlyphBuffer) =
      .ok { b with cells := c.points ++ full'.points ++ rest, hintError := e b } := by
    rw [Memory.write_append c.points rest hold]
    rfl
  rw [onBuffer_ok (s := ⟨b, m, scratch⟩) hput]
  exact ⟨h.repoint hu rest _, rfl⟩

/-- Hinting in place hints the points that come after those of `c`. -/
theorem hint_matches (h : s.buffer.Holds (c.append full)) :
    Matches (fun _ full' s' => s'.buffer.Holds (c.append full'))
      (hint inst i program composite c.points.size c.ends.size s)
      (Glyph.hint inst i program composite full s.progress) := by
  refine .step (x := buffer) rfl ?_
  refine .step (ofFont_ok h.slice_cells s) ?_
  refine .step (ofFont_ok h.slice_units s) ?_
  refine .step (ofFont_ok h.slice_ends s) ?_
  refine .ofFont_bind fun rounded hr => ?_
  have hsize := size_roundPhantoms hr
  obtain ⟨rest, hcells⟩ := h.cells
  have hwrite : Memory.write s.buffer.cells c.points.size rounded =
      .ok (c.points ++ rounded ++ rest) := by
    rw [hcells]
    exact Memory.write_append c.points rest hsize
  refine .step (ofFont_ok hwrite s) ?_
  refine .step (x := get) rfl ?_
  refine .step (x := get) rfl ?_
  dsimp only
  rw [outline_fill s.outlines hr i program composite c.points.size]
  refine .step (x := modify _) rfl ?_
  refine .stepRight (y := get) rfl ?_
  dsimp only [Bench.progress]
  cases (inst.hint (Glyph.outline i program composite full rounded) s.scratch).error with
  | none =>
    dsimp only
    refine .stepRight (y := modify _) rfl ?_
    refine .ofFont_bind fun ⟨points, hp⟩ _ => ?_
    exact repoint_matches (full.withPoints points hp) h rfl (hp.trans hsize.symm) rest (·.hintError)
      _ _
  | some e =>
    -- The failed program has changed the outline of the hinter only. In the buffer the unhinted points
    -- are written over the ones with rounded phantom points.
    refine .step (ofFont_ok h.slice_unhinted _) ?_
    refine .stepRight (y := set _) rfl ?_
    exact repoint_matches full.unhint h rfl (full.size_unhinted.trans hsize.symm) rest
      (fun _ => some e) _ _

theorem hintWith_matches (hinting : Option Instance) (i : UInt16) (program : Bytes)
    (composite : Bool) (h : s.buffer.Holds (c.append full)) :
    Matches (fun _ full' s' => s'.buffer.Holds (c.append full'))
      (hintWith hinting i program composite c.points.size c.ends.size s)
      (Glyph.hintWith hinting i program composite full s.progress) := by
  unfold hintWith Glyph.hintWith
  cases hinting with
  | none => exact ⟨h, rfl⟩
  | some inst =>
    dsimp only
    split
    · exact ⟨h, rfl⟩
    · exact hint_matches h

/-! ### Pieces -/

/-- What was added to the contours `c` is the piece `p`, with its metrics. -/
structure Adds (c : Contours) (m : Metrics) (p : Piece) (s : Bench) : Prop where
  holds : s.buffer.Holds (c.append p.contours)
  metrics : m = ⟨p.origin, p.advance, p.bounds⟩

variable {ctx : Context} {d : Glyph.Draft} {t : Placing} {raw room : Array GlyphPoint}
  {ends : Array Nat}

theorem finish_matches (h : s.buffer.HoldsRaw pre (raw ++ room) ends)
    (hroom : room.size = Phantom.count)
    (hd : ∀ m, pre.append (t.contours (raw ++ Glyph.phantoms d.bounds m) ends) =
      c.append (d.withPhantoms t m)) :
    Matches (Adds c)
      (finish ctx i d.bounds t c.points.size c.ends.size pre.points.size d.program d.composite
        d.origin? s)
      (d.finish ctx i t s.progress) := by
  refine .ofFont_bind fun m _ => ?_
  obtain ⟨b₁, h₁, hraw, he₁⟩ := setPhantoms_ok h hroom (Glyph.phantoms d.bounds m) rfl
  refine .step (onBuffer_ok h₁) ?_
  obtain ⟨b₂, h₂, hplaced, he₂⟩ := place_ok hraw t
  refine .step (onBuffer_ok h₂) ?_
  rw [hd m] at hplaced
  have hprogress : s.progress = Bench.progress ⟨b₂, s.outlines, s.scratch⟩ := by
    rw [Bench.progress, Bench.progress, he₂, he₁]
  rw [hprogress]
  refine (hintWith_matches (s := ⟨b₂, s.outlines, s.scratch⟩) ctx.hinting i d.program d.composite
    hplaced).bind fun _ full' s₃ hholds hhint => ?_
  refine .step (x := buffer) rfl ?_
  -- Hinting keeps the number of points, so the phantom points are the last four still.
  have hsize : full'.points.size = d.body.points.size + 4 :=
    (Contours.size_of_unhint (Glyph.hintWith_unhint hhint)).trans (Glyph.size_append_phantoms ..)
  obtain ⟨rest, hcells⟩ := hholds.cells
  have hcount : s₃.buffer.count - Phantom.count = c.points.size + d.body.points.size := by
    rw [hholds.count_append, hsize]
    rfl
  have hphantom : ∀ k < 4, FontM.elementAt s₃.buffer.cells (s₃.buffer.count - Phantom.count + k) =
      FontM.elementAt full'.points (d.body.points.size + k) := by
    intro k hk
    rw [hcells, hcount, Nat.add_assoc]
    show FontM.elementAt (c.points ++ full'.points ++ rest) _ = _
    rw [Array.append_assoc, FontM.elementAt_append_right, FontM.elementAt_append_left (by omega)]
  have hleft := hphantom 0 (by decide)
  have hright := hphantom 1 (by decide)
  rw [Nat.add_zero, Nat.add_zero] at hleft
  rw [hleft, hright]
  refine .ofFont_bind fun left _ => .ofFont_bind fun right _ => ?_
  obtain ⟨b₄, h₄, hkept, he₄⟩ := truncate_ok hholds (by rw [hsize]; exact Nat.le_add_left ..)
  refine .step (onBuffer_ok h₄) ?_
  refine ⟨⟨hkept, rfl⟩, ?_⟩
  rw [Bench.progress, Bench.progress, he₄]

theorem contours_append (t : Placing) (points more : Array GlyphPoint) (ends : Array Nat) :
    t.contours (points ++ more) ends = (t.contours points ends).append (t.contours more #[]) := by
  refine Contours.eq_of_parts Array.map_append Array.map_append Array.map_append ?_
  show ends = ends ++ #[].map _
  rw [Array.map_empty, Array.append_empty]

variable {depth : Nat} {offset : Point} {rounds : Bool}

/-- Adds a component. The origin of the glyph is `o`, unless the component gives its metrics. -/
def addComponent (ctx : Context) (depth : Nat) (offset : Point) (o : Option Int32) (k : Component) :
    BufferM (Option Int32) := do
  let m ← add ctx depth k.glyph (offset + k.offset) k.roundsOffset
  return if k.givesMetrics then some m.origin else o

/-- The origin of a glyph, which is `o` unless one of the pieces gives its metrics. -/
def originAfter (o : Option Int32) (pieces : List (Component × Piece)) : Option Int32 :=
  pieces.foldl (fun o q => if q.1.givesMetrics then some q.2.origin else o) o

/-- Components that are added one after the other come to the pieces in their order. -/
theorem addComponents_matches
    (hadd : ∀ {c : Contours} {s : Bench} (k : Component), s.buffer.Holds c →
      Matches (Adds c) (add ctx depth k.glyph (offset + k.offset) k.roundsOffset s)
        (Glyph.loadPiece ctx depth k.glyph (offset + k.offset) k.roundsOffset s.progress))
    (components : List Component) (o : Option Int32) (h : s.buffer.Holds c) :
    Matches (fun o' pieces s' => s'.buffer.Holds (c.append (.join (pieces.map (·.2.contours)))) ∧
        o' = originAfter o pieces)
      (components.foldlM (addComponent ctx depth offset) o s)
      (Glyph.loadComponents ctx depth offset components s.progress) := by
  induction components generalizing c s o with
  | nil =>
    refine ⟨⟨?_, rfl⟩, rfl⟩
    show s.buffer.Holds (c.append {})
    rw [Contours.append_empty]
    exact h
  | cons k components ih =>
    rw [List.foldlM_cons, Glyph.loadComponents, List.mapM_cons, addComponent, Glyph.loadComponent,
      bind_assoc, bind_assoc]
    refine (hadd k h).bind fun m p s₁ hp _ => ?_
    rw [pure_bind, pure_bind, hp.metrics]
    refine (ih _ hp.holds).map_right fun o' pieces s₂ hrest => ⟨?_, hrest.2⟩
    rw [List.map_cons, Contours.join_cons, ← Contours.append_assoc]
    exact hrest.1

theorem add_matches (ctx : Context) (depth : Nat) (i : UInt16) (offset : Point) (rounds : Bool)
    (h : s.buffer.Holds c) :
    Matches (Adds c) (add ctx depth i offset rounds s)
      (Glyph.loadPiece ctx depth i offset rounds s.progress) := by
  -- A component finds in the buffer what was added before it, so the induction is over all `c`.
  induction depth generalizing i offset rounds c s with
  | zero => exact ⟨rfl, rfl⟩
  | succ depth ih =>
    rw [Glyph.loadPiece_succ]
    refine .ofFont_bind (x := ctx.font.record i) fun r _ => ?_
    refine .step (x := buffer) rfl ?_
    unfold Glyph.loadRecord
    rw [h.count, h.ends]
    cases r.shape with
    | simple g =>
      obtain ⟨b, room, hadd, hraw, hroom, he⟩ := addSimple_ok h g
      refine .step (onBuffer_ok hadd) ?_
      have hprogress : s.progress = Bench.progress ⟨b, s.outlines, s.scratch⟩ := by
        rw [Bench.progress, Bench.progress, he]
      rw [hprogress]
      refine finish_matches (s := ⟨b, s.outlines, s.scratch⟩) (d := ⟨_, _, _, _, _⟩) hraw hroom
        fun m => ?_
      rw [contours_append]
      rfl
    | compound g =>
      refine (addComponents_matches (fun k h => ih k.glyph _ _ h) g.components none h).bind
        fun o pieces s₁ hpieces _ => ?_
      refine .ofFont_bind fun program _ => ?_
      refine .step (x := buffer) rfl ?_
      obtain ⟨room, hraw, hroom⟩ := resize_holdsRaw hpieces.1
      refine .step (onBuffer_ok rfl) ?_
      rw [hpieces.1.count, hpieces.2]
      rw [hpieces.1.count] at hraw
      have hempty : #[] ++ room = room := Array.empty_append
      rw [← hempty] at hraw
      refine finish_matches (s := ⟨_, s₁.outlines, s₁.scratch⟩) (d := ⟨_, _, _, _, _⟩) hraw hroom
        fun m => ?_
      rw [Array.empty_append, Contours.append_assoc]
      rfl

/-! ### Whole glyphs -/

/-- The buffer shows the glyph `g`. -/
structure Shows (b : GlyphBuffer) (g : Glyph) : Prop where
  holds : b.Holds g.contours
  advance : b.advance = g.advance
  bounds : b.bounds = g.bounds
  hintError : b.hintError = g.hintError

/-- A glyph loaded in place is the one that is loaded anew, whatever the buffer showed before. -/
theorem loadWith_matches (f : Font) (scale : Int32) (i : UInt16) (hinting : Option Instance)
    (s : Bench) :
    Matches (fun _ g s' => s'.buffer.Shows g) (loadWith f scale i hinting s)
      (Glyph.loadWith f scale i hinting { scratch := s.scratch }) := by
  refine .step (onBuffer_ok rfl) ?_
  refine (add_matches (s := ⟨s.buffer.reset, s.outlines, s.scratch⟩) _ Glyph.maxDepth i {} false
    (holds_reset s.buffer)).bind fun m p s₁ hp _ => ?_
  have hholds := hp.holds
  rw [Contours.empty_append] at hholds
  obtain ⟨b, hshift, hshifted, he⟩ := shift_ok hholds p.origin
  rw [hp.metrics]
  refine .step (onBuffer_ok hshift) ?_
  refine .stepRight (y := get) rfl ?_
  have hprogress : Bench.progress ⟨b, s₁.outlines, s₁.scratch⟩ = s₁.progress := by
    rw [Bench.progress, Bench.progress, he]
  exact ⟨⟨hshifted.withMetrics _ _, rfl, rfl, he⟩, hprogress⟩

end GlyphBuffer

/-- What is shown of a loaded glyph. -/
structure GlyphView where
  points : Array GlyphPoint
  unhinted : Array GlyphPoint
  units : Array GlyphPoint
  ends : Array Nat
  bounds : Bounds
  advance : Int32
  hintError : Option HintError
deriving DecidableEq, Repr

def Glyph.view (g : Glyph) : GlyphView where
  points := g.contours.points
  unhinted := g.contours.unhinted
  units := g.contours.units
  ends := g.contours.ends
  bounds := g.bounds
  advance := g.advance
  hintError := g.hintError

namespace GlyphBuffer

def view (b : GlyphBuffer) : GlyphView where
  points := b.points
  unhinted := b.unhinted
  units := b.units
  ends := b.ends
  bounds := b.bounds
  advance := b.advance
  hintError := b.hintError

theorem Shows.view_eq {b : GlyphBuffer} {g : Glyph} (h : b.Shows g) : b.view = g.view := by
  unfold view Glyph.view
  rw [h.holds.points, h.holds.unhinted, h.holds.units, h.holds.ends, h.bounds, h.advance,
    h.hintError]

theorem load_eq (b : GlyphBuffer) (f : Font) (scale : Int32) (i : UInt16)
    (hinter? : Option BufferedHinter) :
    (b.load f scale i hinter?).1.map (fun _ => (b.load f scale i hinter?).2.1.view) =
        (Glyph.load f scale i (hinter?.map (·.toHinter))).1.map Glyph.view ∧
      (b.load f scale i hinter?).2.2.map (·.toHinter) =
        (Glyph.load f scale i (hinter?.map (·.toHinter))).2 := by
  unfold load Glyph.load
  cases hinter? with
  | none =>
    dsimp only [Option.map_none]
    obtain ⟨_, g, s, hshows, hx, hy⟩ | ⟨e, s, hx, hy⟩ :=
      (loadWith_matches f scale i none { buffer := b }).ok_or_error
    · rw [hx, hy]
      exact ⟨congrArg Except.ok hshows.view_eq, rfl⟩
    · rw [hx, hy]
      exact ⟨rfl, rfl⟩
  | some h =>
    dsimp only [Option.map_some]
    obtain ⟨_, g, s, hshows, hx, hy⟩ | ⟨e, s, hx, hy⟩ :=
      (loadWith_matches f scale i
        (if (h.prepare f scale).isActive then some (h.prepare f scale).current else none)
        { buffer := b, outlines := h.outlines, scratch := (h.prepare f scale).scratch }).ok_or_error
    · rw [hx, hy]
      exact ⟨congrArg Except.ok hshows.view_eq, rfl⟩
    · rw [hx, hy]
      exact ⟨rfl, rfl⟩

/-- Loading a glyph of a parsed font into a buffer stays inside of the tables of the font and of the
memory of the buffer, whatever the buffer holds. -/
theorem load_safe {file : Bytes} {f : Font} (hf : Font.parse file = .ok f) (b : GlyphBuffer)
    (scale : Int32) (i : UInt16) {hinter? : Option BufferedHinter}
    (hu : ∀ h ∈ hinter?, h.toHinter.Used) :
    (b.load f scale i hinter?).1 ≠ .error .breach ∧
      ((b.load f scale i hinter?).1 = .ok () →
        ∀ e ∈ (b.load f scale i hinter?).2.1.hintError, e.IsDeclared) ∧
      ∀ h ∈ (b.load f scale i hinter?).2.2, ∀ e ∈ h.failure, e.fault.IsDeclared := by
  have hsafe := ((Font.ample_parse file).ok hf).safe
  have hused : ∀ h ∈ hinter?.map (·.toHinter), h.Used := by
    intro h hm
    obtain ⟨h', hm', rfl⟩ := Option.map_eq_some_iff.1 hm
    exact hu h' hm'
  obtain ⟨hbreach, hdeclared, hfailure⟩ := hsafe.load scale i _ hused
  obtain ⟨hresult, hhinter⟩ := b.load_eq f scale i hinter?
  refine ⟨fun hb => hbreach ?_, fun hok e he => ?_, fun h hm => ?_⟩
  · rw [hb] at hresult
    cases hg : (Glyph.load f scale i (hinter?.map (·.toHinter))).1 with
    | ok g =>
      rw [hg] at hresult
      cases hresult
    | error e =>
      rw [hg] at hresult
      exact congrArg Except.error (Except.error.inj hresult).symm
  · rw [hok] at hresult
    cases hg : (Glyph.load f scale i (hinter?.map (·.toHinter))).1 with
    | ok g =>
      rw [hg] at hresult
      have hview : (b.load f scale i hinter?).2.1.hintError = g.hintError :=
        congrArg GlyphView.hintError (Except.ok.inj hresult)
      exact hdeclared g hg e (hview ▸ he)
    | error e =>
      rw [hg] at hresult
      cases hresult
  · exact hfailure h.toHinter (hhinter ▸ Option.mem_map_of_mem _ hm)

end GlyphBuffer

end GridFit
