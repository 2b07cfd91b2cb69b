import GridFit.Glyph.Record
import GridFit.Proofs.Font.Reading

/-!
# Decoding glyphs

Glyph data is read without breaches, whatever the bytes. The flags and the coordinates of a simple
glyph come out one for each point, so they can be put together. Its contours end in order, the last
one at its last point (`SimpleGlyph.Regular`). A component of a compound glyph takes six bytes at
least, so reading its components ends.
-/

namespace GridFit

/-! ### Simple glyphs -/

namespace SimpleGlyph

variable {d : Bytes} {offset n : Nat}

theorem decodeFlags_safely (d : Bytes) (offset remaining : Nat) (acc : Array UInt8) :
    Safely (decodeFlags d offset remaining acc) fun r => r.1.size = acc.size + remaining := by
  fun_induction decodeFlags d offset remaining acc with
  | case1 offset acc => exact (Nat.add_zero acc.size).symm
  | case2 => nofun
  | case3 offset acc n h c hc h' count hle ih =>
    refine ih.mono fun r hr => hr.trans ?_
    simp only [Array.size_append, Array.size_replicate]
    omega
  | case4 => nofun
  | case5 offset acc n h c hc ih =>
    refine ih.mono fun r hr => hr.trans ?_
    rw [Array.size_push]
    omega
  | case6 => nofun

theorem decodeCoords_safely (bits : AxisBits) (d : Bytes) (offset : Nat) (v : Int16)
    (acc : Array Int16) (flags : List UInt8) :
    Safely (decodeCoords bits d offset v acc flags) fun r => r.1.size = acc.size + flags.length := by
  induction flags generalizing offset v acc with
  | nil => exact rfl
  | cons f rest ih =>
    -- However a coordinate is encoded, its flag adds one to the array.
    have step : ∀ offset v, Safely (decodeCoords bits d offset v (acc.push v) rest) fun r =>
        r.1.size = acc.size + (f :: rest).length := fun offset v => by
      refine (ih offset v (acc.push v)).mono fun r hr => hr.trans ?_
      rw [Array.size_push, List.length_cons]
      omega
    refine .ite (fun _ => ?_) fun _ => .ite (fun _ => step offset v) fun _ => ?_
    · exact .dite (fun _ => step _ _) fun _ => .throw nofun
    · exact .dite (fun _ => step _ _) fun _ => .throw nofun

theorem decodePoints_safely (d : Bytes) (offset n : Nat) :
    Safely (decodePoints d offset n) Anything := by
  refine (decodeFlags_safely d offset n #[]).bind fun (flags, _) hf => ?_
  refine (decodeCoords_safely _ d _ 0 #[] flags.toList).bind fun (xs, _) hx => ?_
  refine (decodeCoords_safely _ d _ 0 #[] flags.toList).bind fun (ys, _) hy => ?_
  simp only [Array.size_empty, Array.length_toList, Nat.zero_add] at hf hx hy
  refine (Yields.mapM (r := Anything) fun i hi => ?_).bind fun points _ => .pure trivial
  have hi : i < n := List.mem_range.1 hi
  exact (yields_elementAt (by omega)).bind fun _ _ => (yields_elementAt (by omega)).bind fun _ _ =>
    (yields_elementAt (by omega)).bind fun _ _ => .pure trivial

theorem readEnds_safely (acc : Array Nat) (h : offset + 2 * n ≤ d.size) :
    Safely (readEnds d offset acc n) Anything := by
  induction n generalizing offset acc with
  | zero => trivial
  | succ n ih =>
    refine .u16 (by omega) fun _ => .guarded nofun fun _ => ?_
    exact ih _ (by omega)

theorem read_safely (d : Bytes) (n : Nat) : Safely (read d n) Anything := by
  refine .guarded nofun fun hs => ?_
  refine (readEnds_safely #[] (by omega)).bind fun ends _ => ?_
  refine .u16 (by omega) fun length => .guarded nofun fun hl => ?_
  refine (Bytes.yields_slice (by omega) (by omega)).bind fun program _ => ?_
  exact (decodePoints_safely d _ _).bind fun _ _ => .pure trivial

/-! ### Contour ends -/

/-- Ends that lie past the first point and past each other. -/
def EndsInOrder (ends : Array Nat) : Prop := ends.toList.Pairwise (· < ·) ∧ ∀ e ∈ ends, 0 < e

/-- The contours of the glyph end in order, the last one at its last point. -/
structure Regular (g : SimpleGlyph) : Prop where
  ends : EndsInOrder g.ends
  points : g.points.size = g.ends.back?.getD 0

theorem endsInOrder_empty : EndsInOrder #[] :=
  ⟨.nil, fun e he => absurd he (Array.not_mem_empty e)⟩

/-- The last end is the largest one. -/
theorem EndsInOrder.le_last {ends : Array Nat} (h : EndsInOrder ends) {e : Nat} (he : e ∈ ends) :
    ∃ last ∈ ends.back?, e ≤ last := by
  have hp := h.1
  rw [← Array.mem_toList_iff] at he
  rw [← Array.getLast?_toList]
  rcases List.eq_nil_or_concat ends.toList with hnil | ⟨l, last, hl⟩
  · rw [hnil] at he
    cases he
  rw [List.concat_eq_append] at hl
  rw [hl] at he hp ⊢
  refine ⟨last, List.getLast?_concat .., ?_⟩
  rcases List.mem_append.1 he with he | he
  · exact Nat.le_of_lt ((List.pairwise_append.1 hp).2.2 e he last (by simp))
  · exact Nat.le_of_eq (List.mem_singleton.1 he)

theorem EndsInOrder.push {acc : Array Nat} {stop : Nat} (h : EndsInOrder acc) (hpos : 0 < stop)
    (hlast : ¬acc.back?.any (stop ≤ ·)) : EndsInOrder (acc.push stop) := by
  refine ⟨?_, fun e he => ?_⟩
  · rw [Array.toList_push]
    refine List.pairwise_append.2 ⟨h.1, List.pairwise_singleton .., fun e he s hs => ?_⟩
    obtain ⟨last, hback, hle⟩ := h.le_last (Array.mem_toList_iff.1 he)
    have hlt : last < stop := by simpa [Option.mem_def.1 hback] using hlast
    rw [List.mem_singleton.1 hs]
    exact Nat.lt_of_le_of_lt hle hlt
  · rcases Array.mem_push.1 he with he | rfl
    · exact h.2 e he
    · exact hpos

theorem Regular.end_le {g : SimpleGlyph} (h : g.Regular) {e : Nat} (he : e ∈ g.ends) :
    e ≤ g.points.size := by
  obtain ⟨last, hback, hle⟩ := h.ends.le_last he
  rw [h.points, hback]
  exact hle

theorem readEnds_inOrder {d : Bytes} {offset n : Nat} {acc : Array Nat} (h : EndsInOrder acc) :
    Yields Anything (readEnds d offset acc n) EndsInOrder := by
  induction n generalizing offset acc with
  | zero => exact h
  | succ n ih =>
    refine (Yields.anything _).bind fun w _ => ?_
    exact .guarded trivial fun hlast => ih (h.push (Nat.succ_pos _) hlast)

theorem decodePoints_size (d : Bytes) (offset n : Nat) :
    Yields Anything (decodePoints d offset n) fun points => points.size = n := by
  refine (Yields.anything _).bind fun (flags, _) _ => (Yields.anything _).bind fun (xs, _) _ =>
    (Yields.anything _).bind fun (ys, _) _ => ?_
  refine (Yields.mapM (r := Anything) fun i _ => Yields.anything _).bind fun points hp => .pure ?_
  rw [List.size_toArray, hp.1, List.length_range]

theorem read_regular (d : Bytes) (n : Nat) : Yields Anything (read d n) Regular := by
  refine .guarded trivial fun _ => (readEnds_inOrder endsInOrder_empty).bind fun ends he => ?_
  refine (Yields.anything _).bind fun length _ => .guarded trivial fun _ => ?_
  refine (Yields.anything _).bind fun program _ => (decodePoints_size d _ _).bind fun points hp => ?_
  exact .pure ⟨he, hp⟩

/-- Contour ends are read from words. -/
theorem readEnds_le {d : Bytes} {offset n : Nat} {acc : Array Nat} (h : ∀ e ∈ acc, e ≤ 65536) :
    Yields Anything (readEnds d offset acc n) fun ends => ∀ e ∈ ends, e ≤ 65536 := by
  induction n generalizing offset acc with
  | zero => exact h
  | succ n ih =>
    refine (Yields.anything _).bind fun w _ => .guarded trivial fun _ => ih fun e he => ?_
    rcases Array.mem_push.1 he with he | rfl
    · exact h e he
    · exact Nat.succ_le_of_lt w.toNat_lt

theorem read_points_le (d : Bytes) (n : Nat) :
    Yields Anything (read d n) fun g => g.points.size ≤ 65536 := by
  refine .guarded trivial fun _ =>
    (readEnds_le fun e he => absurd he (Array.not_mem_empty e)).bind fun ends he => ?_
  refine (Yields.anything _).bind fun length _ => .guarded trivial fun _ => ?_
  refine (Yields.anything _).bind fun program _ => (decodePoints_size d _ _).bind fun points hp => ?_
  refine .pure ?_
  show points.size ≤ 65536
  rw [hp]
  cases hb : ends.back? with
  | none => exact Nat.zero_le _
  | some e => exact he e (Array.mem_of_back? hb)

end SimpleGlyph

/-! ### Compound glyphs -/

namespace Compound

variable {d : Bytes} {offset : Nat}

theorem readOffset_safely (words : Bool) (h : offset + 6 ≤ d.size) :
    Safely (readOffset d offset words) Anything := by
  refine .ite (fun _ => .guarded nofun fun h8 => ?_) fun _ => ?_
  · exact .i16 (by omega) fun _ => .i16 (by omega) fun _ => .pure trivial
  · exact .u8 (by omega) fun _ => .u8 (by omega) fun _ => .pure trivial

theorem readComponent_safely (h : offset + 6 ≤ d.size) : Safely (readComponent d offset) Anything := by
  refine .u16 (by omega) fun w => .u16 (by omega) fun glyph => ?_
  refine (readOffset_safely _ h).bind fun shift _ => ?_
  exact .guarded nofun fun _ => .guarded nofun fun _ => .pure trivial

theorem readProgram_safely (d : Bytes) (offset : Nat) : Safely (readProgram d offset) Anything := by
  refine .guarded nofun fun h2 => ?_
  refine .u16 (by omega) fun length => .guarded nofun fun hl => ?_
  exact Bytes.yields_slice (by omega) (by omega)

theorem readFrom_safely (d : Bytes) (offset : Nat) : Safely (readFrom d offset).rest Anything := by
  fun_induction readFrom d offset with
  | case1 => nofun
  | case2 offset h e he => exact (readComponent_safely (Nat.not_lt.1 h)).error he
  | case3 offset h c bits hc hm g ih => exact ih
  | case4 offset h c bits hc hm =>
    exact .ite (fun _ => readProgram_safely d _) fun _ => .pure trivial

theorem readFrom_nonempty (d : Bytes) (offset : Nat) (h : (readFrom d offset).rest.isOk) :
    (readFrom d offset).components ≠ [] := by
  fun_induction readFrom d offset with
  | case1 => cases h
  | case2 => cases h
  | case3 => exact List.cons_ne_nil _ _
  | case4 => exact List.cons_ne_nil _ _

end Compound

/-- What follows the components of a compound glyph can be read. -/
def GlyphShape.Readable : GlyphShape → Prop
  | .simple _ => True
  | .compound g => Safely g.rest Anything

theorem GlyphRecord.read_safely (d : Bytes) : Safely (read d) fun r => r.shape.Readable := by
  refine .ite (fun _ => .pure trivial) fun _ => .guarded nofun fun h10 => ?_
  refine .i16 (by omega) fun n => .i16 (by omega) fun _ => .i16 (by omega) fun _ =>
    .i16 (by omega) fun _ => .i16 (by omega) fun _ => ?_
  refine .ite (fun _ => ?_) fun _ => .guarded nofun fun _ => ?_
  · exact (SimpleGlyph.read_safely d _).bind fun _ _ => .pure trivial
  · exact .pure (Compound.readFrom_safely d 10)

/-- A simple glyph is regular, and a compound glyph has a component if it can be read to its end. -/
def GlyphShape.Regular : GlyphShape → Prop
  | .simple g => g.Regular
  | .compound g => g.rest.isOk → g.components ≠ []

theorem GlyphRecord.read_regular (d : Bytes) : Yields Anything (read d) fun r => r.shape.Regular := by
  refine .ite (fun _ => .pure ⟨SimpleGlyph.endsInOrder_empty, rfl⟩) fun _ => .guarded trivial fun _ => ?_
  refine (Yields.anything _).bind fun n _ => (Yields.anything _).bind fun _ _ =>
    (Yields.anything _).bind fun _ _ => (Yields.anything _).bind fun _ _ =>
    (Yields.anything _).bind fun _ _ => ?_
  refine .ite (fun _ => ?_) fun _ => .guarded trivial fun _ => ?_
  · exact (SimpleGlyph.read_regular d _).bind fun g hg => .pure hg
  · exact .pure (Compound.readFrom_nonempty d 10)

/-- A simple glyph has no more points than a word can count, and one more. -/
theorem GlyphRecord.read_points_le (d : Bytes) : Yields Anything (read d) fun r =>
    ∀ g, r.shape = .simple g → g.points.size ≤ 65536 := by
  refine .ite (fun _ => .pure fun g hg => ?_) fun _ => .guarded trivial fun _ => ?_
  · cases hg
    exact Nat.zero_le _
  refine (Yields.anything _).bind fun n _ => (Yields.anything _).bind fun _ _ =>
    (Yields.anything _).bind fun _ _ => (Yields.anything _).bind fun _ _ =>
    (Yields.anything _).bind fun _ _ => ?_
  refine .ite (fun _ => ?_) fun _ => .guarded trivial fun _ => .pure nofun
  refine (SimpleGlyph.read_points_le d _).bind fun g hg => .pure fun g' hg' => ?_
  cases hg'
  exact hg

end GridFit
