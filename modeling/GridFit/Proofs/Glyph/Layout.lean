import GridFit.Proofs.Font.Tables
import GridFit.Proofs.Glyph.Decoding
import GridFit.Proofs.Glyph.Record

/-!
# The layout of glyph data

What the bytes of a font say about a glyph. A table of offsets tells where its data is
(`Font.HasData`). A simple glyph has its contour ends, its program and its encoded points one after
the other (`SimpleGlyph.StandsIn`). A compound glyph has a record for each component
(`ComponentRecord`), the flags of which tell how long the record is and whether another one follows
(`ComponentRecord.Lists`).

Reading a glyph succeeds where the data is laid out in this way, with what is written there, and
nowhere else (`Font.glyphData_ok`, `GlyphRecord.exists_simple`, `GlyphRecord.exists_compound`,
`ComponentRecord.readFrom_lists`).
-/

namespace GridFit

namespace Bytes

theorem zero_le_signExtend {w : UInt16} : 0 ≤ signExtend w ↔ w.toNat < 0x8000 := by
  have hw := w.toNat_lt
  rw [Int32.le_iff_toInt_le, toInt_signExtend, Int.bmod_def]
  show (0 : Int) ≤ _ ↔ _
  split <;> omega

theorem toNatClampNeg_signExtend {w : UInt16} (h : w.toNat < 0x8000) :
    (signExtend w).toNatClampNeg = w.toNat := by
  show (signExtend w).toInt.toNat = w.toNat
  rw [toInt_signExtend, Int.bmod_def]
  split <;> omega

theorem signExtend_eq_neg_one {w : UInt16} : signExtend w = -1 ↔ w = 0xffff := by
  have hw := w.toNat_lt
  have hmax : (0xffff : UInt16).toNat = 0xffff := rfl
  rw [← Int32.toInt_inj, toInt_signExtend, Int.bmod_def, ← UInt16.toNat_inj, hmax]
  show _ = (-1 : Int) ↔ _
  split <;> omega

/-- A mask of one bit tells whether it is set. -/
theorem and_ne_zero {m : UInt16} {k : Nat} (hk : k < 16) (hm : m.toBitVec = .twoPow 16 k)
    (w : UInt16) : (w &&& m != 0) = w.toNat.testBit k := by
  have htwo : BitVec.twoPow 16 k ≠ 0#16 := by
    intro h
    have hget := congrArg (·.getLsbD k) h
    simp [hk] at hget
  have hand : w &&& m = 0 ↔ w.toNat.testBit k = false := by
    rw [← UInt16.toBitVec_inj, UInt16.toBitVec_and, hm, BitVec.and_twoPow]
    show _ ↔ w.toBitVec.getLsbD k = false
    cases w.toBitVec.getLsbD k <;> simp [htwo]
  rw [Bool.eq_iff_iff, bne_iff_ne, ne_eq, hand, Bool.not_eq_false]

theorem and_or_ne_zero (w m m' : UInt16) :
    (w &&& (m ||| m') != 0) = (w &&& m != 0 || w &&& m' != 0) := by
  have hand : w &&& (m ||| m') = w &&& m ||| w &&& m' := by
    rw [← UInt16.toBitVec_inj]
    exact BitVec.and_or_distrib_left
  rw [Bool.eq_iff_iff, Bool.or_eq_true, bne_iff_ne, bne_iff_ne, bne_iff_ne, hand, ne_eq,
    UInt16.or_eq_zero_iff, Decidable.not_and_iff_not_or_not]

end Bytes

/-! ### Where the data of a glyph lies -/

namespace Font

variable {f : Font} {i : UInt16} {d : Bytes} {n k : Nat}

/-- The offset that is listed for glyph `i`. Offsets of the short format count words. -/
def dataOffset (f : Font) (i : Nat) : Nat :=
  match f.locaFormat with
  | .short => 2 * (f.loca.wordAt (2 * i)).toNat
  | .long => (f.loca.longAt (4 * i)).toNat

/-- The data of glyph `i` is `d`: what lies between its offset and that of the glyph after it. -/
structure HasData (f : Font) (i : UInt16) (d : Bytes) : Prop where
  lt_count : i.toNat < f.glyphCount
  listed : (i.toNat + 2) * f.locaFormat.width ≤ f.loca.size
  ordered : f.dataOffset i.toNat ≤ f.dataOffset (i.toNat + 1)
  inside : f.dataOffset (i.toNat + 1) ≤ f.glyf.size
  data : f.glyf.extract (f.dataOffset i.toNat) (f.dataOffset (i.toNat + 1)) = d

theorem glyphOffset_ok : f.glyphOffset n = .ok k ↔
    (n + 1) * f.locaFormat.width ≤ f.loca.size ∧ f.dataOffset n = k := by
  unfold glyphOffset dataOffset
  cases f.locaFormat with
  | short =>
    have hroom : (n + 1) * LocaFormat.short.width = 2 * n + 2 := Nat.mul_comm (n + 1) 2
    simp [FontM.bind_eq_ok, Bytes.u16At_ok, pure, Except.pure, hroom, and_assoc]
  | long =>
    have hroom : (n + 1) * LocaFormat.long.width = 4 * n + 4 := Nat.mul_comm (n + 1) 4
    simp [FontM.bind_eq_ok, Bytes.u32At_ok, pure, Except.pure, hroom, and_assoc]

theorem glyphData_ok : f.glyphData i = .ok d ↔ f.HasData i d := by
  simp only [glyphData, FontM.guarded_eq_ok, FontM.bind_eq_ok, glyphOffset_ok, Bytes.slice_ok]
  constructor
  · rintro ⟨hi, _, ⟨_, rfl⟩, _, ⟨hlisted, rfl⟩, _, hordered, hinside, hd⟩
    exact ⟨Nat.not_le.1 hi, hlisted, hordered, hinside, hd⟩
  · intro h
    have hlisted : (i.toNat + 1) * f.locaFormat.width ≤ f.loca.size :=
      Nat.le_trans (Nat.mul_le_mul_right _ (Nat.le_succ _)) h.listed
    have hordered := h.ordered
    have hinside := h.inside
    exact ⟨Nat.not_le.2 h.lt_count, _, ⟨hlisted, rfl⟩, _, ⟨h.listed, rfl⟩, by omega, hordered,
      hinside, h.data⟩

end Font

/-! ### Simple glyphs -/

namespace SimpleGlyph

variable {d : Bytes} {offset n : Nat} {g : SimpleGlyph} {acc ends : Array Nat}

/-- The number of contours in the data of a simple glyph. -/
def contourCount (d : Bytes) : Nat := (d.wordAt 0).toNat

/-- The end of a contour, which is listed at an offset by the index of the last point of it. -/
def endAt (d : Bytes) (offset : Nat) : Nat := (d.wordAt offset).toNat + 1

/-- The contour ends come after a header of ten bytes. -/
def contourEnds (d : Bytes) : List Nat :=
  (List.range (contourCount d)).map fun k => endAt d (10 + 2 * k)

/-- The program comes after the contour ends and its own length. -/
def programStart (d : Bytes) : Nat := 12 + 2 * contourCount d

def pointsStart (d : Bytes) : Nat :=
  programStart d + (d.wordAt (10 + 2 * contourCount d)).toNat

/-- The data `d`, which is not empty, describes the simple glyph `g`. -/
structure StandsIn (g : SimpleGlyph) (d : Bytes) : Prop where
  not_compound : contourCount d < 0x8000
  complete : pointsStart d ≤ d.size
  ends : g.ends.toList = contourEnds d
  inOrder : (contourEnds d).Pairwise (· < ·)
  program : g.program = d.extract (programStart d) (pointsStart d)
  points : ∃ (raw : List RawPoint) (e : Encoding raw), raw.length = g.ends.back?.getD 0 ∧
    d.Holds (pointsStart d) e.bytes ∧ g.points.toList = raw.map RawPoint.toPoint

/-- A glyph without data has no contours. -/
inductive Written (d : Bytes) : SimpleGlyph → Prop
  | empty : d.size = 0 → Written d {}
  | data {g : SimpleGlyph} : g.StandsIn d → Written d g

theorem not_any_of_pairwise {stop : Nat} {rest : List Nat}
    (h : (acc.toList ++ stop :: rest).Pairwise (· < ·)) : ¬acc.back?.any (stop ≤ ·) := by
  cases hb : acc.back? with
  | none => simp
  | some last =>
    have hlast : last ∈ acc.toList := Array.mem_toList_iff.2 (Array.mem_of_back? hb)
    have hlt := (List.pairwise_append.1 h).2.2 last hlast stop (by simp)
    simp [hlt]

/-- Contour ends are read in a row, if they are in order. -/
theorem readEnds_ok (h : offset + 2 * n ≤ d.size) (hacc : EndsInOrder acc) :
    readEnds d offset acc n = .ok ends ↔
      ends.toList = acc.toList ++ (List.range n).map (fun k => endAt d (offset + 2 * k)) ∧
        ends.toList.Pairwise (· < ·) := by
  induction n generalizing offset acc with
  | zero =>
    show Except.ok acc = Except.ok ends ↔ _
    constructor
    · intro he
      cases he
      simpa using hacc.1
    · intro he
      simpa [← Array.toList_inj, eq_comm] using he.1
  | succ n ih =>
    have hrest : (List.range (n + 1)).map (fun k => endAt d (offset + 2 * k)) =
        endAt d offset :: (List.range n).map fun k => endAt d (offset + 2 + 2 * k) := by
      simp [List.range_succ_eq_map, Nat.mul_succ, Nat.add_comm, Nat.add_assoc]
    have hsize : offset + 2 ≤ d.size := by omega
    rw [hrest, readEnds]
    simp only [Bytes.u16At_eq hsize, FontM.bind_eq_ok, FontM.guarded_eq_ok, Except.ok.injEq,
      exists_eq_left']
    constructor
    · rintro ⟨hlast, hr⟩
      have hnext := (ih (by omega) (hacc.push (Nat.succ_pos _) hlast)).1 hr
      rwa [Array.toList_push, List.append_assoc] at hnext
    · intro he
      have hlast := not_any_of_pairwise (he.1 ▸ he.2)
      refine ⟨hlast, (ih (by omega) (hacc.push (Nat.succ_pos _) hlast)).2 ?_⟩
      rwa [Array.toList_push, List.append_assoc]

theorem read_ok (hn : contourCount d < 0x8000) :
    read d (contourCount d) = .ok g ↔ g.StandsIn d := by
  have hstart : 10 + 2 * contourCount d + 2 = programStart d := by
    rw [programStart]
    omega
  simp only [read, hstart, FontM.guarded_eq_ok, FontM.bind_eq_ok, Bytes.u16At_ok, Bytes.slice_ok,
    decodePoints_ok, Nat.not_lt]
  constructor
  · rintro ⟨hsize, ends, hends, length, ⟨_, rfl⟩, _, program, ⟨_, hstop, rfl⟩, points, hpoints, hg⟩
    obtain ⟨hends, hinOrder⟩ := (readEnds_ok (by omega) endsInOrder_empty).1 hends
    have hends : ends.toList = contourEnds d := hends
    cases hg
    exact ⟨hn, hstop, hends, hends ▸ hinOrder, rfl, hpoints⟩
  · intro h
    have hsize : programStart d ≤ d.size := Nat.le_trans (Nat.le_add_right ..) h.complete
    have hends : readEnds d 10 #[] (contourCount d) = .ok g.ends :=
      (readEnds_ok (by omega) endsInOrder_empty).2 ⟨h.ends, h.ends ▸ h.inOrder⟩
    exact ⟨hsize, g.ends, hends, _, ⟨by omega, rfl⟩, h.complete, g.program,
      ⟨Nat.le_add_right .., h.complete, h.program.symm⟩, g.points, h.points, rfl⟩

end SimpleGlyph

/-! ### Compound glyphs -/

/-- The record of a component of a compound glyph, at an address of the data of the glyph. A word of
flags and the index of the component are followed by its offset. -/
structure ComponentRecord where
  data : Bytes
  address : Nat

namespace ComponentRecord

variable (r : ComponentRecord)

def flag (k : Nat) : Bool := (r.data.wordAt r.address).toNat.testBit k

/-- The offset takes two words. Otherwise it takes two bytes. -/
def hasWords : Bool := r.flag 0

/-- The component is moved by an offset. Otherwise a point of it is put on another point. -/
def hasOffset : Bool := r.flag 1

/-- The component is scaled, along both axes alike or not, or transformed by a matrix. -/
def isTransformed : Bool := r.flag 3 || r.flag 6 || r.flag 7

/-- The record of one more component follows. -/
def hasNext : Bool := r.flag 5

/-- The program of the glyph follows. -/
def hasProgram : Bool := r.flag 8

/-- The offset along both axes, in signed words or in signed bytes. -/
def offset : Point :=
  if r.hasWords then
    ⟨(r.data.wordAt (r.address + 4)).toInt16.toInt32,
      (r.data.wordAt (r.address + 6)).toInt16.toInt32⟩
  else
    ⟨(r.data.byteAt (r.address + 4)).toInt8.toInt32,
      (r.data.byteAt (r.address + 5)).toInt8.toInt32⟩

def component : Component where
  glyph := r.data.wordAt (r.address + 2)
  offset := r.offset
  roundsOffset := r.flag 2
  givesMetrics := r.flag 9

/-- The address after the record. -/
def stop : Nat := r.address + if r.hasWords then 8 else 6

def next : ComponentRecord := ⟨r.data, r.stop⟩

/-- The length of the program after the last record. -/
def programLength : Nat := (r.data.wordAt r.stop).toNat

/-- The program of the glyph, if this is its last record. -/
def program : Bytes :=
  if r.hasProgram then r.data.extract (r.stop + 2) (r.stop + 2 + r.programLength) else #[]

/-- The record is complete, and its component is only moved. -/
structure Sound : Prop where
  complete : r.stop ≤ r.data.size
  hasOffset : r.hasOffset
  not_transformed : ¬r.isTransformed

/-- The records from `r` on list the given components. The last one is followed by the given
program. -/
inductive Lists : ComponentRecord → List Component → Bytes → Prop
  | last {r : ComponentRecord} : r.Sound → ¬r.hasNext →
      (r.hasProgram → r.stop + 2 + r.programLength ≤ r.data.size) →
      Lists r [r.component] r.program
  | next {r : ComponentRecord} {cs : List Component} {program : Bytes} : r.Sound → r.hasNext →
      Lists r.next cs program → Lists r (r.component :: cs) program

/-- Component `c` is that of `r`, or that of a record which `r` leads to. -/
inductive Leads : ComponentRecord → Component → Prop
  | here {r : ComponentRecord} : r.Sound → Leads r r.component
  | next {r : ComponentRecord} {c : Component} : r.Sound → r.hasNext → Leads r.next c → Leads r c

variable {r : ComponentRecord}

theorem mask_ne_zero {m : UInt16} {k : Nat} (hk : k < 16) (hm : m.toBitVec = .twoPow 16 k) :
    (r.data.wordAt r.address &&& m != 0) = r.flag k :=
  Bytes.and_ne_zero hk hm _

theorem bits_eq (r : ComponentRecord) : Compound.ComponentBits.ofWord (r.data.wordAt r.address) =
    ⟨r.hasWords, r.hasOffset, r.flag 2, r.hasNext, r.isTransformed, r.hasProgram, r.flag 9⟩ := by
  have htransformed : (r.data.wordAt r.address &&& 0x00c8 != 0) = r.isTransformed := by
    have hmask : (0x00c8 : UInt16) = 0x0008 ||| 0x0040 ||| 0x0080 := by decide
    have hscale : (r.data.wordAt r.address &&& 0x0008 != 0) = r.flag 3 :=
      mask_ne_zero (by decide) (by decide)
    have hscales : (r.data.wordAt r.address &&& 0x0040 != 0) = r.flag 6 :=
      mask_ne_zero (by decide) (by decide)
    have hmatrix : (r.data.wordAt r.address &&& 0x0080 != 0) = r.flag 7 :=
      mask_ne_zero (by decide) (by decide)
    rw [hmask, Bytes.and_or_ne_zero, Bytes.and_or_ne_zero, hscale, hscales, hmatrix, isTransformed]
  rw [Compound.ComponentBits.ofWord, htransformed, Compound.ComponentBits.mk.injEq]
  exact ⟨mask_ne_zero (by decide) (by decide), mask_ne_zero (by decide) (by decide),
    mask_ne_zero (by decide) (by decide), mask_ne_zero (by decide) (by decide), rfl,
    mask_ne_zero (by decide) (by decide), mask_ne_zero (by decide) (by decide)⟩

theorem readOffset_ok {p : Point} : Compound.readOffset r.data r.address r.hasWords = .ok p ↔
    r.stop ≤ r.data.size ∧ r.offset = p := by
  unfold Compound.readOffset stop offset
  by_cases hw : r.hasWords
  · simp only [hw, if_true, FontM.guarded_eq_ok, FontM.bind_eq_ok, Bytes.i16At_ok]
    constructor
    · rintro ⟨hsize, _, ⟨_, rfl⟩, _, ⟨_, rfl⟩, hp⟩
      cases hp
      exact ⟨Nat.not_lt.1 hsize, rfl⟩
    · rintro ⟨hsize, rfl⟩
      exact ⟨Nat.not_lt.2 hsize, _, ⟨by omega, rfl⟩, _, ⟨by omega, rfl⟩, rfl⟩
  · simp only [hw, Bool.false_eq_true, if_false, FontM.bind_eq_ok, Bytes.u8At_ok]
    constructor
    · rintro ⟨_, ⟨_, rfl⟩, _, ⟨hsize, rfl⟩, hp⟩
      cases hp
      exact ⟨hsize, rfl⟩
    · rintro ⟨hsize, rfl⟩
      exact ⟨_, ⟨by omega, rfl⟩, _, ⟨by omega, rfl⟩, rfl⟩

theorem six_le_stop (r : ComponentRecord) : r.address + 6 ≤ r.stop := by
  unfold stop
  split <;> omega

/-- A component is read if its record is sound. -/
theorem readComponent_ok {q : Component × Compound.ComponentBits} :
    Compound.readComponent r.data r.address = .ok q ↔ r.Sound ∧
      (r.component, Compound.ComponentBits.ofWord (r.data.wordAt r.address)) = q := by
  have hstop := r.six_le_stop
  simp only [Compound.readComponent, FontM.guarded_eq_ok, FontM.bind_eq_ok, Bytes.u16At_ok]
  constructor
  · rintro ⟨_, ⟨_, rfl⟩, _, ⟨_, rfl⟩, p, hp, hoffset, htransformed, hq⟩
    rw [bits_eq] at hp hoffset htransformed
    obtain ⟨hsize, rfl⟩ := readOffset_ok.1 hp
    cases hq
    refine ⟨⟨hsize, by simpa using hoffset, htransformed⟩, ?_⟩
    rw [bits_eq]
    rfl
  · rintro ⟨h, rfl⟩
    have hsize := h.complete
    refine ⟨_, ⟨by omega, rfl⟩, _, ⟨by omega, rfl⟩, r.offset, ?_⟩
    rw [bits_eq]
    exact ⟨readOffset_ok.2 ⟨hsize, rfl⟩, by simpa using h.hasOffset, h.not_transformed, rfl⟩

example : (⟨#[0x00, 0x03, 0, 2, 0xff, 0x38, 0x01, 0x2c], 0⟩ : ComponentRecord).component =
    { glyph := 2, offset := ⟨-200, 300⟩, roundsOffset := false, givesMetrics := false } := by
  decide

/-- Reading stops at a record that is not sound. -/
theorem readFrom_unsound (h : ¬r.Sound) :
    ∃ e, Compound.readFrom r.data r.address = ⟨[], .error e⟩ := by
  rw [Compound.readFrom]
  split
  · exact ⟨_, rfl⟩
  · split
    · exact ⟨_, rfl⟩
    · rename_i hr
      exact absurd (readComponent_ok.1 hr).1 h

theorem readFrom_sound (h : r.Sound) : Compound.readFrom r.data r.address =
    if r.hasNext then
      { Compound.readFrom r.data r.stop with
        components := r.component :: (Compound.readFrom r.data r.stop).components }
    else ⟨[r.component], if r.hasProgram then Compound.readProgram r.data r.stop else .ok #[]⟩ := by
  have hsize : ¬r.data.size < r.address + 6 := by
    have hcomplete := h.complete
    have hstop := r.six_le_stop
    omega
  rw [Compound.readFrom, dif_neg hsize, readComponent_ok.2 ⟨h, rfl⟩, bits_eq]
  rfl

theorem readProgram_ok {a : Nat} {d program : Bytes} : Compound.readProgram d a = .ok program ↔
    a + 2 + (d.wordAt a).toNat ≤ d.size ∧
      d.extract (a + 2) (a + 2 + (d.wordAt a).toNat) = program := by
  simp only [Compound.readProgram, FontM.guarded_eq_ok, FontM.bind_eq_ok, Bytes.u16At_ok,
    Bytes.slice_ok]
  constructor
  · rintro ⟨_, _, ⟨_, rfl⟩, _, _, hsize, hp⟩
    exact ⟨hsize, hp⟩
  · rintro ⟨hsize, hp⟩
    exact ⟨by omega, _, ⟨by omega, rfl⟩, by omega, by omega, hsize, hp⟩

theorem readProgram_last {program : Bytes} :
    (if r.hasProgram then Compound.readProgram r.data r.stop else .ok #[]) = .ok program ↔
      (r.hasProgram → r.stop + 2 + r.programLength ≤ r.data.size) ∧ r.program = program := by
  unfold ComponentRecord.program
  by_cases hp : r.hasProgram
  · rw [if_pos hp, if_pos hp, readProgram_ok]
    exact and_congr_left' ⟨fun h _ => h, fun h => h hp⟩
  · rw [if_neg hp, if_neg hp]
    exact ⟨fun h => ⟨fun h' => absurd h' hp, Except.ok.inj h⟩, fun h => congrArg _ h.2⟩

/-- Records are read one after the other, up to the last one or to one that is not sound. -/
theorem induct {motive : ComponentRecord → Prop} (unsound : ∀ r, ¬r.Sound → motive r)
    (last : ∀ r, r.Sound → ¬r.hasNext → motive r)
    (next : ∀ r, r.Sound → r.hasNext → motive r.next → motive r) (r : ComponentRecord) :
    motive r := by
  induction hm : r.data.size - r.address using Nat.strongRecOn generalizing r with
  | _ m ih =>
    by_cases hs : r.Sound
    · by_cases hn : r.hasNext
      · have hcomplete := hs.complete
        have hstop := r.six_le_stop
        have hlt : r.next.data.size - r.next.address < m := by
          show r.data.size - r.stop < m
          omega
        exact next r hs hn (ih _ hlt r.next rfl)
      · exact last r hs hn
    · exact unsound r hs

/-- The records list the components that are read, and the program that is read after them. -/
theorem readFrom_lists {cs : List Component} {program : Bytes} :
    (Compound.readFrom r.data r.address).components = cs ∧
      (Compound.readFrom r.data r.address).rest = .ok program ↔ r.Lists cs program := by
  constructor
  · rintro ⟨rfl, hrest⟩
    induction r using ComponentRecord.induct with
    | unsound r h =>
      obtain ⟨e, he⟩ := readFrom_unsound h
      rw [he] at hrest
      cases hrest
    | last r h hn =>
      rw [readFrom_sound h, if_neg hn] at hrest ⊢
      obtain ⟨hfits, rfl⟩ := readProgram_last.1 hrest
      exact .last h hn hfits
    | next r h hn ih =>
      rw [readFrom_sound h, if_pos hn] at hrest ⊢
      exact .next h hn (ih hrest)
  · intro h
    induction h with
    | @last r h hn hp =>
      rw [readFrom_sound h, if_neg hn]
      exact ⟨rfl, readProgram_last.2 ⟨hp, rfl⟩⟩
    | next h hn _ ih =>
      rw [readFrom_sound h, if_pos hn]
      exact ⟨congrArg _ ih.1, ih.2⟩

theorem mem_components {c : Component} :
    c ∈ (Compound.readFrom r.data r.address).components ↔ r.Leads c := by
  constructor
  · intro hc
    induction r using ComponentRecord.induct with
    | unsound r h =>
      obtain ⟨e, he⟩ := readFrom_unsound h
      rw [he] at hc
      cases hc
    | last r h hn =>
      rw [readFrom_sound h, if_neg hn, List.mem_singleton] at hc
      exact hc ▸ .here h
    | next r h hn ih =>
      rw [readFrom_sound h, if_pos hn] at hc
      rcases List.mem_cons.1 hc with rfl | hc
      · exact .here h
      · exact .next h hn (ih hc)
  · intro h
    induction h with
    | @here r h =>
      rw [readFrom_sound h]
      split <;> simp
    | next h hn _ ih =>
      rw [readFrom_sound h, if_pos hn]
      exact List.mem_cons_of_mem _ ih

end ComponentRecord

/-! ### Glyphs -/

namespace Compound

/-- The data of a compound glyph has the number -1 in place of a number of contours. Its components
come after a header of ten bytes. -/
structure HasHeader (d : Bytes) : Prop where
  complete : 10 ≤ d.size
  marked : d.wordAt 0 = 0xffff

def firstRecord (d : Bytes) : ComponentRecord := ⟨d, 10⟩

/-- The data `d` describes a compound glyph with the given components and program. -/
structure Written (d : Bytes) (components : List Component) (program : Bytes) : Prop
    extends HasHeader d where
  lists : (firstRecord d).Lists components program

end Compound

namespace GlyphRecord

variable {d : Bytes}

theorem read_data (h : 10 ≤ d.size) : ∃ bounds : Bounds, read d =
    if 0 ≤ Bytes.signExtend (d.wordAt 0) then do
      let g ← SimpleGlyph.read d (Bytes.signExtend (d.wordAt 0)).toNatClampNeg
      return { bounds, shape := .simple g }
    else if Bytes.signExtend (d.wordAt 0) ≠ -1 then throw .negativeContours
    else return { bounds, shape := .compound (Compound.read d) } := by
  have hne : ¬d.isEmpty := by
    rw [Array.isEmpty_iff_size_eq_zero]
    omega
  rw [read, if_neg hne, if_neg (Nat.not_lt.2 h), Bytes.i16At_eq (by omega), Bytes.i16At_eq (by omega),
    Bytes.i16At_eq (by omega), Bytes.i16At_eq (by omega), Bytes.i16At_eq (by omega)]
  exact ⟨_, rfl⟩

theorem read_standsIn {g : SimpleGlyph} (h : g.StandsIn d) :
    ∃ bounds, read d = .ok ⟨bounds, .simple g⟩ := by
  have hcount := h.not_compound
  have hsize : 10 ≤ d.size := by
    have hcomplete := h.complete
    unfold SimpleGlyph.pointsStart SimpleGlyph.programStart at hcomplete
    omega
  obtain ⟨bounds, hr⟩ := read_data hsize
  rw [if_pos (Bytes.zero_le_signExtend.2 hcount), Bytes.toNatClampNeg_signExtend hcount] at hr
  have hg : SimpleGlyph.read d (d.wordAt 0).toNat = .ok g := (SimpleGlyph.read_ok hcount).2 h
  rw [hg] at hr
  exact ⟨bounds, hr⟩

theorem read_header (h : Compound.HasHeader d) :
    ∃ bounds, read d = .ok ⟨bounds, .compound (Compound.read d)⟩ := by
  obtain ⟨bounds, hr⟩ := read_data h.complete
  rw [h.marked] at hr
  exact ⟨bounds, hr⟩

theorem read_ok {r : GlyphRecord} (h : read d = .ok r) : d.size = 0 ∧ r.shape = .simple {} ∨
    (∃ g : SimpleGlyph, g.StandsIn d ∧ r.shape = .simple g) ∨
      Compound.HasHeader d ∧ r.shape = .compound (Compound.read d) := by
  by_cases hempty : d.isEmpty
  · rw [read, if_pos hempty] at h
    cases h
    exact .inl ⟨Array.isEmpty_iff_size_eq_zero.1 hempty, rfl⟩
  by_cases hsize : d.size < 10
  · rw [read, if_neg hempty, if_pos hsize] at h
    cases h
  obtain ⟨bounds, hr⟩ := read_data (Nat.not_lt.1 hsize)
  rw [hr] at h
  by_cases hcount : (d.wordAt 0).toNat < 0x8000
  · rw [if_pos (Bytes.zero_le_signExtend.2 hcount), Bytes.toNatClampNeg_signExtend hcount] at h
    obtain ⟨g, hg, h⟩ := FontM.exists_of_bind_ok h
    cases h
    exact .inr (.inl ⟨g, (SimpleGlyph.read_ok hcount).1 hg, rfl⟩)
  · rw [if_neg (mt Bytes.zero_le_signExtend.1 hcount)] at h
    by_cases hneg : Bytes.signExtend (d.wordAt 0) = -1
    · rw [if_neg (not_not_intro hneg)] at h
      cases h
      exact .inr (.inr ⟨⟨Nat.not_lt.1 hsize, Bytes.signExtend_eq_neg_one.1 hneg⟩, rfl⟩)
    · rw [if_pos hneg] at h
      cases h

theorem exists_simple {g : SimpleGlyph} :
    (∃ r, read d = .ok r ∧ r.shape = .simple g) ↔ SimpleGlyph.Written d g := by
  constructor
  · rintro ⟨r, hr, hg⟩
    rcases read_ok hr with ⟨hempty, h⟩ | ⟨g', hg', h⟩ | ⟨_, h⟩
    · cases h.symm.trans hg
      exact .empty hempty
    · cases h.symm.trans hg
      exact .data hg'
    · cases h.symm.trans hg
  · intro h
    cases h with
    | empty h =>
      rw [read, if_pos (Array.isEmpty_iff_size_eq_zero.2 h)]
      exact ⟨_, rfl, rfl⟩
    | data h =>
      obtain ⟨bounds, hr⟩ := read_standsIn h
      exact ⟨_, hr, rfl⟩

theorem exists_compound {g : Compound} : (∃ r, read d = .ok r ∧ r.shape = .compound g) ↔
    Compound.HasHeader d ∧ Compound.read d = g := by
  constructor
  · rintro ⟨r, hr, hg⟩
    rcases read_ok hr with ⟨_, h⟩ | ⟨_, _, h⟩ | ⟨hheader, h⟩
    · cases h.symm.trans hg
    · cases h.symm.trans hg
    · cases h.symm.trans hg
      exact ⟨hheader, rfl⟩
  · rintro ⟨hheader, rfl⟩
    obtain ⟨bounds, hr⟩ := read_header hheader
    exact ⟨_, hr, rfl⟩

end GlyphRecord

end GridFit
