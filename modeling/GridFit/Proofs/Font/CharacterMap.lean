import GridFit.Proofs.Font.Tables

/-!
# Looking up characters

The entries of a character map table lead to subtables. The first entry for Unicode counts, or else
the last one for Microsoft (`MapEntry.chosen?`). In a subtable of segments (`MapSubtable`) the codes
of a segment have glyphs at a constant distance, or their glyphs are listed at an address that is
relative to the place of the segment's range offset.

A font whose character map has been read from a table follows the chosen subtable of that table, if
the segments of the subtable are in order (`Font.index_follows`).
-/

namespace GridFit

/-- An entry of a character map table. -/
structure MapEntry where
  encoding : UInt32
  address : UInt32
deriving DecidableEq, Repr

namespace MapEntry

/-- Entry number `i` of a table. -/
def inTable (table : Bytes) (i : Nat) : MapEntry where
  encoding := table.longAt (8 * i + 4)
  address := table.longAt (8 * i + 8)

def ofTable (table : Bytes) : List MapEntry :=
  (List.range (table.wordAt 2).toNat).map (inTable table)

/-- The first entry for Unicode, or else the last one for Microsoft. -/
def chosen? (entries : List MapEntry) : Option MapEntry :=
  (entries.find? (·.encoding = CharMap.unicode)).or
    (entries.reverse.find? (·.encoding = CharMap.microsoft))

/-- Only an entry for Unicode wins over the entries after it. -/
theorem chosen?_cons (e : MapEntry) (entries : List MapEntry) :
    chosen? (e :: entries) =
      if e.encoding = CharMap.unicode then some e
      else (chosen? entries).or (if e.encoding = CharMap.microsoft then some e else none) := by
  rw [chosen?, chosen?, List.find?_cons, List.reverse_cons, List.find?_append, List.find?_singleton]
  by_cases hu : e.encoding = CharMap.unicode
  · simp [hu]
  · simp only [hu, decide_false, if_false, Option.or_assoc, decide_eq_true_eq]

end MapEntry

/-- The subtable at an address of a character map table. A header of 14 bytes is followed by the last
codes of all segments, an unused word, their first codes, their deltas and their range offsets. -/
structure MapSubtable where
  table : Bytes
  address : Nat

namespace MapSubtable

variable (s : MapSubtable)

/-- The number of segments. -/
def count : Nat := (s.table.wordAt (s.address + 6)).toNat / 2

def last (i : Nat) : UInt16 := s.table.wordAt (s.address + 14 + 2 * i)

def first (i : Nat) : UInt16 := s.table.wordAt (s.address + 16 + 2 * s.count + 2 * i)

def delta (i : Nat) : UInt16 := s.table.wordAt (s.address + 16 + 4 * s.count + 2 * i)

/-- The address of the range offset of segment `i`. -/
def rangeAddress (i : Nat) : Nat := s.address + 16 + 6 * s.count + 2 * i

def range (i : Nat) : UInt16 := s.table.wordAt (s.rangeAddress i)

/-- The segments are in ascending order and do not overlap. -/
structure InOrder : Prop where
  first_le_last : ∀ i < s.count, s.first i ≤ s.last i
  last_lt_first : ∀ i, i + 1 < s.count → s.last i < s.first (i + 1)

/-- Code `x` is in segment `i`. -/
structure Covers (i : Nat) (x : Int) : Prop where
  lt_count : i < s.count
  first_le : (s.first i).toNat ≤ x
  le_last : x ≤ (s.last i).toNat

/-- Where the glyph of code `x` in segment `i` is listed. -/
def glyphAddress (i : Nat) (x : Int) : Nat :=
  s.rangeAddress i + (s.range i).toNat + 2 * (x.toNat - (s.first i).toNat)

/-- A glyph can be listed at the address `a`, after the range offsets and inside of the table. -/
def Lists (a : Nat) : Prop := s.rangeAddress s.count ≤ a ∧ a + 2 ≤ s.table.size

/-- `index` takes codes to glyphs as the subtable says. Sums of words are taken modulo `2 ^ 16`. -/
structure FollowedBy (index : Int → FontM UInt16) : Prop where
  outside : ∀ x, x < 0 ∨ 0xffff < x → index x = .ok 0
  uncovered : ∀ x, (∀ i, ¬s.Covers i x) → index x = .ok 0
  shifted : ∀ i x, s.Covers i x → s.range i = 0 →
    index x = .ok (UInt16.ofNat (x.toNat + (s.delta i).toNat))
  unlisted : ∀ i x, s.Covers i x → s.range i ≠ 0 → ¬s.Lists (s.glyphAddress i x) → index x = .ok 0
  missing : ∀ i x, s.Covers i x → s.range i ≠ 0 → s.Lists (s.glyphAddress i x) →
    s.table.wordAt (s.glyphAddress i x) = 0 → index x = .ok 0
  listed : ∀ i x, s.Covers i x → s.range i ≠ 0 → s.Lists (s.glyphAddress i x) →
    s.table.wordAt (s.glyphAddress i x) ≠ 0 →
    index x = .ok (s.table.wordAt (s.glyphAddress i x) + s.delta i)

instance : Decidable s.InOrder :=
  decidable_of_iff ((∀ i < s.count, s.first i ≤ s.last i) ∧
      ∀ i < s.count, i + 1 < s.count → s.last i < s.first (i + 1))
    ⟨fun h => ⟨h.1, fun i hi => h.2 i (Nat.lt_of_succ_lt hi) hi⟩, fun h => ⟨h.1, fun i _ => h.2 i⟩⟩

instance (a : Nat) : Decidable (s.Lists a) := inferInstanceAs (Decidable (_ ∧ _))

variable {s} {i j : Nat} {x : Int}

theorem rangeAddress_count (s : MapSubtable) :
    s.rangeAddress s.count = s.address + 16 + 8 * s.count := by
  rw [rangeAddress]
  omega

/-! ### Segments in order -/

theorem InOrder.last_lt_first_of_lt (h : s.InOrder) (hij : i < j) (hj : j < s.count) :
    s.last i < s.first j := by
  induction hij with
  | refl => exact h.last_lt_first i hj
  | @step j _ ih =>
    have hlt := ih (by omega)
    have hle := h.first_le_last j (by omega)
    exact UInt16.lt_trans (UInt16.lt_of_lt_of_le hlt hle) (h.last_lt_first j hj)

/-- A code is in one segment at most. -/
theorem InOrder.covers_unique (h : s.InOrder) (hi : s.Covers i x) (hj : s.Covers j x) : i = j := by
  have hapart : ∀ {i j}, s.Covers i x → s.Covers j x → ¬i < j := by
    intro i j hi hj hij
    have hlt := UInt16.lt_iff_toNat_lt.1 (h.last_lt_first_of_lt hij hj.lt_count)
    have hx := hi.le_last
    have hx' := hj.first_le
    omega
  have hij := hapart hi hj
  have hji := hapart hj hi
  omega

/-! ### Reading a table -/

/-- Segment number `i`. -/
def segment (s : MapSubtable) (i : Nat) : CharSegment := ⟨s.first i, s.last i, s.delta i, s.range i⟩

/-- The character map of the subtable. -/
def charMap (s : MapSubtable) : CharMap where
  segments := ((List.range s.count).map s.segment).toArray
  glyphs := s.table.extract (s.rangeAddress s.count) s.table.size

end MapSubtable

namespace CharMap

variable {cmap : Bytes} {m : CharMap}

theorem chooseSubtable_eq (found : Option UInt32) (i n : Nat) (h : 8 * (i + n) + 4 ≤ cmap.size) :
    chooseSubtable cmap found i n =
      .ok (((MapEntry.chosen? ((List.range' i n).map (MapEntry.inTable cmap))).map (·.address)).or
        found) := by
  induction n generalizing found i with
  | zero => rfl
  | succ n ih =>
    rw [chooseSubtable, Bytes.u32At_eq (by omega), Bytes.u32At_eq (by omega), List.range'_succ,
      List.map_cons]
    let e := MapEntry.inTable cmap i
    show (if e.encoding = unicode then .ok (some e.address)
      else chooseSubtable cmap (if e.encoding = microsoft then some e.address else found) (i + 1) n) =
        .ok (((MapEntry.chosen? (e :: _)).map (·.address)).or found)
    rw [ih _ (i + 1) (by omega), MapEntry.chosen?_cons]
    by_cases hu : e.encoding = unicode
    · rw [if_pos hu, if_pos hu]
      rfl
    · rw [if_neg hu, if_neg hu]
      by_cases hm : e.encoding = microsoft
      · simp [hm]
      · simp [hm]

theorem readSegment_eq {s : MapSubtable} {i : Nat} (hi : i < s.count)
    (h : s.rangeAddress s.count ≤ s.table.size) :
    readSegment s.table (s.address + 14) s.count i = .ok (s.segment i) := by
  have haddress := s.rangeAddress_count
  have hfirst : s.address + 14 + 2 * s.count + 2 + 2 * i = s.address + 16 + 2 * s.count + 2 * i := by
    omega
  have hdelta : s.address + 14 + 4 * s.count + 2 + 2 * i = s.address + 16 + 4 * s.count + 2 * i := by
    omega
  have hrange : s.address + 14 + 6 * s.count + 2 + 2 * i = s.rangeAddress i := by
    rw [MapSubtable.rangeAddress]
    omega
  rw [readSegment, Bytes.u16At_eq (by omega), hfirst, Bytes.u16At_eq (by omega), hdelta,
    Bytes.u16At_eq (by omega), hrange, Bytes.u16At_eq (by omega)]
  rfl

/-- A subtable that has been read has room for its segments. -/
theorem readSubtable_yields (s : MapSubtable) (h : s.address + 14 ≤ s.table.size) :
    Yields Anything (readSubtable s.table s.address) fun m =>
      m = s.charMap ∧ s.rangeAddress s.count ≤ s.table.size := by
  refine .word (by omega) <| .guarded trivial fun _ => .word (by omega) <| .guarded trivial fun _ => ?_
  refine .word (by omega) <| .guarded trivial fun _ => .guarded trivial fun hs => ?_
  have haddress := s.rangeAddress_count
  have hroom : s.rangeAddress s.count ≤ s.table.size := by
    rw [haddress, MapSubtable.count]
    omega
  have hsegments : (List.range s.count).mapM (readSegment s.table (s.address + 14) s.count) =
      .ok ((List.range s.count).map s.segment) :=
    FontM.mapM_of_ok fun i hi => readSegment_eq (List.mem_range.1 hi) hroom
  have hglyphs : s.table.slice (s.address + 14 + 8 * s.count + 2) s.table.size =
      .ok s.charMap.glyphs := by
    have hstart : s.address + 14 + 8 * s.count + 2 = s.rangeAddress s.count := by omega
    rw [hstart, Bytes.slice, if_pos ⟨hroom, Nat.le_refl _⟩]
    rfl
  refine (Yields.self _).bind fun segments hs => (Yields.self _).bind fun glyphs hg => ?_
  cases hsegments.symm.trans hs
  cases hglyphs.symm.trans hg
  exact .pure ⟨rfl, hroom⟩

/-- What is read of a table is the character map of the subtable that is chosen. -/
theorem read_yields (cmap : Bytes) : Yields Anything (read cmap) fun m =>
    ∃ e, MapEntry.chosen? (MapEntry.ofTable cmap) = some e ∧
      let s : MapSubtable := ⟨cmap, e.address.toNat⟩
      m = s.charMap ∧ s.rangeAddress s.count ≤ cmap.size := by
  refine .guarded trivial fun h4 => .word (by omega) <| .guarded trivial fun hn => ?_
  rw [chooseSubtable_eq none 0 _ (by omega), Option.or_none, ← List.range_eq_range']
  show Yields Anything (.ok ((MapEntry.chosen? (MapEntry.ofTable cmap)).map (·.address)) >>= _) _
  cases MapEntry.chosen? (MapEntry.ofTable cmap) with
  | none => trivial
  | some e =>
    refine .guarded trivial fun ha => ?_
    have hroom : e.address.toNat + 14 ≤ cmap.size := Nat.not_lt.1 fun h => ha (.inr h)
    exact (readSubtable_yields ⟨cmap, e.address.toNat⟩ hroom).mono fun m hm => ⟨e, rfl, hm⟩

end CharMap

/-! ### Looking codes up -/

/-- A word in the rest of a table. -/
theorem Bytes.wordAt_extract (b : Bytes) {k i : Nat} (h : k + i + 2 ≤ b.size) :
    wordAt (b.extract k b.size) i = b.wordAt (k + i) := by
  have hi : k + i < b.size := by omega
  have hi' : k + (i + 1) < b.size := by omega
  simp only [wordAt, Array.getD_eq_getD_getElem?, Array.getElem?_extract, Nat.min_self]
  rw [if_pos (by omega), if_pos (by omega)]
  rfl

namespace MapSubtable

variable {s : MapSubtable} {i : Nat} {x : Int}

theorem Covers.bounds (h : s.Covers i x) : 0 ≤ x ∧ x ≤ 0xffff := by
  have hlast := (s.last i).toNat_lt
  have h₁ := h.first_le
  have h₂ := h.le_last
  omega

theorem toNat_code (hx : 0 ≤ x ∧ x ≤ 0xffff) : ((UInt16.ofNat x.toNat).toNat : Int) = x := by
  have hlt : x.toNat < UInt16.size := Nat.lt_of_le_of_lt (Int.toNat_le.2 hx.2) (by decide)
  rw [UInt16.toNat_ofNat_of_lt' hlt]
  exact Int.toNat_of_nonneg hx.1

theorem contains_iff (hx : 0 ≤ x ∧ x ≤ 0xffff) (hi : i < s.count) :
    (s.segment i).contains (UInt16.ofNat x.toNat) ↔ s.Covers i x := by
  have hcode := toNat_code hx
  rw [CharSegment.contains, Bool.and_eq_true_iff, decide_eq_true_eq, decide_eq_true_eq,
    UInt16.le_iff_toNat_le, UInt16.le_iff_toNat_le]
  constructor
  · rintro ⟨h₁, h₂⟩
    exact ⟨hi, by rw [← hcode]; exact Int.ofNat_le.2 h₁, by rw [← hcode]; exact Int.ofNat_le.2 h₂⟩
  · rintro ⟨-, h₁, h₂⟩
    rw [← hcode] at h₁ h₂
    exact ⟨Int.ofNat_le.1 h₁, Int.ofNat_le.1 h₂⟩

theorem size_segments (s : MapSubtable) : s.charMap.segments.size = s.count := by
  simp [charMap]

theorem getElem_segments (hi : i < s.charMap.segments.size) :
    s.charMap.segments[i] = s.segment i := by
  simp [charMap]

/-- A code has the glyph of the segment that it is in. -/
theorem glyph_covered (hs : s.InOrder) (h : s.Covers i x) :
    s.charMap.glyph x = s.charMap.glyphIn i (s.segment i) (UInt16.ofNat x.toNat) := by
  have hsize := s.size_segments
  have hfound : s.charMap.segments.findFinIdx? (·.contains (UInt16.ofNat x.toNat)) =
      some ⟨i, hsize ▸ h.lt_count⟩ := by
    refine Array.findFinIdx?_eq_some_iff.2 ⟨?_, fun j hj hc => ?_⟩
    · exact (getElem_segments ..).symm ▸ (contains_iff h.bounds h.lt_count).2 h
    · rw [Fin.getElem_fin, getElem_segments] at hc
      have hj' := (contains_iff h.bounds (hsize ▸ j.isLt)).1 hc
      exact absurd (hs.covers_unique hj' h) (Nat.ne_of_lt hj)
  rw [CharMap.glyph, if_pos h.bounds]
  dsimp only
  rw [hfound]
  dsimp only
  rw [Fin.getElem_fin, getElem_segments]

theorem glyph_uncovered (h : ∀ i, ¬s.Covers i x) : s.charMap.glyph x = .ok 0 := by
  rw [CharMap.glyph]
  split
  · rename_i hx
    have hnone : s.charMap.segments.findFinIdx? (·.contains (UInt16.ofNat x.toNat)) = none := by
      refine Array.findFinIdx?_eq_none_iff.2 fun t ht hc => ?_
      obtain ⟨i, hi, rfl⟩ := Array.getElem_of_mem ht
      rw [getElem_segments] at hc
      exact h i ((contains_iff hx (size_segments s ▸ hi)).1 hc)
    dsimp only
    rw [hnone]
  · rfl

theorem glyphIn_shifted (hr : s.range i = 0) :
    s.charMap.glyphIn i (s.segment i) (UInt16.ofNat x.toNat) =
      .ok (UInt16.ofNat (x.toNat + (s.delta i).toNat)) := by
  rw [UInt16.ofNat_add, UInt16.ofNat_toNat, CharMap.glyphIn,
    if_pos (show (s.segment i).offset = 0 from hr)]
  rfl

theorem glyphIn_listed (h : s.Covers i x) (hr : s.range i ≠ 0)
    (hroom : s.rangeAddress s.count ≤ s.table.size) :
    s.charMap.glyphIn i (s.segment i) (UInt16.ofNat x.toNat) =
      let g := s.table.wordAt (s.glyphAddress i x)
      .ok (if s.Lists (s.glyphAddress i x) ∧ g ≠ 0 then g + s.delta i else 0) := by
  have hcode := toNat_code h.bounds
  have hfirst : s.first i ≤ UInt16.ofNat x.toNat := by
    rw [UInt16.le_iff_toNat_le]
    have hle := h.first_le
    omega
  have hsub : (UInt16.ofNat x.toNat - s.first i).toNat = x.toNat - (s.first i).toNat := by
    rw [UInt16.toNat_sub_of_le _ _ hfirst]
    omega
  -- The range offset counts from its own place, which is `count - i` words before the listed glyphs.
  have hoffset : ((s.segment i).offset.toNat : Int) + 2 * ((i : Int) - s.charMap.segments.size +
      ((UInt16.ofNat x.toNat - (s.segment i).start).toNat : Int)) =
      s.glyphAddress i x - s.rangeAddress s.count := by
    have hlt := h.lt_count
    show ((s.range i).toNat : Int) + 2 * ((i : Int) - s.charMap.segments.size +
      ((UInt16.ofNat x.toNat - s.first i).toNat : Int)) = _
    rw [size_segments, hsub, glyphAddress, rangeAddress, rangeAddress]
    omega
  have hglyphs : s.charMap.glyphs.size = s.table.size - s.rangeAddress s.count := by simp [charMap]
  rw [CharMap.glyphIn, if_neg (show (s.segment i).offset ≠ 0 from hr), hoffset]
  dsimp only
  by_cases ha : s.Lists (s.glyphAddress i x)
  · obtain ⟨hle, hin⟩ := ha
    have hplace : ((s.glyphAddress i x : Int) - s.rangeAddress s.count).toNat =
        s.glyphAddress i x - s.rangeAddress s.count := by
      omega
    have hword : s.charMap.glyphs.u16At (s.glyphAddress i x - s.rangeAddress s.count) =
        .ok (s.table.wordAt (s.glyphAddress i x)) := by
      rw [Bytes.u16At_eq (by omega)]
      refine congrArg Except.ok ((Bytes.wordAt_extract _ (by omega)).trans ?_)
      rw [Nat.add_sub_cancel' hle]
    rw [if_neg (by omega), hplace, hword]
    refine congrArg Except.ok ?_
    by_cases hg : s.table.wordAt (s.glyphAddress i x) = 0
    · rw [if_pos hg, if_neg fun h => h.2 hg]
    · rw [if_neg hg, if_pos ⟨⟨hle, hin⟩, hg⟩]
      rfl
  · have hout : ((s.glyphAddress i x : Int) - s.rangeAddress s.count) < 0 ∨
        (s.charMap.glyphs.size : Int) < (s.glyphAddress i x : Int) - s.rangeAddress s.count + 2 := by
      rw [Lists] at ha
      omega
    rw [if_pos hout, if_neg fun h => ha h.1]
    rfl

theorem followedBy_glyph (hs : s.InOrder) (hroom : s.rangeAddress s.count ≤ s.table.size) :
    s.FollowedBy s.charMap.glyph := by
  refine ⟨fun x hx => ?_, fun x => glyph_uncovered, fun i x h hr => ?_, fun i x h hr ha => ?_,
    fun i x h hr ha hg => ?_, fun i x h hr ha hg => ?_⟩
  · refine glyph_uncovered fun i h => ?_
    have hb := h.bounds
    omega
  · rw [glyph_covered hs h, glyphIn_shifted hr]
  · rw [glyph_covered hs h, glyphIn_listed h hr hroom]
    exact congrArg Except.ok (if_neg fun h => ha h.1)
  · rw [glyph_covered hs h, glyphIn_listed h hr hroom]
    exact congrArg Except.ok (if_neg fun h => h.2 hg)
  · rw [glyph_covered hs h, glyphIn_listed h hr hroom]
    exact congrArg Except.ok (if_pos ⟨ha, hg⟩)

end MapSubtable

/-- The font follows the subtable that is chosen, if its segments are in order. -/
theorem Font.index_follows {cmap : Bytes} {f : Font} (h : CharMap.read cmap = .ok f.charMap) :
    ∃ e, MapEntry.chosen? (MapEntry.ofTable cmap) = some e ∧
      let s : MapSubtable := ⟨cmap, e.address.toNat⟩
      s.rangeAddress s.count ≤ cmap.size ∧ (s.InOrder → s.FollowedBy f.index) := by
  obtain ⟨e, he, hm, hroom⟩ := (CharMap.read_yields cmap).ok h
  refine ⟨e, he, hroom, fun hs => ?_⟩
  have hfollows := MapSubtable.followedBy_glyph hs hroom
  rw [← hm] at hfollows
  exact hfollows

/-- A table with three segments. Glyphs of the second one are listed. -/
@[irreducible] def CharMap.listing : Bytes :=
  #[0, 0, 0, 2, 0, 3, 0, 1, 0, 0, 0, 22, 0, 0, 0, 3, 0, 0, 0, 20] ++
  #[0, 4, 0, 46, 0, 0, 0, 6, 0, 0, 0, 0, 0, 0] ++ #[0, 66, 0, 0x72, 0xff, 0xff] ++ #[0, 0] ++
  #[0, 65, 0, 0x70, 0xff, 0xff] ++ #[0xff, 0xc0, 0, 5, 0, 1] ++ #[0, 0, 0, 4, 0, 0] ++
  #[0, 7, 0, 0, 0, 9]

theorem Font.index_follows_listing : ∃ f : Font, CharMap.read CharMap.listing = .ok f.charMap ∧
    let s : MapSubtable := ⟨CharMap.listing, 20⟩
    s.InOrder ∧ s.Covers 1 0x72 ∧ s.FollowedBy f.index := by
  have hread : (CharMap.read CharMap.listing).toOption.any fun _ => true := by decide +kernel
  have hchosen : (MapEntry.chosen? (MapEntry.ofTable CharMap.listing)).map (·.address.toNat) =
      some 20 := by
    decide +kernel
  have horder : (MapSubtable.mk CharMap.listing 20).InOrder := by decide +kernel
  obtain ⟨m, hm, -⟩ := FontM.exists_of_any hread
  obtain ⟨e, he, -, hfollows⟩ := index_follows (f := { (default : Font) with charMap := m }) hm
  rw [he] at hchosen
  have haddress : e.address.toNat = 20 := Option.some.inj hchosen
  rw [haddress] at hfollows
  refine ⟨{ (default : Font) with charMap := m }, hm, horder, ⟨?_, ?_, ?_⟩, hfollows horder⟩
  all_goals decide +kernel

end GridFit
