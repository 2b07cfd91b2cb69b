import GridFit.Font.Basic
import GridFit.Proofs.Font.Reading

/-!
# Parsed fonts

Parsing ends with an error of the format or with a font whose tables are large enough for what is
read from them later (`Font.Ample`): the checks relate the number of glyphs to the tables of offsets
and metrics, and the number of kerning pairs to the kerning table. From then on no access to these
tables needs a check of its own.
-/

namespace GridFit

/-! ### The table directory -/

namespace Tables

variable {file : Bytes} {x : Nat}

theorem readTable_safely (h : x + 16 ≤ file.size) : Safely (readTable file x) Anything := by
  refine .u32 (by omega) fun offset => ?_
  refine .u32 (by omega) fun length => .guarded nofun fun hr => ?_
  exact Bytes.yields_slice (by omega) (by omega)

theorem addEntry_safely (t : Tables) (h : x + 16 ≤ file.size) :
    Safely (addEntry file t x) Anything := by
  have ht : Safely (readTag file x) Anything :=
    (Bytes.yields_slice (by omega) (by omega)).bind fun _ _ => .pure trivial
  refine ht.bind fun tag? _ => ?_
  cases tag? with
  | none => exact .pure trivial
  | some tag => exact (readTable_safely h).bind fun _ _ => .pure trivial

theorem read_safely (file : Bytes) : Safely (read file) Anything := by
  refine .guarded nofun fun h12 => ?_
  refine .u32 (by omega) fun version => .guarded nofun fun _ => ?_
  refine .u16 (by omega) fun n => .guarded nofun fun hn => ?_
  refine .foldlM trivial fun i hi t _ => ?_
  have hi : i < n.toNat := List.mem_range.1 hi
  exact addEntry_safely t (by omega)

end Tables

/-! ### The tables of a font -/

namespace CharMap

variable {cmap : Bytes} {offset : Nat}

theorem chooseSubtable_safely (found : Option UInt32) (i n : Nat) (h : 8 * (i + n) + 4 ≤ cmap.size) :
    Safely (chooseSubtable cmap found i n) Anything := by
  induction n generalizing found i with
  | zero => exact .pure trivial
  | succ n ih =>
    refine .u32 (by omega) fun encoding => .u32 (by omega) fun offset => ?_
    refine .ite (fun _ => .pure trivial) fun _ => ?_
    exact ih _ (i + 1) (by omega)

theorem readSegment_safely {base n i : Nat} (hi : i < n) (h : base + 8 * n + 2 ≤ cmap.size) :
    Safely (readSegment cmap base n i) Anything :=
  .u16 (by omega) fun _ => .u16 (by omega) fun _ => .u16 (by omega) fun _ => .u16 (by omega) fun _ =>
    .pure trivial

theorem readSubtable_safely (h : offset + 14 ≤ cmap.size) :
    Safely (readSubtable cmap offset) Anything := by
  refine .u16 (by omega) fun format => .guarded nofun fun _ => ?_
  refine .u16 (by omega) fun language => .guarded nofun fun _ => ?_
  refine .u16 (by omega) fun twice => .guarded nofun fun _ => .guarded nofun fun hs => ?_
  refine (Yields.mapM (r := Anything) fun i hi => ?_).bind fun segments _ => ?_
  · exact readSegment_safely (List.mem_range.1 hi) (by omega)
  · exact (Bytes.yields_slice (by omega) (by omega)).bind fun _ _ => .pure trivial

theorem read_safely (cmap : Bytes) : Safely (read cmap) Anything := by
  refine .guarded nofun fun h4 => ?_
  refine .u16 (by omega) fun n => .guarded nofun fun hn => ?_
  refine (chooseSubtable_safely none 0 n.toNat (by omega)).bind fun found _ => ?_
  cases found with
  | none => exact .throw nofun
  | some offset => exact .guarded nofun fun ho => readSubtable_safely (by omega)

/-- Whatever its segments are, a character map is not read out of bounds. -/
theorem glyph_surely (m : CharMap) (code : Int) : Surely (m.glyph code) Anything := by
  refine .ite (fun _ => ?_) fun _ => .pure trivial
  dsimp only
  split
  · exact .pure trivial
  · refine .ite (fun _ => .pure trivial) fun _ => .ite (fun _ => .pure trivial) fun ho => ?_
    exact .u16 (by omega) fun _ => .pure trivial

end CharMap

namespace KernTable

variable {t : KernTable}

/-- The table has room for its records. -/
def Ample (t : KernTable) : Prop := ∀ i < t.count, 18 + 6 * i + 6 ≤ t.data.size

theorem read_safely (data : Bytes) : Safely (read data) Ample := by
  refine .ite (fun _ => .pure fun i hi => absurd hi (Nat.not_lt_zero i)) fun _ => ?_
  refine .guarded nofun fun h18 => ?_
  refine .u16 (by omega) fun version => .guarded nofun fun _ => ?_
  refine .u16 (by omega) fun tables => .guarded nofun fun _ => ?_
  refine .u16 (by omega) fun length => ?_
  refine .u16 (by omega) fun coverage => .guarded nofun fun _ => ?_
  refine .u16 (by omega) fun count => .guarded nofun fun hl => .pure fun i hi => ?_
  dsimp only at hi ⊢
  omega

/-- The search stays inside of the table, also where its records are not in order. -/
theorem search_surely (ht : t.Ample) (pair : UInt32) (lo hi : Nat) (hhi : hi ≤ t.count) :
    Surely (t.search pair lo hi) Anything := by
  fun_induction search t pair lo hi with
  | case1 lo hi h i e hk =>
    have hr := ht i (by omega)
    exact (Bytes.yields_u32At (by omega) : Surely (t.key i) Anything).error hk
  | case2 lo hi h i k hk hlt ih => exact ih hhi
  | case3 lo hi h i k hk hlt hgt ih => exact ih (by omega)
  | case4 lo hi h i k hk hlt hgt =>
    have hr := ht i (by omega)
    exact Bytes.yields_i16At (by omega)
  | case5 lo hi h => trivial

end KernTable

theorem NameRecord.read_safely {table : Bytes} {x : Nat} (storage : Nat) (h : x + 12 ≤ table.size) :
    Safely (read table storage x) Anything :=
  .u16 (by omega) fun _ => .u16 (by omega) fun _ => .u16 (by omega) fun _ => .u16 (by omega) fun _ =>
    .u16 (by omega) fun _ => .u16 (by omega) fun _ => .pure trivial

theorem Names.find_safely (decoder : TextDecoder) (table : Bytes) (id : UInt16) :
    Safely (find decoder table id) Anything := by
  refine .ite (fun _ => .pure trivial) fun _ => .guarded nofun fun h6 => ?_
  refine .u16 (by omega) fun count => .u16 (by omega) fun storage => .guarded nofun fun hc => ?_
  refine (Yields.mapM (r := Anything) fun i hi => ?_).bind fun records _ => ?_
  · have hi : i < count.toNat := List.mem_range.1 hi
    exact NameRecord.read_safely storage.toNat (by omega)
  · split
    · exact .pure trivial
    · refine .guarded nofun fun ho => ?_
      exact (Bytes.yields_slice (by omega) (by omega)).bind fun _ _ => .pure trivial

namespace Font

/-! ### Parsing -/

theorem readHead_safely (head : Bytes) : Safely (readHead head) fun h => 0 < h.unitsPerEm := by
  refine .guarded nofun fun hs => ?_
  refine .u16 (by omega) fun units => .guarded nofun fun hu => ?_
  refine .i16 (by omega) fun _ => .i16 (by omega) fun _ => .i16 (by omega) fun _ =>
    .i16 (by omega) fun _ => .u16 (by omega) fun format => ?_
  have hpos : 0 < units.toNat := by omega
  split
  · exact .pure hpos
  · exact .pure hpos
  · exact .throw nofun

theorem readMaxp_safely (maxp : Bytes) : Safely (readMaxp maxp) Anything := by
  refine .guarded nofun fun h6 => ?_
  refine .u32 (by omega) fun version => .u16 (by omega) fun glyphs => ?_
  refine .ite (fun _ => .pure trivial) fun _ => .guarded nofun fun _ => .guarded nofun fun h32 => ?_
  exact .u16 (by omega) fun _ => .u16 (by omega) fun _ => .u16 (by omega) fun _ =>
    .u16 (by omega) fun _ => .u16 (by omega) fun _ => .pure trivial

theorem checkLoca_safely (loca : Bytes) (format : LocaFormat) (glyphs : Nat) :
    Safely (checkLoca loca format glyphs) fun _ => (glyphs + 1) * format.width ≤ loca.size :=
  .ite (fun _ => .throw nofun) fun h => .pure (Nat.not_lt.1 h)

theorem readHhea_safely (hhea hmtx : Bytes) (glyphs : Nat) :
    Safely (readHhea hhea hmtx glyphs) fun n =>
      0 < n ∧ n ≤ glyphs ∧ hmtx.size = 4 * n + 2 * (glyphs - n) := by
  refine .guarded nofun fun hs => ?_
  refine .u16 (by omega) fun n => .guarded nofun fun hn => .guarded nofun fun hm => ?_
  exact .pure ⟨by omega, by omega, by omega⟩

theorem readCvt_safely (cvt : Bytes) : Safely (readCvt cvt) Anything := by
  refine .guarded nofun fun _ => ?_
  exact (Bytes.yields_u16sAt (by omega)).bind fun _ _ => .pure trivial

/-- The tables of the font are large enough for what is read from them. -/
structure Ample (f : Font) : Prop where
  unitsPerEm : 0 < f.unitsPerEm
  loca : (f.glyphCount + 1) * f.locaFormat.width ≤ f.loca.size
  kern : f.kern.Ample
  hmetricCount_pos : 0 < f.hmetricCount
  hmetricCount_le : f.hmetricCount ≤ f.glyphCount
  hmtx : f.hmtx.size = 4 * f.hmetricCount + 2 * (f.glyphCount - f.hmetricCount)

theorem ample_parse (file : Bytes) : Safely (parse file) Ample := by
  refine (Tables.read_safely file).bind fun t _ => ?_
  refine (readHead_safely t.head).bind fun head hu => ?_
  refine (readMaxp_safely t.maxp).bind fun (glyphs, maxima) _ => ?_
  refine (checkLoca_safely t.loca head.locaFormat glyphs).bind fun _ hl => ?_
  refine (CharMap.read_safely t.cmap).bind fun charMap _ => ?_
  refine (KernTable.read_safely t.kern).bind fun kern hk => ?_
  refine (readHhea_safely t.hhea t.hmtx glyphs).bind fun n hn => ?_
  refine (readCvt_safely t.cvt).bind fun cvt _ => .pure ?_
  exact ⟨hu, hl, hk, hn.1, hn.2.1, hn.2.2⟩

/-- The character map and the kerning of a font are read from its tables. -/
theorem parse_reads (file : Bytes) : Yields Anything (parse file) fun f =>
    ∃ t, Tables.read file = .ok t ∧ CharMap.read t.cmap = .ok f.charMap ∧
      KernTable.read t.kern = .ok f.kern := by
  refine (Yields.self _).bind fun t ht => ?_
  refine (Yields.anything _).bind fun head _ => (Yields.anything _).bind fun (glyphs, maxima) _ =>
    (Yields.anything _).bind fun _ _ => ?_
  refine (Yields.self _).bind fun charMap hc => (Yields.self _).bind fun kern hk => ?_
  exact (Yields.anything _).bind fun n _ => (Yields.anything _).bind fun cvt _ =>
    .pure ⟨t, ht, hc, hk⟩

/-! ### Using a font -/

variable {f : Font}

namespace Ample

theorem hmetric_surely (h : f.Ample) (i : UInt16) : Surely (f.hmetric i) Anything := by
  have h₁ := h.hmetricCount_pos
  have h₂ := h.hmetricCount_le
  have h₃ := h.hmtx
  refine .ite (fun _ => .pure trivial) fun hi => .ite (fun hj => ?_) fun hj => ?_
  · exact .u16 (by omega) fun _ => .i16 (by omega) fun _ => .pure trivial
  · exact .u16 (by omega) fun _ => .i16 (by omega) fun _ => .pure trivial

theorem kerning_surely (h : f.Ample) (left right : UInt16) :
    Surely (f.kerning left right) Anything :=
  KernTable.search_surely h.kern _ 0 f.kern.count (Nat.le_refl _)

theorem glyphOffset_surely (h : f.Ample) {i : Nat} (hi : i ≤ f.glyphCount) :
    Surely (f.glyphOffset i) Anything := by
  have hl := h.loca
  unfold glyphOffset
  split
  · rename_i hf
    rw [hf, LocaFormat.width] at hl
    exact .u16 (by omega) fun _ => .pure trivial
  · rename_i hf
    rw [hf, LocaFormat.width] at hl
    exact .u32 (by omega) fun _ => .pure trivial

theorem glyphData_safely (h : f.Ample) (i : UInt16) : Safely (f.glyphData i) Anything := by
  refine .guarded nofun fun hi => ?_
  refine (h.glyphOffset_surely (by omega)).safely.bind fun start _ => ?_
  refine (h.glyphOffset_surely (by omega)).safely.bind fun stop _ => .guarded nofun fun hs => ?_
  exact Bytes.yields_slice (by omega) (by omega)

end Ample

/-! ### Small fonts -/

/-- The directory entries of tables that follow each other from `offset` on. -/
def directory (offset : Nat) : List (List UInt8 × List UInt8) → List UInt8
  | [] => []
  | (tag, data) :: rest =>
    tag ++ [0, 0, 0, 0] ++ long offset ++ long data.length ++ directory (offset + data.length) rest
where
  long (n : Nat) : List UInt8 := [0, 0, UInt8.ofNat (n / 256), UInt8.ofNat n]

/-- A character map without segments. -/
def noCharacters : List UInt8 := [0, 0, 0, 1, 0, 0, 0, 3, 0, 0, 0, 12, 0, 4] ++ List.replicate 14 0

/-- A font file with glyphs that have the given data and advance widths, and with a kerning table. It
has 1024 units in one em, and its programs may use 16 stack elements. -/
def sample (glyphs : List (List UInt8 × Nat)) (kern : List UInt8)
    (cmap : List UInt8 := noCharacters) (others : List (List UInt8 × List UInt8) := []) : Bytes :=
  let word (n : Nat) : List UInt8 := [UInt8.ofNat (n / 256), UInt8.ofNat n]
  let zeros (n : Nat) : List UInt8 := List.replicate n 0
  let n := glyphs.length
  let offsets := glyphs.scanl (fun offset g => offset + g.1.length) 0
  let tables : List (List UInt8 × List UInt8) :=
    [([104, 101, 97, 100], zeros 18 ++ word 1024 ++ zeros 30 ++ word 1 ++ zeros 2),
      ([109, 97, 120, 112], [0, 1, 0, 0] ++ word n ++ zeros 18 ++ word 16 ++ zeros 6),
      ([99, 109, 97, 112], cmap),
      ([104, 104, 101, 97], zeros 34 ++ word n),
      ([104, 109, 116, 120], glyphs.flatMap fun g => word g.2 ++ zeros 2),
      ([108, 111, 99, 97], offsets.flatMap fun offset => zeros 2 ++ word offset),
      ([103, 108, 121, 102], glyphs.flatMap (·.1)),
      ([107, 101, 114, 110], kern)] ++ others
  List.toArray <|
    [0, 1, 0, 0] ++ word tables.length ++ zeros 6 ++ directory (12 + 16 * tables.length) tables ++
      tables.flatMap (·.2)

/-- The bounds of the glyphs below. -/
def sampleBounds : List UInt8 := [0, 10, 0, 0, 1, 44, 0, 100]

/-- The data of a triangle with the corners (10, 0), (200, 0) and (100, 100), and with a program. -/
def triangleData (program : List UInt8) : List UInt8 :=
  [0, 1] ++ sampleBounds ++ [0, 2, 0, UInt8.ofNat program.length] ++ program ++
    [0x33, 0x33, 0x27] ++ [10, 190, 100] ++ [100]

/-- The data of a compound glyph, given the records of its components and its program. -/
def compoundData (records : List (List UInt8)) : List UInt8 :=
  [0xff, 0xff] ++ sampleBounds ++ records.flatten

end Font

end GridFit
