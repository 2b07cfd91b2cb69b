import GridFit.Proofs.Font.Tables

/-!
# Looking up kerning

The records of a kerning table are those that its header counts, each with a pair of glyphs and an
amount (`KernRecord.ofTable`). A parsed font looks pairs up in the records of its kerning table
(`Font.kerning_lookup`): whatever their order is, it answers, and only with amounts that are listed
for the pair in question. If the records are in strictly ascending order, it finds each of them.
-/

namespace GridFit

/-- A record of a kerning table: how far glyph `right` is moved after glyph `left`. -/
@[ext]
structure KernRecord where
  left : UInt16
  right : UInt16
  amount : Int32
deriving DecidableEq, Repr

namespace KernRecord

/-- The number that records are ordered by. Its high half is the left glyph. -/
def key (r : KernRecord) : UInt32 := r.left.toUInt32 <<< 16 ||| r.right.toUInt32

/-- Record number `i` of a table. -/
def inTable (table : Bytes) (i : Nat) : KernRecord where
  left := table.wordAt (18 + 6 * i)
  right := table.wordAt (18 + 6 * i + 2)
  amount := Bytes.signExtend (table.wordAt (18 + 6 * i + 4))

/-- The records of a table. An empty table has none. -/
def ofTable (table : Bytes) : List KernRecord :=
  if table.isEmpty then [] else (List.range (table.wordAt 10).toNat).map (inTable table)

theorem toNat_key (r : KernRecord) : r.key.toNat = r.left.toNat * 65536 + r.right.toNat := by
  have hl := r.left.toNat_lt
  have hr := r.right.toNat_lt
  have hshift : (r.left.toUInt32 <<< (16 : UInt32)).toNat = r.left.toNat <<< 16 := by
    rw [UInt32.toNat_shiftLeft, UInt16.toNat_toUInt32, Nat.mod_eq_of_lt]
    · rfl
    · show r.left.toNat <<< 16 < 2 ^ 32
      rw [Nat.shiftLeft_eq]
      omega
  rw [key, UInt32.toNat_or, hshift, UInt16.toNat_toUInt32, ← Nat.shiftLeft_add_eq_or_of_lt hr,
    Nat.shiftLeft_eq]

/-- The key of a record is that of its pair only. -/
theorem pair_eq_of_key_eq {r s : KernRecord} (h : r.key = s.key) :
    r.left = s.left ∧ r.right = s.right := by
  have hkey := congrArg UInt32.toNat h
  have hr := r.right.toNat_lt
  have hs := s.right.toNat_lt
  rw [toNat_key, toNat_key] at hkey
  exact ⟨UInt16.toNat_inj.1 (by omega), UInt16.toNat_inj.1 (by omega)⟩

/-- `kerning` looks pairs of glyphs up in the records. -/
structure LookedUp (records : List KernRecord) (kerning : UInt16 → UInt16 → FontM Int32) : Prop where
  /-- There is an answer in any order of the records, and an amount other than zero is listed. -/
  answers : ∀ left right, ∃ v, kerning left right = .ok v ∧ (v = 0 ∨ ⟨left, right, v⟩ ∈ records)
  unlisted : ∀ left right, (∀ v, ⟨left, right, v⟩ ∉ records) → kerning left right = .ok 0
  finds : records.Pairwise (·.key < ·.key) → ∀ r ∈ records, kerning r.left r.right = .ok r.amount

end KernRecord

/-! ### The search -/

namespace KernTable

variable {t : KernTable} {pair : UInt32} {lo hi k : Nat} {v : Int32}

def record (t : KernTable) (i : Nat) : KernRecord := .inTable t.data i

theorem Ample.key_eq (ht : t.Ample) {i : Nat} (hi : i < t.count) : t.key i = .ok (t.record i).key := by
  have hr := ht i hi
  exact Bytes.u32At_eq (by omega)

theorem Ample.amount_eq (ht : t.Ample) {i : Nat} (hi : i < t.count) :
    t.amount i = .ok (t.record i).amount := by
  have hr := ht i hi
  exact Bytes.i16At_eq (by omega)

/-- What the search comes to is the amount of a record with the pair that was looked for. -/
theorem Ample.of_search (ht : t.Ample) (hhi : hi ≤ t.count) (h : t.search pair lo hi = .ok v) :
    v = 0 ∨ ∃ i < t.count, (t.record i).key = pair ∧ (t.record i).amount = v := by
  fun_induction search t pair lo hi with
  | case1 => cases h
  | case2 lo hi hlt i k hk hless ih => exact ih hhi h
  | case3 lo hi hlt i k hk hless hmore ih => exact ih (by omega) h
  | case4 lo hi hlt i k hk hless hmore =>
    have hin : i < t.count := by omega
    rw [ht.key_eq hin] at hk
    rw [ht.amount_eq hin] at h
    cases hk
    cases h
    exact .inr ⟨i, hin, UInt32.le_antisymm (UInt32.not_lt.1 hmore) (UInt32.not_lt.1 hless), rfl⟩
  | case5 =>
    cases h
    exact .inl rfl

/-- The keys of the records go up strictly. -/
def Ascending (t : KernTable) : Prop :=
  ∀ i j, i < j → j < t.count → (t.record i).key < (t.record j).key

theorem Ascending.lt_of_key_lt (hs : t.Ascending) {i j : Nat} (hi : i < t.count)
    (h : (t.record i).key < (t.record j).key) : i < j := by
  rcases Nat.lt_trichotomy i j with hlt | rfl | hgt
  · exact hlt
  · exact absurd h (UInt32.lt_irrefl _)
  · exact absurd (hs j i hgt hi) (UInt32.lt_asymm h)

/-- In ascending records the search finds every record of its range. -/
theorem Ample.search_finds (ht : t.Ample) (hs : t.Ascending) (hlo : lo ≤ k) (hk : k < hi)
    (hhi : hi ≤ t.count) : t.search (t.record k).key lo hi = .ok (t.record k).amount := by
  fun_induction search t (t.record k).key lo hi with
  | case1 lo hi hlt i e he =>
    rw [ht.key_eq (by omega)] at he
    cases he
  | case2 lo hi hlt i key hkey hless ih =>
    -- The record in the middle comes before the one that is looked for.
    have hin : i < t.count := by omega
    rw [ht.key_eq hin] at hkey
    cases hkey
    exact ih (hs.lt_of_key_lt hin hless) hk hhi
  | case3 lo hi hlt i key hkey hless hmore ih =>
    rw [ht.key_eq (by omega)] at hkey
    cases hkey
    exact ih hlo (hs.lt_of_key_lt (by omega) hmore) (by omega)
  | case4 lo hi hlt i key hkey hless hmore =>
    have hin : i < t.count := by omega
    rw [ht.key_eq hin] at hkey
    cases hkey
    have hik : i = k := by
      rcases Nat.lt_trichotomy i k with hlt | heq | hgt
      · exact absurd (hs i k hlt (by omega)) hless
      · exact heq
      · exact absurd (hs k i hgt hin) hmore
    rw [hik]
    exact ht.amount_eq (by omega)
  | case5 lo hi hlt => omega

/-! ### The table -/

/-- The header that has been checked counts the records, and the table has room for them. -/
theorem read_header (data : Bytes) : Yields Anything (read data) fun t =>
    t.data = data ∧ (t.count = if data.isEmpty then 0 else (data.wordAt 10).toNat) ∧
      (data.isEmpty ∨ 18 + 6 * t.count ≤ data.size) := by
  refine .ite (fun he => .pure ?_) fun he => .guarded trivial fun h18 => ?_
  · rw [if_pos he]
    exact ⟨(Array.isEmpty_iff.1 he).symm, rfl, .inl he⟩
  refine .word (by omega) <| .guarded trivial fun _ => .word (by omega) <| .guarded trivial fun _ => ?_
  refine .word (by omega) <| .word (by omega) <| .guarded trivial fun _ => ?_
  refine .word (by omega) <| .guarded trivial fun hl => .pure ⟨rfl, ?_, .inr ?_⟩
  · rw [if_neg he]
  · exact Nat.not_lt.1 fun h => hl (.inr h)

theorem ofTable_eq {data : Bytes} (h : read data = .ok t) :
    KernRecord.ofTable data = (List.range t.count).map t.record := by
  obtain ⟨rfl, hcount, -⟩ := (read_header data).ok h
  rw [KernRecord.ofTable, hcount]
  split <;> rfl

theorem ascending_of_pairwise
    (h : ((List.range t.count).map t.record).Pairwise (·.key < ·.key)) : t.Ascending := by
  intro i j hij hj
  rw [List.pairwise_map, List.pairwise_iff_getElem] at h
  have hlt := h i j (by rw [List.length_range]; omega) (by rwa [List.length_range]) hij
  rwa [List.getElem_range, List.getElem_range] at hlt

theorem lookedUp {data : Bytes} (h : read data = .ok t) :
    KernRecord.LookedUp (KernRecord.ofTable data) t.kerning := by
  have ht : t.Ample := (read_safely data).ok h
  have hmem : ∀ {r}, r ∈ KernRecord.ofTable data ↔ ∃ i < t.count, t.record i = r := by
    simp [ofTable_eq h]
  have hanswers : ∀ left right, ∃ v, t.kerning left right = .ok v ∧
      (v = 0 ∨ ⟨left, right, v⟩ ∈ KernRecord.ofTable data) := by
    intro left right
    obtain ⟨v, hv⟩ := (search_surely ht _ 0 t.count (Nat.le_refl _)).exists_ok
    refine ⟨v, hv, (ht.of_search (Nat.le_refl _) hv).imp_right fun ⟨i, hi, hkey, hamount⟩ => ?_⟩
    have hpair := KernRecord.pair_eq_of_key_eq (s := ⟨left, right, v⟩) hkey
    exact hmem.2 ⟨i, hi, KernRecord.ext hpair.1 hpair.2 hamount⟩
  refine ⟨hanswers, fun left right hnone => ?_, fun hs r hr => ?_⟩
  · obtain ⟨v, hv, rfl | hlisted⟩ := hanswers left right
    · exact hv
    · exact absurd hlisted (hnone v)
  · obtain ⟨i, hi, rfl⟩ := hmem.1 hr
    rw [ofTable_eq h] at hs
    exact ht.search_finds (ascending_of_pairwise hs) (Nat.zero_le _) hi (Nat.le_refl _)

end KernTable

namespace Font

/-- The font looks kerning up in the records of its kerning table, all of which are in the table. -/
theorem kerning_lookup {file : Bytes} {f : Font} (hf : parse file = .ok f) :
    ∃ t, Tables.read file = .ok t ∧
      (t.kern.isEmpty ∨ 18 + 6 * (KernRecord.ofTable t.kern).length ≤ t.kern.size) ∧
      KernRecord.LookedUp (KernRecord.ofTable t.kern) f.kerning := by
  obtain ⟨t, ht, -, hk⟩ := (parse_reads file).ok hf
  refine ⟨t, ht, ?_, KernTable.lookedUp hk⟩
  rw [KernTable.ofTable_eq hk, List.length_map, List.length_range]
  exact ((KernTable.read_header t.kern).ok hk).2.2

/-- A font with three pairs, the second of which has no kerning. -/
@[irreducible] def pairs : Bytes :=
  sample (List.replicate 3 ([], 0)) <|
    [0, 0, 0, 1, 0, 0, 0, 32, 0, 1, 0, 3, 0, 0, 0, 0, 0, 0] ++ [0, 1, 0, 2, 0xff, 0xf6] ++
    [0, 1, 0x80, 0, 0, 0] ++ [0x80, 0, 0, 1, 0, 7]

theorem kerning_lookup_pairs : ∃ f t, parse pairs = .ok f ∧ Tables.read pairs = .ok t ∧
    KernRecord.ofTable t.kern = [⟨1, 2, -10⟩, ⟨1, 0x8000, 0⟩, ⟨0x8000, 1, 7⟩] ∧
    (KernRecord.ofTable t.kern).Pairwise (·.key < ·.key) ∧
    KernRecord.LookedUp (KernRecord.ofTable t.kern) f.kerning := by
  have hparse : (parse pairs).toOption.any fun _ => true := by decide +kernel
  have hread : (Tables.read pairs).toOption.any fun t =>
      KernRecord.ofTable t.kern = [⟨1, 2, -10⟩, ⟨1, 0x8000, 0⟩, ⟨0x8000, 1, 7⟩] := by
    decide +kernel
  obtain ⟨f, hf, -⟩ := FontM.exists_of_any hparse
  obtain ⟨t, ht, -, hl⟩ := kerning_lookup hf
  obtain ⟨t', ht', hrecords⟩ := FontM.exists_of_any hread
  cases ht'.symm.trans ht
  have hrecords := of_decide_eq_true hrecords
  refine ⟨f, t, hf, ht, hrecords, ?_, hl⟩
  rw [hrecords]
  decide +kernel

end Font

end GridFit
