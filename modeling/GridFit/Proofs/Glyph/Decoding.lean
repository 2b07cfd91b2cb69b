import GridFit.Glyph.Record
import GridFit.Proofs.Font.Reading

/-!
# Decoding what was encoded

The points of a simple glyph can be encoded in many ways: flags are grouped in runs, and each
coordinate is written as a difference in one of three forms, which its flags announce. `Encoding`
lists them. Decoding recovers the points from every one of them, and an encoding that is cut short is
refused (`SimpleGlyph.decodePoints_encoding`). Nothing else decodes: where points are recovered, an
encoding of them stands in the data (`decodePoints_ok`).

Both halves follow the encoding from left to right. Where its next part stands in the data
(`Bytes.Holds`), it is read to its last byte and no further; where the data ends inside of that part
(`Bytes.EndsIn`), reading it fails.
-/

namespace GridFit

/-! ### Bytes at an offset -/

namespace Bytes

variable {d : Bytes} {offset : Nat} {b : UInt8} {l l' : List UInt8}

/-- The bytes `l` stand at `offset`. -/
def Holds (d : Bytes) (offset : Nat) (l : List UInt8) : Prop := l <+: d.toList.drop offset

/-- The data agrees with `l` from `offset` on, but ends before `l` does. -/
def EndsIn (d : Bytes) (offset : Nat) (l : List UInt8) : Prop :=
  d.toList.drop offset <+: l ∧ d.size - offset < l.length

/-- The two bytes of a word. -/
def ofWord (w : UInt16) : List UInt8 := [(w >>> 8).toUInt8, w.toUInt8]

@[simp] theorem length_ofWord (w : UInt16) : (ofWord w).length = 2 := rfl

theorem toNat_high (w : UInt16) : (w >>> 8).toUInt8.toNat = w.toNat / 256 := by
  have hw := w.toNat_lt
  simp [Nat.shiftRight_eq_div_pow]
  omega

theorem toNat_low (w : UInt16) : w.toUInt8.toNat = w.toNat % 256 := by simp

theorem word_ofWord (w : UInt16) : word (w >>> 8).toUInt8 w.toUInt8 = w := by
  rw [← UInt16.toNat_inj, toNat_word, toNat_high, toNat_low, Nat.div_add_mod]

theorem ofWord_word (hi lo : UInt8) : ofWord (word hi lo) = [hi, lo] := by
  have hlo := lo.toNat_lt
  have hhigh : (word hi lo >>> 8).toUInt8 = hi := by
    rw [← UInt8.toNat_inj, toNat_high, toNat_word]
    omega
  have hlow : (word hi lo).toUInt8 = lo := by
    rw [← UInt8.toNat_inj, toNat_low, toNat_word]
    omega
  rw [ofWord, hhigh, hlow]

namespace Holds

theorem nil (d : Bytes) (offset : Nat) : d.Holds offset [] := List.nil_prefix

theorem append (h : d.Holds offset l) (h' : d.Holds (offset + l.length) l') :
    d.Holds offset (l ++ l') := by
  obtain ⟨rest, hr⟩ := h
  rw [Holds, ← List.drop_drop, ← hr, List.drop_left] at h'
  rw [Holds, ← hr]
  exact (List.prefix_append_right_inj l).2 h'

theorem cons (hi : offset < d.size) (h : d.Holds (offset + 1) l) :
    d.Holds offset (d[offset] :: l) := by
  have hi' : offset < d.toList.length := by rwa [Array.length_toList]
  rw [Holds, List.drop_eq_getElem_cons hi']
  exact List.cons_prefix_cons.2 ⟨rfl, h⟩

theorem left (h : d.Holds offset (l ++ l')) : d.Holds offset l := (List.prefix_append l l').trans h

theorem right (h : d.Holds offset (l ++ l')) : d.Holds (offset + l.length) l' := by
  obtain ⟨rest, hr⟩ := h
  have hd := congrArg (List.drop l.length) hr
  rw [List.append_assoc, List.drop_left, List.drop_drop] at hd
  exact ⟨rest, hd⟩

theorem tail (h : d.Holds offset (b :: l)) : d.Holds (offset + 1) l := right (l := [b]) h

theorem head (h : d.Holds offset (b :: l)) : ∃ hi : offset < d.size, d[offset] = b := by
  have hi : offset < d.toList.length := by
    have hl := h.length_le
    rw [List.length_drop, List.length_cons] at hl
    omega
  rw [Holds, List.drop_eq_getElem_cons hi, List.cons_prefix_cons] at h
  exact ⟨hi, h.1.symm⟩

end Holds

namespace EndsIn

/-- Data that ends in a text of two parts ends in the first, or after it in the second. -/
theorem append (h : d.EndsIn offset (l ++ l')) :
    d.EndsIn offset l ∨ d.Holds offset l ∧ d.EndsIn (offset + l.length) l' := by
  have hlen : (d.toList.drop offset).length = d.size - offset := by
    rw [List.length_drop, Array.length_toList]
  by_cases hl : d.size - offset < l.length
  · refine .inl ⟨?_, hl⟩
    exact List.prefix_of_prefix_length_le h.1 (List.prefix_append l l') (by omega)
  · have hh : d.Holds offset l :=
      List.prefix_of_prefix_length_le (List.prefix_append l l') h.1 (by omega)
    obtain ⟨rest, hr⟩ := hh
    have hd := congrArg (List.drop l.length) hr
    rw [List.drop_left, List.drop_drop] at hd
    refine .inr ⟨⟨rest, hr⟩, ?_, ?_⟩
    · rw [← hd]
      have hp := h.1
      rw [← hr] at hp
      exact (List.prefix_append_right_inj l).1 hp
    · have hs := h.2
      rw [List.length_append] at hs
      omega

theorem cons (h : d.EndsIn offset (b :: l)) :
    d.size ≤ offset ∨ d.Holds offset [b] ∧ d.EndsIn (offset + 1) l := by
  rcases append (l := [b]) h with hb | hb
  · have hs := hb.2
    rw [List.length_singleton] at hs
    exact .inl (by omega)
  · exact .inr hb

theorem ne_nil (h : d.EndsIn offset l) : l ≠ [] := by
  rintro rfl
  exact Nat.not_lt_zero _ h.2

end EndsIn

end Bytes

namespace SimpleGlyph

variable {d : Bytes} {offset n : Nat}

/-! ### Flags -/

/-- `bytes` encode the flags of consecutive points. Flags that announce a run stand for one point
more than the count after them says. -/
inductive FlagsEncoded : (flags bytes : List UInt8) → Prop
  | nil : FlagsEncoded [] []
  | single {f : UInt8} {flags bytes : List UInt8} : ¬has f repeatBit → FlagsEncoded flags bytes →
      FlagsEncoded (f :: flags) (f :: bytes)
  | run {f : UInt8} (count : UInt8) {flags bytes : List UInt8} : has f repeatBit →
      FlagsEncoded flags bytes →
      FlagsEncoded (List.replicate (count.toNat + 1) f ++ flags) (f :: count :: bytes)

theorem length_run (f count : UInt8) (flags : List UInt8) :
    (List.replicate (count.toNat + 1) f ++ flags).length = count.toNat + flags.length + 1 := by
  rw [List.length_append, List.length_replicate]
  omega

theorem decodeFlags_single {f : UInt8} (n : Nat) (acc : Array UInt8) (h : d.Holds offset [f])
    (hf : ¬has f repeatBit) :
    decodeFlags d offset (n + 1) acc = decodeFlags d (offset + 1) n (acc.push f) := by
  obtain ⟨hi, he⟩ := h.head
  rw [decodeFlags, dif_pos hi]
  simp only [he, if_neg hf]

theorem decodeFlags_run {f count : UInt8} (n : Nat) (acc : Array UInt8) (h : d.Holds offset [f])
    (h' : d.Holds (offset + 1) [count]) (hf : has f repeatBit) :
    decodeFlags d offset (count.toNat + n + 1) acc =
      decodeFlags d (offset + 2) n (acc ++ Array.replicate (count.toNat + 1) f) := by
  obtain ⟨hi, he⟩ := h.head
  obtain ⟨hi', he'⟩ := h'.head
  have hn : ¬count.toNat + n < count.toNat := by omega
  rw [decodeFlags, dif_pos hi]
  simp only [he, if_pos hf, dif_pos hi', he', if_neg hn, Nat.add_sub_cancel_left]

/-- Reading encoded flags recovers them and ends just past their last byte. -/
theorem decodeFlags_encoded {flags bytes : List UInt8} (he : FlagsEncoded flags bytes)
    (acc : Array UInt8) (h : d.Holds offset bytes) :
    decodeFlags d offset flags.length acc = .ok (acc ++ flags.toArray, offset + bytes.length) := by
  induction he generalizing offset acc with
  | nil => simp [decodeFlags]
  | @single f flags bytes hf _ ih =>
    rw [List.length_cons, decodeFlags_single _ acc (h.left (l := [f])) hf, ih _ h.tail]
    simp [Nat.add_comm, Nat.add_left_comm]
  | @run f count flags bytes hf _ ih =>
    have hf' : d.Holds offset [f] := h.left (l := [f])
    have hc : d.Holds (offset + 1) [count] := h.tail.left (l := [count])
    rw [length_run, decodeFlags_run _ acc hf' hc hf, ih _ h.tail.tail]
    simp [Nat.add_assoc, Nat.add_comm 2, ← List.toArray_replicate]

theorem decodeFlags_cut {flags bytes : List UInt8} (he : FlagsEncoded flags bytes)
    (acc : Array UInt8) (h : d.EndsIn offset bytes) :
    decodeFlags d offset flags.length acc = .error .flagsTooShort := by
  induction he generalizing offset acc with
  | nil => exact absurd rfl h.ne_nil
  | @single f flags bytes hf _ ih =>
    rw [List.length_cons]
    rcases h.cons with hs | ⟨hh, h'⟩
    · rw [decodeFlags, dif_neg (Nat.not_lt.2 hs)]
    · rw [decodeFlags_single _ acc hh hf, ih _ h']
  | @run f count flags bytes hf _ ih =>
    rw [length_run]
    rcases h.cons with hs | ⟨hh, h'⟩
    · rw [decodeFlags, dif_neg (Nat.not_lt.2 hs)]
    rcases h'.cons with hs | ⟨hh', h''⟩
    · -- The data ends between the flags and their count.
      obtain ⟨hi, hb⟩ := hh.head
      rw [decodeFlags, dif_pos hi]
      simp only [hb, if_pos hf, dif_neg (Nat.not_lt.2 hs)]
    · rw [decodeFlags_run _ acc hh hh' hf, ih _ h'']

/-- Flags that have been read are encoded there. -/
theorem exists_flagsEncoded {acc : Array UInt8} {r : Array UInt8 × Nat}
    (h : decodeFlags d offset n acc = .ok r) : ∃ flags bytes, FlagsEncoded flags bytes ∧
      d.Holds offset bytes ∧ flags.length = n ∧
      r = (acc ++ flags.toArray, offset + bytes.length) := by
  fun_induction decodeFlags d offset n acc with
  | case1 offset acc =>
    cases h
    exact ⟨[], [], .nil, .nil d offset, rfl, by simp⟩
  | case2 => cases h
  | case3 offset acc n hi c hc hi' count hle ih =>
    obtain ⟨flags, bytes, he, hholds, hlength, rfl⟩ := ih h
    refine ⟨_, _, .run d[offset + 1] hc he, .cons hi (.cons hi' hholds), ?_, ?_⟩
    · rw [length_run, hlength]
      omega
    · simp [count, Nat.add_assoc, Nat.add_comm 2, ← List.toArray_replicate]
  | case4 => cases h
  | case5 offset acc n hi c hc ih =>
    obtain ⟨flags, bytes, he, hholds, rfl, rfl⟩ := ih h
    refine ⟨_, _, .single hc he, .cons hi hholds, rfl, ?_⟩
    simp [c, Nat.add_comm, Nat.add_left_comm]
  | case6 => cases h

/-! ### Coordinates -/

/-- `bytes` encode the coordinate `w` of a point with flags `f`, where the point before has `v`. The
difference is taken modulo 2^16. It stands there as a word, as a byte with its sign in the flags, or
not at all if it is zero. -/
inductive CoordEncoded (bits : AxisBits) (f : UInt8) (v w : Int16) : (bytes : List UInt8) → Prop
  | word : ¬has f bits.short → ¬has f bits.same →
      CoordEncoded bits f v w (Bytes.ofWord (w - v).toUInt16)
  | positive {m : UInt8} : has f bits.short → has f bits.same → (w - v).toInt = m.toNat →
      CoordEncoded bits f v w [m]
  | negative {m : UInt8} : has f bits.short → ¬has f bits.same → (w - v).toInt = -m.toNat →
      CoordEncoded bits f v w [m]
  | same : ¬has f bits.short → has f bits.same → w = v → CoordEncoded bits f v w []

/-- `bytes` encode the coordinates of consecutive points with the given flags, after a point with
`v`. -/
inductive CoordsEncoded (bits : AxisBits) : (v : Int16) → (flags : List UInt8) →
    (coords : List Int16) → (bytes : List UInt8) → Prop
  | nil (v : Int16) : CoordsEncoded bits v [] [] []
  | cons {f : UInt8} {v w : Int16} {flags part bytes : List UInt8} {coords : List Int16} :
      CoordEncoded bits f v w part → CoordsEncoded bits w flags coords bytes →
      CoordsEncoded bits v (f :: flags) (w :: coords) (part ++ bytes)

variable {bits : AxisBits} {f : UInt8} {v w : Int16} {part : List UInt8}

theorem toInt_ofByte (m : UInt8) : (Int16.ofNat m.toNat).toInt = m.toNat := by
  have hm := m.toNat_lt
  exact Int16.toInt_ofNat_of_lt (by omega)

theorem toInt_neg_ofByte (m : UInt8) : (-Int16.ofNat m.toNat).toInt = -m.toNat := by
  have hm := m.toNat_lt
  rw [Int16.toInt_neg, toInt_ofByte]
  exact Int.bmod_eq_of_le (by omega) (by omega)

theorem add_difference (v w : Int16) : v + (w - v) = w := by
  rw [Int16.add_comm, Int16.sub_add_cancel]

theorem add_magnitude {m : UInt8} (h : (w - v).toInt = m.toNat) : v + Int16.ofNat m.toNat = w := by
  have hd : Int16.ofNat m.toNat = w - v := by
    rw [← Int16.toInt_inj, toInt_ofByte, h]
  rw [hd, add_difference]

theorem sub_magnitude {m : UInt8} (h : (w - v).toInt = -m.toNat) : v - Int16.ofNat m.toNat = w := by
  have hd : -Int16.ofNat m.toNat = w - v := by
    rw [← Int16.toInt_inj, toInt_neg_ofByte, h]
  rw [Int16.sub_eq_add_neg, hd, add_difference]

/-- A coordinate is read to its last byte. -/
theorem decodeCoords_one (he : CoordEncoded bits f v w part) (acc : Array Int16) (flags : List UInt8)
    (h : d.Holds offset part) :
    decodeCoords bits d offset v acc (f :: flags) =
      decodeCoords bits d (offset + part.length) w (acc.push w) flags := by
  show (if has f bits.short then _ else if has f bits.same then _ else _) = _
  cases he with
  | word hshort hsame =>
    obtain ⟨hi, hb⟩ := h.head
    obtain ⟨hi', hb'⟩ := h.tail.head
    rw [if_neg hshort, if_neg hsame, dif_pos hi']
    simp only [hb, hb', Bytes.word_ofWord, Int16.toInt16_toUInt16, add_difference]
    rfl
  | @positive m hshort hsame hd =>
    obtain ⟨hi, hb⟩ := h.head
    rw [if_pos hshort, dif_pos hi]
    simp only [hb, if_pos hsame, add_magnitude hd, List.length_singleton]
  | @negative m hshort hsame hd =>
    obtain ⟨hi, hb⟩ := h.head
    rw [if_pos hshort, dif_pos hi]
    simp only [hb, if_neg hsame, sub_magnitude hd, List.length_singleton]
  | same hshort hsame hd =>
    rw [if_neg hshort, if_pos hsame, hd, List.length_nil, Nat.add_zero]

theorem decodeCoords_one_cut (he : CoordEncoded bits f v w part) (acc : Array Int16)
    (flags : List UInt8) (h : d.EndsIn offset part) :
    decodeCoords bits d offset v acc (f :: flags) = .error .coordinatesTooShort := by
  have hs := h.2
  show (if has f bits.short then _ else if has f bits.same then _ else _) = _
  cases he with
  | word hshort hsame =>
    rw [Bytes.length_ofWord] at hs
    rw [if_neg hshort, if_neg hsame, dif_neg (by omega)]
  | positive hshort =>
    rw [List.length_singleton] at hs
    rw [if_pos hshort, dif_neg (by omega)]
  | negative hshort =>
    rw [List.length_singleton] at hs
    rw [if_pos hshort, dif_neg (by omega)]
  | same => exact absurd rfl h.ne_nil

/-- Reading encoded coordinates recovers them and ends just past their last byte. -/
theorem decodeCoords_encoded {flags bytes : List UInt8} {coords : List Int16}
    (he : CoordsEncoded bits v flags coords bytes) (acc : Array Int16) (h : d.Holds offset bytes) :
    decodeCoords bits d offset v acc flags = .ok (acc ++ coords.toArray, offset + bytes.length) := by
  induction he generalizing offset acc with
  | nil v =>
    show Except.ok (acc, offset) = _
    simp
  | cons hf _ ih =>
    rw [decodeCoords_one hf acc _ h.left, ih _ h.right]
    simp [Nat.add_assoc]

theorem decodeCoords_cut {flags bytes : List UInt8} {coords : List Int16}
    (he : CoordsEncoded bits v flags coords bytes) (acc : Array Int16) (h : d.EndsIn offset bytes) :
    decodeCoords bits d offset v acc flags = .error .coordinatesTooShort := by
  induction he generalizing offset acc with
  | nil v => exact absurd rfl h.ne_nil
  | cons hf _ ih =>
    rcases h.append with hcut | ⟨hh, h'⟩
    · exact decodeCoords_one_cut hf acc _ hcut
    · rw [decodeCoords_one hf acc _ hh, ih _ h']

/-- A coordinate that has been read is encoded there. -/
theorem exists_coordEncoded {acc : Array Int16} {flags : List UInt8} {r : Array Int16 × Nat}
    (h : decodeCoords bits d offset v acc (f :: flags) = .ok r) :
    ∃ w part, CoordEncoded bits f v w part ∧ d.Holds offset part ∧
      decodeCoords bits d (offset + part.length) w (acc.push w) flags = .ok r := by
  change (if has f bits.short then _ else if has f bits.same then _ else _) = _ at h
  by_cases hshort : has f bits.short
  · rw [if_pos hshort] at h
    split at h
    · rename_i hi
      dsimp only at h
      have hholds : d.Holds offset [d[offset]] := .cons hi (.nil d _)
      by_cases hsame : has f bits.same
      · rw [if_pos hsame] at h
        refine ⟨_, _, .positive hshort hsame ?_, hholds, h⟩
        rw [Int16.add_comm, Int16.add_sub_cancel, toInt_ofByte]
      · rw [if_neg hsame] at h
        refine ⟨_, _, .negative hshort hsame ?_, hholds, h⟩
        rw [Int16.sub_eq_add_neg v, Int16.add_comm, Int16.add_sub_cancel, toInt_neg_ofByte]
    · cases h
  rw [if_neg hshort] at h
  by_cases hsame : has f bits.same
  · rw [if_pos hsame] at h
    exact ⟨v, [], .same hshort hsame rfl, .nil d offset, h⟩
  rw [if_neg hsame] at h
  split at h
  · rename_i hi
    have hholds : d.Holds offset [d[offset], d[offset + 1]] :=
      .cons (Nat.lt_of_succ_lt hi) (.cons hi (.nil d _))
    refine ⟨_, _, .word hshort hsame, ?_, h⟩
    rw [Int16.add_comm, Int16.add_sub_cancel, UInt16.toUInt16_toInt16, Bytes.ofWord_word]
    exact hholds
  · cases h

/-- Coordinates that have been read are encoded there. -/
theorem exists_coordsEncoded {acc : Array Int16} {flags : List UInt8}
    {r : Array Int16 × Nat} (h : decodeCoords bits d offset v acc flags = .ok r) :
    ∃ coords bytes, CoordsEncoded bits v flags coords bytes ∧ d.Holds offset bytes ∧
      r = (acc ++ coords.toArray, offset + bytes.length) := by
  induction flags generalizing offset v acc with
  | nil =>
    cases h
    exact ⟨[], [], .nil v, .nil d offset, by simp⟩
  | cons f flags ih =>
    obtain ⟨w, part, hw, hpart, h⟩ := exists_coordEncoded h
    obtain ⟨coords, bytes, he, hholds, rfl⟩ := ih h
    refine ⟨w :: coords, part ++ bytes, .cons hw he, hpart.append hholds, ?_⟩
    simp [Nat.add_assoc]

theorem CoordsEncoded.length_eq {flags bytes : List UInt8} {coords : List Int16}
    (h : CoordsEncoded bits v flags coords bytes) : coords.length = flags.length := by
  induction h with
  | nil => rfl
  | cons _ _ ih => rw [List.length_cons, List.length_cons, ih]

/-! ### Points -/

/-- A point as it is encoded. -/
structure RawPoint where
  x : Int16
  y : Int16
  flags : UInt8

def RawPoint.toPoint (p : RawPoint) : GlyphPoint where
  x := p.x.toInt32
  y := p.y.toInt32
  flags := p.flags

/-- An encoding of points: their flags, their x coordinates and their y coordinates. -/
structure Encoding (points : List RawPoint) where
  flagBytes : List UInt8
  xBytes : List UInt8
  yBytes : List UInt8
  flags : FlagsEncoded (points.map (·.flags)) flagBytes
  xs : CoordsEncoded (axisBits .x) 0 (points.map (·.flags)) (points.map (·.x)) xBytes
  ys : CoordsEncoded (axisBits .y) 0 (points.map (·.flags)) (points.map (·.y)) yBytes

namespace Encoding

variable {points : List RawPoint}

def bytes (e : Encoding points) : List UInt8 := e.flagBytes ++ (e.xBytes ++ e.yBytes)

end Encoding

theorem elementAt_map {α β : Type} (k : α → β) {l : List α} {i : Nat} (hi : i < l.length) :
    FontM.elementAt (l.map k).toArray i = .ok (k l[i]) := by
  rw [FontM.elementAt, dif_pos (by simpa using hi)]
  simp

variable {points : List RawPoint}

theorem decodePoints_holds (e : Encoding points) (h : d.Holds offset e.bytes) :
    decodePoints d offset points.length = .ok (points.map RawPoint.toPoint).toArray := by
  have hf := decodeFlags_encoded e.flags #[] h.left
  have hx := decodeCoords_encoded e.xs #[] h.right.left
  have hy := decodeCoords_encoded e.ys #[] h.right.right
  rw [List.length_map] at hf
  rw [decodePoints]
  simp only [hf, hx, hy, bind, Except.bind, Array.empty_append]
  rw [FontM.mapM_of_ok (k := fun i => (points[i]?.map RawPoint.toPoint).getD default)]
  · refine congrArg (fun l => Except.ok (List.toArray l)) ?_
    refine List.ext_getElem (by simp) fun i hi hi' => ?_
    rw [List.length_map] at hi'
    simp [hi']
  · intro i hi
    have hi : i < points.length := List.mem_range.1 hi
    rw [elementAt_map _ hi, elementAt_map _ hi, elementAt_map _ hi, List.getElem?_eq_getElem hi]
    rfl

theorem exists_rawPoints {us vs : List Int16} {fs : List UInt8} (hu : us.length = fs.length)
    (hv : vs.length = fs.length) : ∃ raw : List RawPoint,
      raw.map (·.x) = us ∧ raw.map (·.y) = vs ∧ raw.map (·.flags) = fs := by
  induction fs generalizing us vs with
  | nil => exact ⟨[], (List.length_eq_zero_iff.1 hu).symm, (List.length_eq_zero_iff.1 hv).symm, rfl⟩
  | cons f fs ih =>
    obtain ⟨u, us, rfl⟩ := List.exists_cons_of_length_eq_add_one hu
    obtain ⟨v, vs, rfl⟩ := List.exists_cons_of_length_eq_add_one hv
    obtain ⟨raw, rfl, rfl, rfl⟩ := ih (Nat.succ.inj hu) (Nat.succ.inj hv)
    exact ⟨⟨u, v, f⟩ :: raw, rfl, rfl, rfl⟩

/-- Points that have been read are encoded there, and they are those that the encoding stands for. -/
theorem decodePoints_ok {points : Array GlyphPoint} :
    decodePoints d offset n = .ok points ↔ ∃ (raw : List RawPoint) (e : Encoding raw),
      raw.length = n ∧ d.Holds offset e.bytes ∧ points.toList = raw.map RawPoint.toPoint := by
  constructor
  · intro h
    obtain ⟨_, hflags, h₁⟩ := FontM.exists_of_bind_ok h
    obtain ⟨flags, flagBytes, hf, hfirst, hn, rfl⟩ := exists_flagsEncoded hflags
    obtain ⟨_, hxs, h₂⟩ := FontM.exists_of_bind_ok h₁
    obtain ⟨xs, xBytes, hx, hsecond, rfl⟩ := exists_coordsEncoded hxs
    obtain ⟨_, hys, -⟩ := FontM.exists_of_bind_ok h₂
    obtain ⟨ys, yBytes, hy, hthird, -⟩ := exists_coordsEncoded hys
    rw [Array.empty_append] at hx hy
    obtain ⟨raw, rfl, rfl, rfl⟩ := exists_rawPoints hx.length_eq hy.length_eq
    let e : Encoding raw := ⟨flagBytes, xBytes, yBytes, hf, hx, hy⟩
    have he : d.Holds offset e.bytes := hfirst.append (hsecond.append hthird)
    rw [List.length_map] at hn
    subst hn
    rw [decodePoints_holds e he] at h
    cases h
    exact ⟨raw, e, rfl, he, rfl⟩
  · rintro ⟨raw, e, rfl, hholds, hpoints⟩
    rw [decodePoints_holds e hholds, ← hpoints]

theorem decodePoints_endsIn (e : Encoding points) (h : d.EndsIn offset e.bytes) :
    decodePoints d offset points.length = .error .flagsTooShort ∨
      decodePoints d offset points.length = .error .coordinatesTooShort := by
  rw [decodePoints]
  rcases h.append with hcut | ⟨hh, h⟩
  · have hf := decodeFlags_cut e.flags #[] hcut
    rw [List.length_map] at hf
    exact .inl (by simp only [hf, bind, Except.bind])
  have hf := decodeFlags_encoded e.flags #[] hh
  rw [List.length_map] at hf
  rcases h.append with hcut | ⟨hh, h⟩
  · have hx := decodeCoords_cut e.xs #[] hcut
    exact .inr (by simp only [hf, hx, bind, Except.bind, Array.empty_append])
  · have hx := decodeCoords_encoded e.xs #[] hh
    have hy := decodeCoords_cut e.ys #[] h
    exact .inr (by simp only [hf, hx, hy, bind, Except.bind, Array.empty_append])

/-- Decoding recovers the points from every encoding of them, wherever it stands, and the flags end
where the coordinates start. An encoding without its last bytes is no valid glyph. -/
theorem decodePoints_encoding (e : Encoding points) (before after : List UInt8) :
    decodeFlags (before ++ e.bytes ++ after).toArray before.length points.length #[] =
        .ok ((points.map (·.flags)).toArray, before.length + e.flagBytes.length) ∧
      decodePoints (before ++ e.bytes ++ after).toArray before.length points.length =
        .ok (points.map RawPoint.toPoint).toArray ∧
      ∀ cut, cut <+: e.bytes → cut ≠ e.bytes →
        ∃ err, decodePoints (before ++ cut).toArray before.length points.length = .error err ∧
          err.kind = .format := by
  have hh : Bytes.Holds (before ++ e.bytes ++ after).toArray before.length e.bytes := by
    rw [Bytes.Holds, List.append_assoc, List.drop_left]
    exact List.prefix_append e.bytes after
  refine ⟨?_, decodePoints_holds e hh, fun cut hp hne => ?_⟩
  · have hf := decodeFlags_encoded e.flags #[] hh.left
    rwa [List.length_map, Array.empty_append] at hf
  · have hlt : cut.length < e.bytes.length := by
      have hle := hp.length_le
      have hl : cut.length ≠ e.bytes.length := fun hl => hne (hp.eq_of_length hl)
      omega
    have hcut : Bytes.EndsIn (before ++ cut).toArray before.length e.bytes := by
      refine ⟨by rwa [List.drop_left], ?_⟩
      rw [List.size_toArray, List.length_append]
      omega
    rcases decodePoints_endsIn e hcut with h | h
    · exact ⟨_, h, rfl⟩
    · exact ⟨_, h, rfl⟩

/-- Three points. The first two share their flags, which announce short positive steps along x and
none along y. The third goes back by a word and down by a byte. -/
def wedge : Encoding [⟨5, 0, 0x3b⟩, ⟨255, 0, 0x3b⟩, ⟨-45, -7, 0x04⟩] where
  flagBytes := [0x3b, 1, 0x04]
  xBytes := [5, 250, 0xfe, 0xd4]
  yBytes := [7]
  flags := .run 1 (by decide) (.single (by decide) .nil)
  xs := .cons (.positive (m := 5) (by decide) (by decide) (by decide)) <|
    .cons (.positive (m := 250) (by decide) (by decide) (by decide)) <|
      .cons (.word (by decide) (by decide)) (.nil (-45))
  ys := .cons (.same (by decide) (by decide) rfl) <|
    .cons (.same (by decide) (by decide) rfl) <|
      .cons (.negative (by decide) (by decide) (by decide)) (.nil (-7))

theorem decodePoints_wedge :
    decodePoints ([9] ++ wedge.bytes ++ [8]).toArray 1 3 =
        .ok #[⟨5, 0, 0x3b⟩, ⟨255, 0, 0x3b⟩, ⟨-45, -7, 0x04⟩] ∧
      [0x3b, 1, 0x04, 5, 250, 0xfe] <+: wedge.bytes ∧ [0x3b, 1, 0x04, 5, 250, 0xfe] ≠ wedge.bytes ∧
      ∃ err, decodePoints #[9, 0x3b, 1, 0x04, 5, 250, 0xfe] 1 3 = .error err ∧ err.kind = .format := by
  have h := decodePoints_encoding wedge [9] [8]
  exact ⟨h.2.1, by decide, by decide, h.2.2 _ (by decide) (by decide)⟩

end SimpleGlyph

end GridFit
