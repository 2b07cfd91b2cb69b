/-!
# Tables of words

The control values and the storage area are tables of words. A table either owns its cells, or lies
over base values that it must not change: then reads fall through to the base until a cell is
written, and a bitmap keeps which cells were.
-/

namespace GridFit

def bitmapWords (n : Nat) : Nat := (n + 63) / 64

namespace Bitmap

def mask (i : Nat) : UInt64 := 1 <<< (i % 64).toUInt64

def get (bits : Array UInt64) (i : Nat) (h : i / 64 < bits.size) : Bool :=
  bits[i / 64] &&& mask i != 0

/-- The bit at `i`, where a bitmap that is too short counts as cleared. -/
def test (bits : Array UInt64) (i : Nat) : Bool :=
  if h : i / 64 < bits.size then get bits i h else false

def set (bits : Array UInt64) (i : Nat) (h : i / 64 < bits.size) : Array UInt64 :=
  bits.set (i / 64) (bits[i / 64] ||| mask i)

def clear (bits : Array UInt64) : Array UInt64 := bits.map fun _ => 0

@[simp] theorem size_set (bits : Array UInt64) (i : Nat) (h : i / 64 < bits.size) :
    (set bits i h).size = bits.size := by
  simp [set]

@[simp] theorem size_clear (bits : Array UInt64) : (clear bits).size = bits.size := by
  simp [clear]

end Bitmap

/-- Cells that lie over base values. The cells may be longer than the base; those past its end are
never used. -/
structure Overlay where
  base : Array Int32
  cells : Array Int32
  written : Array UInt64
  base_le : base.size ≤ cells.size
  words_le : bitmapWords base.size ≤ written.size

namespace Overlay

/-- An overlay of `base` in which nothing is written yet, whatever the buffers hold. -/
def fresh (base cells : Array Int32) (written : Array UInt64) (hc : base.size ≤ cells.size)
    (hw : bitmapWords base.size ≤ written.size) : Overlay where
  base := base
  cells := cells
  written := Bitmap.clear written
  base_le := hc
  words_le := by simpa using hw

theorem word_lt {n i : Nat} {written : Array UInt64} (hw : bitmapWords n ≤ written.size)
    (h : i < n) : i / 64 < written.size := by
  unfold bitmapWords at hw
  omega

def get (o : Overlay) (i : Nat) (h : i < o.base.size) : Int32 :=
  have := o.base_le
  if Bitmap.get o.written i (word_lt o.words_le h) then o.cells[i] else o.base[i]

def set (o : Overlay) (i : Nat) (v : Int32) (h : i < o.base.size) : Overlay :=
  match o, h with
  | ⟨base, cells, written, hc, hw⟩, h =>
    ⟨base, cells.set i v (Nat.lt_of_lt_of_le h hc), Bitmap.set written i (word_lt hw h),
      by simpa using hc, by simpa using hw⟩

end Overlay

inductive Table where
  | owned (cells : Array Int32)
  | overlay (o : Overlay)

namespace Table

instance : Inhabited Table := ⟨.owned #[]⟩

def size : Table → Nat
  | .owned cells => cells.size
  | .overlay o => o.base.size

def contains (t : Table) (i : Int) : Bool := 0 ≤ i ∧ i < t.size

def get? (t : Table) (i : Int) : Option Int32 :=
  if 0 ≤ i then
    match t with
    | .owned cells => cells[i.toNat]?
    | .overlay o => if h : i.toNat < o.base.size then some (o.get i.toNat h) else none
  else none

/-- Writes `v` at `i`. An index outside the table changes nothing. -/
def set (t : Table) (i : Int) (v : Int32) : Table :=
  if h : 0 ≤ i ∧ i.toNat < t.size then
    match t, h with
    | .owned cells, h => .owned (cells.set i.toNat v h.2)
    | .overlay o, h => .overlay (o.set i.toNat v h.2)
  else t

def toList (t : Table) : List Int32 :=
  (List.range t.size).map fun (i : Nat) => (t.get? i).getD 0

def cells : Table → Array Int32
  | .owned cells => cells
  | .overlay o => o.cells

/-- The bitmap of written cells. A table that owns its cells keeps none. -/
def written : Table → Array UInt64
  | .owned _ => #[]
  | .overlay o => o.written

end Table

end GridFit
