import GridFit.Font.Reader

/-!
# Kerning

A kerning table lists pairs of glyphs, in ascending order, with the amount by which to move the
second.
-/

namespace GridFit

/-- A kerning table with `count` records from offset 18 on. -/
structure KernTable where
  data : Bytes := #[]
  count : Nat := 0
deriving DecidableEq, Repr, Inhabited

namespace KernTable

/-- Checks the header of a table. An empty table has no records. -/
def read (data : Bytes) : FontM KernTable := do
  if data.isEmpty then return {}
  if data.size < 18 then throw .kernTooShort
  let version := (← data.u16At 0).toNat
  if version ≠ 0 then throw (.kernVersion version)
  let tables := (← data.u16At 2).toNat
  if tables ≠ 1 then throw (.kernTables tables)
  let length := (← data.u16At 6).toNat
  let coverage ← data.u16At 8
  if coverage ≠ 0x0001 then throw (.kernCoverage coverage)
  let count := (← data.u16At 10).toNat
  if 6 * count + 14 ≠ length ∨ data.size < 18 + 6 * count then throw .kernLength
  return { data, count }

def key (t : KernTable) (i : Nat) : FontM UInt32 := t.data.u32At (18 + 6 * i)

def amount (t : KernTable) (i : Nat) : FontM Int32 := t.data.i16At (18 + 6 * i + 4)

/-- Looks for a pair among the records from `lo` to just before `hi`. -/
def search (t : KernTable) (pair : UInt32) (lo hi : Nat) : FontM Int32 :=
  if _h : lo < hi then
    let i := (lo + hi) / 2
    match t.key i with
    | .error e => .error e
    | .ok k =>
      if k < pair then search t pair (i + 1) hi
      else if pair < k then search t pair lo i
      else t.amount i
  else .ok 0
termination_by hi - lo

/-- The kerning of two glyphs, or 0 if the table does not list them. -/
def kerning (t : KernTable) (left right : UInt16) : FontM Int32 :=
  t.search (left.toUInt32 <<< 16 ||| right.toUInt32) 0 t.count

end KernTable

end GridFit
