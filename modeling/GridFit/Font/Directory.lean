import GridFit.Font.Reader

/-!
# The table directory

A font file starts with a directory of its tables. Of tables with the same tag the last one counts,
and a missing table is empty.
-/

namespace GridFit

/-- The tables that are read. -/
inductive TableTag where
  | cmap
  | cvt
  | fpgm
  | glyf
  | head
  | hhea
  | hmtx
  | kern
  | loca
  | maxp
  | name
  | prep
deriving DecidableEq, Repr

def TableTag.ofText? : String → Option TableTag
  | "cmap" => some .cmap
  | "cvt " => some .cvt
  | "fpgm" => some .fpgm
  | "glyf" => some .glyf
  | "head" => some .head
  | "hhea" => some .hhea
  | "hmtx" => some .hmtx
  | "kern" => some .kern
  | "loca" => some .loca
  | "maxp" => some .maxp
  | "name" => some .name
  | "prep" => some .prep
  | _ => none

structure Tables where
  cmap : Bytes := #[]
  cvt : Bytes := #[]
  fpgm : Bytes := #[]
  glyf : Bytes := #[]
  head : Bytes := #[]
  hhea : Bytes := #[]
  hmtx : Bytes := #[]
  kern : Bytes := #[]
  loca : Bytes := #[]
  maxp : Bytes := #[]
  name : Bytes := #[]
  prep : Bytes := #[]
deriving DecidableEq, Repr, Inhabited

namespace Tables

def put (t : Tables) (data : Bytes) : TableTag → Tables
  | .cmap => { t with cmap := data }
  | .cvt => { t with cvt := data }
  | .fpgm => { t with fpgm := data }
  | .glyf => { t with glyf := data }
  | .head => { t with head := data }
  | .hhea => { t with hhea := data }
  | .hmtx => { t with hmtx := data }
  | .kern => { t with kern := data }
  | .loca => { t with loca := data }
  | .maxp => { t with maxp := data }
  | .name => { t with name := data }
  | .prep => { t with prep := data }

/-- The bytes that the directory entry at `x` stands for. -/
def readTable (file : Bytes) (x : Nat) : FontM Bytes := do
  let offset ← file.u32At (x + 8)
  let length ← file.u32At (x + 12)
  if file.size < offset.toNat + length.toNat then throw (.tableOutOfRange (offset + length))
  file.slice offset.toNat (offset.toNat + length.toNat)

def readTag (file : Bytes) (x : Nat) : FontM (Option TableTag) := do
  let tag ← file.slice x (x + 4)
  return TableTag.ofText? (String.ofList (tag.toList.map fun b => Char.ofNat b.toNat))

/-- Adds the table of the directory entry at `x`, if it is one of those that are read. -/
def addEntry (file : Bytes) (t : Tables) (x : Nat) : FontM Tables := do
  match ← readTag file x with
  | none => return t
  | some tag => return t.put (← readTable file x) tag

def read (file : Bytes) : FontM Tables := do
  if file.size < 12 then throw .fileTooShort
  if (← file.u32At 0) ≠ 0x00010000 then throw .badVersion
  let n := (← file.u16At 4).toNat
  if file.size < 16 * n + 12 then throw .fileTooShort
  (List.range n).foldlM (fun t i => addEntry file t (16 * i + 12)) {}

end Tables

end GridFit
