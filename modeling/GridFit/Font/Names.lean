import GridFit.Font.Reader
import GridFit.Text.MacRoman
import GridFit.Text.Utf16

/-!
# Names

The name table holds names of the font in several encodings and languages. Of the records for a name
the most preferred one that can be decoded is taken.
-/

namespace GridFit

/-- How texts are decoded. Whatever is malformed is replaced, so there always is a text. -/
structure TextDecoder where
  utf16 : List UInt8 → List Char
  macRoman : List UInt8 → List Char

def TextDecoder.standard : TextDecoder where
  utf16 := Utf16.decode
  macRoman := MacRoman.decode

/-- A record of the name table. `offset` counts from the start of the table. -/
structure NameRecord where
  platform : UInt16
  encoding : UInt16
  language : UInt16
  id : UInt16
  length : Nat
  offset : Nat
deriving DecidableEq, Repr, Inhabited

namespace NameRecord

def fullName : UInt16 := 4

/-- How much a record is preferred: Windows in American English, other Windows, Unicode, Macintosh
Roman. A record that cannot be decoded ranks 0. -/
def rank (r : NameRecord) : Nat :=
  if r.platform = 3 then
    if r.encoding = 1 ∨ r.encoding = 10 then (if r.language = 0x0409 then 4 else 3) else 0
  else if r.platform = 0 then 2
  else if r.platform = 1 then (if r.encoding = 0 then 1 else 0)
  else 0

/-- The record at `x`, in a table whose texts start at `storage`. -/
def read (table : Bytes) (storage x : Nat) : FontM NameRecord := do
  return {
    platform := ← table.u16At x
    encoding := ← table.u16At (x + 2)
    language := ← table.u16At (x + 4)
    id := ← table.u16At (x + 6)
    length := (← table.u16At (x + 8)).toNat
    offset := storage + (← table.u16At (x + 10)).toNat }

/-- The characters of a record, given its bytes. -/
def decode (r : NameRecord) (decoder : TextDecoder) (data : List UInt8) : List Char :=
  if r.platform = 1 then decoder.macRoman data else decoder.utf16 data

end NameRecord

namespace Names

/-- The better of a record found before and `r`, for the name `id`. The earlier one wins a tie. -/
def better (id : UInt16) (best : Option NameRecord) (r : NameRecord) : Option NameRecord :=
  if r.id = id ∧ r.rank ≠ 0 ∧ best.all (·.rank < r.rank) then some r else best

/-- The name with a number. It is empty if the table does not have it. -/
def find (decoder : TextDecoder) (table : Bytes) (id : UInt16) : FontM String := do
  if table.isEmpty then return ""
  if table.size < 6 then throw .nameTooShort
  let count := (← table.u16At 2).toNat
  let storage := (← table.u16At 4).toNat
  if table.size < 6 + 12 * count then throw .nameTooShort
  let records ← (List.range count).mapM fun i => NameRecord.read table storage (6 + 12 * i)
  match records.foldl (better id) none with
  | none => return ""
  | some r =>
    if table.size < r.offset + r.length then throw (.nameOffset r.offset)
    let data ← table.slice r.offset (r.offset + r.length)
    return String.ofList (r.decode decoder data.toList)

end Names

end GridFit
