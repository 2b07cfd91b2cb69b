import GridFit.Bytes

/-!
# UTF-16

Big-endian UTF-16. Whatever is malformed becomes a replacement character.
-/

namespace GridFit.Utf16

def replacement : Char := '\uFFFD'

/-- Whether a unit is the first or the second half of a pair. -/
def isSurrogate (u : UInt16) : Bool := 0xd800 ≤ u && u ≤ 0xdfff

/-- Whether a unit is the second half of a pair. -/
def isTrail (u : UInt16) : Bool := 0xdc00 ≤ u && u ≤ 0xdfff

def ofUnit (u : UInt16) : Char := if isSurrogate u then replacement else Char.ofNat u.toNat

/-- The character of a pair of units, of which the second is a second half. -/
def ofPair (u v : UInt16) : Char :=
  if isTrail u then replacement
  else Char.ofNat (0x10000 + (u.toNat - 0xd800) * 0x400 + (v.toNat - 0xdc00))

/-- The characters of a byte string. A half of a pair that stands alone, two second halves in a row,
and a last odd byte are each replaced. -/
def decode : List UInt8 → List Char
  | [] => []
  | [_] => [replacement]
  | a :: b :: c :: d :: rest =>
    let u := Bytes.word a b
    let v := Bytes.word c d
    if isSurrogate u && isTrail v then ofPair u v :: decode rest
    else ofUnit u :: decode (c :: d :: rest)
  | a :: b :: rest => ofUnit (Bytes.word a b) :: decode rest

end GridFit.Utf16
