import GridFit.Text.Hexadecimal

/-!
# Errors in fonts

Why a font, or a glyph of it, cannot be read. An error says either that the bytes are no valid font,
or that they use a feature that is not supported.
-/

namespace GridFit

/-- Why a font cannot be read. `breach` stands for an access outside a table that no check
guards. -/
inductive FontError where
  | fileTooShort
  | badVersion
  | tableOutOfRange (sum : UInt32)
  | headLength (n : Nat)
  | zeroUnitsPerEm
  | locaFormat (n : Nat)
  | maxpLength (n : Nat)
  | maxpVersion (v : UInt32)
  | locaLength (n : Nat)
  | cmapTooShort
  | cmapEncoding
  | cmapOffset
  | cmapFormat (n : Nat)
  | cmapLanguage (n : Nat)
  | cmapSegments (n : Nat)
  | kernTooShort
  | kernVersion (n : Nat)
  | kernTables (n : Nat)
  | kernCoverage (n : UInt16)
  | kernLength
  | hheaLength (n : Nat)
  | hmetricCount (n : Nat)
  | hmtxLength (n : Nat)
  | cvtLength (n : Nat)
  | nameTooShort
  | nameOffset (n : Nat)
  | glyphIndex (n : Nat)
  | locaEntry (n : Nat)
  | glyphTooShort
  | negativeContours
  | contourOrder
  | instructionsTooLong
  | flagsTooShort
  | flagRepeat
  | coordinatesTooShort
  | compoundTooShort
  | compoundVector
  | compoundTransform
  | compoundInstructions
  | compoundDepth
  | breach
deriving DecidableEq, Repr

/-- The two kinds of errors. -/
inductive FontErrorKind where
  | format
  | unsupported
deriving DecidableEq, Repr

namespace FontError

/-- The kind of an error. -/
def kind : FontError → FontErrorKind
  | .cmapEncoding => .unsupported
  | .cmapFormat _ => .unsupported
  | .cmapLanguage _ => .unsupported
  | .kernVersion _ => .unsupported
  | .kernTables _ => .unsupported
  | .kernCoverage _ => .unsupported
  | .negativeContours => .unsupported
  | .compoundVector => .unsupported
  | .compoundTransform => .unsupported
  | .compoundDepth => .unsupported
  | _ => .format

def text : FontError → String
  | .fileTooShort => "TTF data is too short"
  | .badVersion => "bad version"
  | .tableOutOfRange sum => s!"offset + length too large: {sum.toNat}"
  | .headLength n => s!"bad head length: {n}"
  | .zeroUnitsPerEm => "bad unitsPerEm: 0"
  | .locaFormat n => s!"bad indexToLocFormat: {n}"
  | .maxpLength n => s!"bad maxp length: {n}"
  | .maxpVersion v => "bad maxp version: 0x" ++ Hexadecimal.text 8 v.toNat
  | .locaLength n => s!"bad loca length: {n}"
  | .cmapTooShort => "cmap too short"
  | .cmapEncoding => "cmap encoding"
  | .cmapOffset => "bad cmap offset"
  | .cmapFormat n => s!"cmap format: {n}"
  | .cmapLanguage n => s!"language: {n}"
  | .cmapSegments n => s!"bad segCountX2: {n}"
  | .kernTooShort => "kern data too short"
  | .kernVersion n => s!"kern version: {n}"
  | .kernTables n => s!"kern nTables: {n}"
  | .kernCoverage n => "kern coverage: 0x" ++ Hexadecimal.text 4 n.toNat
  | .kernLength => "bad kern table length"
  | .hheaLength n => s!"bad hhea length: {n}"
  | .hmetricCount n => s!"bad number of hmetrics: {n}"
  | .hmtxLength n => s!"bad hmtx length: {n}"
  | .cvtLength n => s!"bad cvt length: {n}"
  | .nameTooShort => "name too short"
  | .nameOffset n => s!"bad name record offset: {n}"
  | .glyphIndex n => s!"glyph index out of range: {n}"
  | .locaEntry n => s!"bad loca entry for glyph {n}"
  | .glyphTooShort => "glyph too short"
  | .negativeContours => "negative number of contours"
  | .contourOrder => "glyph contour end points out of order"
  | .instructionsTooLong => "glyph instructions too long"
  | .flagsTooShort => "glyph flags too short"
  | .flagRepeat => "glyph flag repeat count too large"
  | .coordinatesTooShort => "glyph co-ordinates too short"
  | .compoundTooShort => "compound glyph too short"
  | .compoundVector => "compound glyph transform vector"
  | .compoundTransform => "compound glyph scale/transform"
  | .compoundInstructions => "compound glyph instructions too long"
  | .compoundDepth => "excessive compound glyph recursion"
  | .breach => "access out of bounds"

def message (e : FontError) : String :=
  match e.kind with
  | .format => "freetype: invalid TrueType format: " ++ e.text
  | .unsupported => "freetype: unsupported TrueType feature: " ++ e.text

end FontError

/-- A computation on the bytes of a font. -/
abbrev FontM := Except FontError

end GridFit
