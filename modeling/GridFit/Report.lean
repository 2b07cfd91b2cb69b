import GridFit.CommandLine
import GridFit.Glyph.Buffer
import GridFit.Options
import GridFit.Text.Quoted

/-!
# Reports

The report on a text lists the glyph of each character with its advance width, its kerning and its
hinted contours.
-/

namespace GridFit

/-- What a command prints, and its exit code. -/
structure Report where
  exitCode : UInt32 := 0
  output : String
deriving DecidableEq, Repr

namespace Report

/-- A 26.6 number: the whole pixels, a colon and two digits for the rest. The least number has no
magnitude and is written out. -/
def fixedText (x : Int32) : String :=
  let unsigned (x : Int32) : String :=
    let rest := (x &&& 63).toInt
    let pixels := (x >>> 6).toInt
    if rest < 10 then s!"{pixels}:0{rest}" else s!"{pixels}:{rest}"
  if 0 ≤ x then unsigned x
  else if 0 ≤ -x then "-" ++ unsigned (-x)
  else "-33554432:00"

/-- A point, with a star if it lies on the curve. -/
def pointText (p : GlyphPoint) : String :=
  let mark := if Glyph.isOnCurve p then "*" else " "
  s!" {mark}({p.x.toInt},{p.y.toInt})"

/-- The lines of the contours from number `c` on, of which the first starts at point `start`. -/
def contourLines (points : Array GlyphPoint) (c start : Nat) : List Nat → String
  | [] => ""
  | stop :: rest =>
    let texts := (points.extract start stop).toList.map pointText
    s!"  contour {c}:" ++ String.join texts ++ "\n" ++ contourLines points (c + 1) stop rest

/-- The kerning of a glyph after the one before, if there is any. -/
def kerningText (f : Font) (previous : Option UInt16) (i : UInt16) : String :=
  match previous.map fun p => f.kerning p i with
  | some (.ok k) => if k = 0 then "" else s!" kerning {k.toInt}"
  | _ => ""

/-- The lines of a glyph that has been loaded. -/
def glyphText (f : Font) (previous : Option UInt16) (i : UInt16) (g : GlyphBuffer) : String :=
  let unhinted := match g.hintError with
    | some e => " unhinted: " ++ e.message
    | none => ""
  let advance := fixedText g.advance
  s!"glyph {i.toNat} advance {advance}" ++ kerningText f previous i ++ unhinted ++ "\n" ++
    contourLines g.points 0 0 g.ends.toList

/-- The lines of a text, whose glyphs are loaded into `buffer`. A glyph that cannot be loaded does not
count as the one before. -/
def textLines (f : Font) (scale : Int32) (buffer : GlyphBuffer) (hinter : Option BufferedHinter)
    (previous : Option UInt16) : List Char → String
  | [] => ""
  | c :: rest =>
    let quoted := Quoted.char c
    match f.index c.toNat with
    | .error e =>
      s!"{quoted}: " ++ e.message ++ "\n" ++ textLines f scale buffer hinter previous rest
    | .ok i =>
      match buffer.load f scale i hinter with
      | (.error e, buffer, hinter) =>
        s!"{quoted}: glyph {i.toNat}: " ++ e.message ++ "\n" ++
          textLines f scale buffer hinter previous rest
      | (.ok (), buffer, hinter) =>
        s!"{quoted}: " ++ glyphText f previous i buffer ++
          textLines f scale buffer hinter (some i) rest

def nameLine (f : Font) : String :=
  match f.nameOf NameRecord.fullName with
  | .ok name => if name.isEmpty then "" else s!"font: {name}\n"
  | .error _ => ""

def ofFont (f : Font) (o : Options) (text : String) : String :=
  let scale := fixedText o.scale
  nameLine f ++ s!"scale: {scale} ({f.unitsPerEm} units per em)\n" ++
    textLines f o.scale {} (o.newHinter.map fun h => { h with }) none text.toList

def hinting? : String → Option Hinting
  | "none" => some .none
  | "vertical" => some .vertical
  | "full" => some .full
  | _ => none

/-- The report that the settings ask for, given the bytes of the font file or why it cannot be
read. -/
def ofSettings (s : Settings) (file : Except String Bytes) : Report :=
  match hinting? s.hinting with
  | none =>
    let name := Quoted.text s.hinting
    { exitCode := 2, output := s!"unknown hinting {name}\n" }
  | some hinting =>
    match file with
    | .error e => { exitCode := 1, output := s!"Failed to load font from {s.font}: {e}\n" }
    | .ok data =>
      match Font.parse data with
      | .error e =>
        { exitCode := 1, output := s!"Failed to parse font from {s.font}: {e.message}\n" }
      | .ok f => { output := ofFont f { size := s.size, dpi := s.dpi, hinting } s.text }

end Report

end GridFit
