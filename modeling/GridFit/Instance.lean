import GridFit.Machine.Step
import GridFit.Outline
import GridFit.Scratch

/-!
# Instances

An instance is a font at one size and in one mode: the state that its font program and its control
value program have left behind. Glyphs are hinted from that state and never change it. A
configuration that fails leaves the one before in effect.
-/

namespace GridFit

/-- The limits that a font declares. -/
structure Maxima where
  stack : Nat := 0
  functions : Nat := 0
  instructions : Nat := 0
  twilight : Nat := 0
  storage : Nat := 0
deriving DecidableEq, Repr, Inhabited

/-- What a font supplies for hinting. The control values are in font units. -/
structure Source where
  maxima : Maxima := {}
  fontProgram : Bytes := #[]
  controlValueProgram : Bytes := #[]
  controlValues : Array Int16 := #[]
  axisCount : Nat := 0
deriving DecidableEq, Repr, Inhabited

/-- The state that the font and control value programs have left behind. -/
structure Snapshot where
  fontProgram : Bytes
  controlValueProgram : Bytes
  functions : Array (Option Definition)
  instructions : Array (Option Definition)
  controlValues : Array Int32
  storage : Array Int32
  twilight : Zone
  retained : Retained
  stackSize : Nat
  axisCount : Nat
  coords : Array Int16
deriving DecidableEq, Repr, Inhabited

/-- How many twilight points there are beyond those that the font declares. -/
def twilightExtra : Nat := 4

/-- How much deeper the stack is than the font declares. -/
def stackSlack : Nat := 32

namespace Source

/-- The machine on which the font and control value programs run. -/
def machine (src : Source) (scale ppem : Int32) (mode : Mode) (coords : Array Int16) : Machine where
  flow := { programs := { font := src.fontProgram, controlValue := src.controlValueProgram } }
  graphics := .start (.initial scale ppem mode) false
  stack := .ofBuffer (Array.replicate (src.maxima.stack + stackSlack) 0)
  controlValues := .owned (src.controlValues.map fun v => Fixed.mulFix v.toInt32 scale)
  storage := .owned (Array.replicate src.maxima.storage 0)
  twilight := .blank (src.maxima.twilight + twilightExtra)
  glyph := {}
  functions := .empty src.maxima.functions true
  instructions := .empty src.maxima.instructions true
  coords := coords
  axisCount := src.axisCount

end Source

namespace Machine

def runNonempty (program : Program) : EStateM Failure Machine Unit := fun m =>
  if (m.flow.programs.get program).isEmpty then .ok () m else run program m

/-- Puts the retained state back to its defaults and empties the stack. -/
def refresh (m : Machine) : Machine :=
  { m with
    graphics := { m.graphics with
      toRetained := .initial m.graphics.scale m.graphics.ppem m.graphics.mode }
    stack := m.stack.clear }

/-- Runs the font program and then, from the default state, the control value program. -/
def configure : EStateM Failure Machine Unit := do
  runNonempty .font
  modify refresh
  runNonempty .controlValue

/-- What a glyph sees of the machine. -/
def snapshot (m : Machine) : Snapshot where
  fontProgram := m.flow.programs.font
  controlValueProgram := m.flow.programs.controlValue
  functions := m.functions.slots
  instructions := m.instructions.slots
  controlValues := m.controlValues.cells
  storage := m.storage.cells
  twilight := m.twilight
  retained := m.graphics.toRetained
  stackSize := m.stack.words.size
  axisCount := m.axisCount
  coords := m.coords

end Machine

/-- The state that the programs of a font leave behind. -/
def Source.configure (src : Source) (scale ppem : Int32) (mode : Mode) (coords : Array Int16) :
    Except Failure Snapshot :=
  match Machine.configure (src.machine scale ppem mode coords) with
  | .ok () m => .ok m.snapshot
  | .error f _ => .error f

namespace Snapshot

/-- The working memory that hinting a glyph needs. -/
def sizes (s : Snapshot) : ScratchSizes where
  stack := s.stackSize
  controlValues := s.controlValues.size
  storage := s.storage.size
  twilight := s.twilight.points.size

/-- The retained state from which a glyph program starts: the default one, if the font wants
that. -/
def glyphState (s : Snapshot) : Retained :=
  let r := s.retained
  if r.controls InstructControl.defaultGraphics then
    { Retained.initial r.scale r.ppem r.mode with instructControl := r.instructControl }
  else r

/-- The twilight zone of a glyph program, in working memory. -/
def seedTwilight (s : Snapshot) (sc : Scratch) : Zone :=
  let n := s.twilight.points.size
  { scaled := Scratch.seed sc.twilightScaled s.twilight.scaled n
    points := Scratch.seed sc.twilightPoints s.twilight.points n
    flags := Scratch.seed sc.twilightFlags s.twilight.flags n }

def machine (s : Snapshot) (o : Outline) (sc : Scratch) (h : sc.Fits s.sizes) : Machine where
  flow :=
    { programs :=
        { font := s.fontProgram, controlValue := s.controlValueProgram, glyph := o.bytecode } }
  graphics := .start s.glyphState o.composite
  stack := .ofBuffer (sc.stack.extract 0 s.stackSize)
  controlValues := .overlay
    (.fresh s.controlValues sc.controlValues sc.controlValuesWritten h.controlValues
      h.controlValuesWritten)
  storage := .overlay
    (.fresh s.storage sc.storage sc.storageWritten h.storage h.storageWritten)
  twilight := s.seedTwilight sc
  glyph := o.zone
  functions := ⟨s.functions, false⟩
  instructions := ⟨s.instructions, false⟩
  coords := s.coords
  axisCount := s.axisCount

end Snapshot

namespace Machine

/-- The working memory after a run that started with `sc`. What the run did not use is as before. -/
def scratch (m : Machine) (sc : Scratch) : Scratch where
  stack := Scratch.overwrite sc.stack m.stack.words
  controlValues := m.controlValues.cells
  controlValuesWritten := m.controlValues.written
  storage := m.storage.cells
  storageWritten := m.storage.written
  twilightScaled := Scratch.overwrite sc.twilightScaled m.twilight.scaled
  twilightPoints := Scratch.overwrite sc.twilightPoints m.twilight.points
  twilightFlags := Scratch.overwrite sc.twilightFlags m.twilight.flags

def outline (m : Machine) (o : Outline) : Outline :=
  { o with scaled := m.glyph.scaled, points := m.glyph.points, flags := m.glyph.flags }

end Machine

/-- Why a glyph could not be hinted. -/
inductive HintError where
  | notConfigured
  | failed (failure : Failure)
deriving DecidableEq, Repr

def HintError.message : HintError → String
  | .notConfigured => "hinting: instance not configured"
  | .failed f => f.message

/-- The outcome of hinting a glyph. After an error the outline is as the program left it. -/
structure Hinted where
  outline : Outline
  scratch : Option Scratch
  error : Option HintError := none
deriving DecidableEq, Repr

namespace Snapshot

/-- Hints an outline that is consistent, with working memory that is large enough. -/
def run (s : Snapshot) (o : Outline) (sc : Scratch) (hc : Phantom.count ≤ o.scaled.size)
    (h : sc.Fits s.sizes) : Hinted :=
  let o := { o with phantom := .ofEnd o.scaled hc }
  if o.bytecode.isEmpty then { outline := o, scratch := sc }
  else
    match Machine.run .glyph (s.machine o sc h) with
    | .ok () m =>
      let o := m.outline o
      if m.graphics.backwardCompatible then { outline := o, scratch := m.scratch sc }
      else if hp : Phantom.count ≤ o.points.size then
        { outline := { o with phantom := .ofEnd o.points hp }, scratch := m.scratch sc }
      else
        { outline := o, scratch := m.scratch sc
          error := some (.failed { program := .glyph, glyph := o.glyph, fault := .breach }) }
    | .error f m =>
      { outline := m.outline o, scratch := m.scratch sc
        error := some (.failed { f with glyph := o.glyph }) }

/-- Hints an outline. An outline or a working memory of the wrong size is refused, and then nothing
changes. -/
def hint (s : Snapshot) (o : Outline) (sc? : Option Scratch) : Hinted :=
  let refuse (fault : Fault) : Hinted :=
    { outline := o, scratch := sc?
      error := some (.failed { program := .glyph, glyph := o.glyph, fault }) }
  if hc : o.isConsistent then
    match sc? with
    | none => refuse .insufficientScratch
    | some sc =>
      if h : sc.Fits s.sizes then s.run o sc (Outline.count_le_scaled hc) h
      else refuse .insufficientScratch
  else refuse .invalidPointRange

end Snapshot

/-- A font at one size and in one mode, once it has been configured. -/
structure Instance where
  snapshot : Option Snapshot := none
deriving DecidableEq, Repr, Inhabited

namespace Instance

/-- Runs the font and control value programs of `src` for a size, a mode and variation coordinates.
If one of them fails, the instance stays as it is. -/
def reconfigure (i : Instance) (src : Source) (scale ppem : Int32) (mode : Mode)
    (coords : Array Int16) : Option Failure × Instance :=
  match src.configure scale ppem mode coords with
  | .ok s => (none, ⟨some s⟩)
  | .error f => (some f, i)

def isEnabled (i : Instance) : Bool :=
  i.snapshot.any fun s => !s.retained.controls InstructControl.disable

/-- Whether glyphs are hinted with backward compatibility, so that their metrics stay as they
are. -/
def isBackwardCompatible (i : Instance) : Bool := i.snapshot.any (·.retained.isBackwardCompatible)

/-- Cleared working memory for the current configuration. -/
def newScratch (i : Instance) : Option Scratch := i.snapshot.map fun s => .ofSizes s.sizes

def hint (i : Instance) (o : Outline) (sc? : Option Scratch) : Hinted :=
  match i.snapshot with
  | none => { outline := o, scratch := sc?, error := some .notConfigured }
  | some s => s.hint o sc?

end Instance

end GridFit
