import GridFit.Bytes
import GridFit.CommandLine
import GridFit.Cursor
import GridFit.Definitions
import GridFit.Fault
import GridFit.Fixed
import GridFit.Flow
import GridFit.Font.Basic
import GridFit.Font.CharMap
import GridFit.Font.Directory
import GridFit.Font.Error
import GridFit.Font.Kerning
import GridFit.Font.Names
import GridFit.Font.Reader
import GridFit.Glyph.Buffer
import GridFit.Glyph.Load
import GridFit.Glyph.Record
import GridFit.Graphics
import GridFit.Hinter
import GridFit.Instance
import GridFit.Instruction
import GridFit.Interpolation
import GridFit.Machine.Arithmetic
import GridFit.Machine.Basic
import GridFit.Machine.Control
import GridFit.Machine.Measurement
import GridFit.Machine.Placement
import GridFit.Machine.Settings
import GridFit.Machine.Shifting
import GridFit.Machine.Step
import GridFit.Main
import GridFit.Movement
import GridFit.Numeral
import GridFit.OperandStack
import GridFit.Options
import GridFit.Outline
import GridFit.Proofs.Action
import GridFit.Proofs.Boundaries
import GridFit.Proofs.Budget
import GridFit.Proofs.Compatibility
import GridFit.Proofs.Congruence
import GridFit.Proofs.Containment
import GridFit.Proofs.Continuation
import GridFit.Proofs.Control
import GridFit.Proofs.Definitions
import GridFit.Proofs.Encoding
import GridFit.Proofs.Execution
import GridFit.Proofs.Faults
import GridFit.Proofs.Fixed
import GridFit.Proofs.Fixed.Nearest
import GridFit.Proofs.Font.CharacterMap
import GridFit.Proofs.Font.Kerning
import GridFit.Proofs.Font.Reading
import GridFit.Proofs.Font.Tables
import GridFit.Proofs.Glyph.Assembly
import GridFit.Proofs.Glyph.Buffer
import GridFit.Proofs.Glyph.ContourEnds
import GridFit.Proofs.Glyph.Decoding
import GridFit.Proofs.Glyph.Fallback
import GridFit.Proofs.Glyph.Flattening
import GridFit.Proofs.Glyph.HintCalls
import GridFit.Proofs.Glyph.Layout
import GridFit.Proofs.Glyph.Loading
import GridFit.Proofs.Glyph.Metrics
import GridFit.Proofs.Glyph.Record
import GridFit.Proofs.Glyph.Reuse
import GridFit.Proofs.Glyph.Tree
import GridFit.Proofs.GraphicsState
import GridFit.Proofs.Independence
import GridFit.Proofs.InstructControl
import GridFit.Proofs.Interpolation.Coordinates
import GridFit.Proofs.Interpolation.Order
import GridFit.Proofs.Interpolation.Pointwise
import GridFit.Proofs.Interpolation.Proportion
import GridFit.Proofs.Intersection
import GridFit.Proofs.Linkage
import GridFit.Proofs.Location
import GridFit.Proofs.LoopCall
import GridFit.Proofs.Loops
import GridFit.Proofs.Memory
import GridFit.Proofs.Opcode
import GridFit.Proofs.OperandStack
import GridFit.Proofs.OperandStack.Operations
import GridFit.Proofs.Overlay
import GridFit.Proofs.Placement
import GridFit.Proofs.Plain
import GridFit.Proofs.Recount
import GridFit.Proofs.Reference
import GridFit.Proofs.Regime.Basic
import GridFit.Proofs.Regime.Execute
import GridFit.Proofs.Regime.Zone
import GridFit.Proofs.Rounding.Grid
import GridFit.Proofs.Rounding.Steps
import GridFit.Proofs.Safety
import GridFit.Proofs.Structured
import GridFit.Proofs.Success
import GridFit.Proofs.Table
import GridFit.Proofs.Trace
import GridFit.Report
import GridFit.Rounding
import GridFit.Scratch
import GridFit.Table
import GridFit.Text.Hexadecimal
import GridFit.Text.MacRoman
import GridFit.Text.Printable
import GridFit.Text.Quoted
import GridFit.Text.Utf16
import GridFit.Vec
import GridFit.Zone
