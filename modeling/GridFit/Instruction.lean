import GridFit.Rounding
import GridFit.Vec

/-!
# The instruction set

Every byte is the opcode of an instruction. The constructors are named by the usual mnemonics; the
options that an opcode carries in its low bits are arguments.
-/

namespace GridFit

/-- The scalars of the graphics state that have a setter of their own. -/
inductive Scalar where
  | minDistance
  | cutIn
  | singleWidthCutIn
  | singleWidth
  | deltaBase
  | deltaShift
deriving DecidableEq, Repr

/-- Operations that replace two values by one. -/
inductive BinaryOp where
  | lt
  | lteq
  | gt
  | gteq
  | eq
  | neq
  | and
  | or
  | add
  | sub
  | div
  | mul
  | max
  | min
deriving DecidableEq, Repr

/-- Operations that replace one value. `round` and `nround` name a kind of distance, which makes no
difference. -/
inductive UnaryOp where
  | odd
  | even
  | not
  | abs
  | neg
  | floor
  | ceiling
  | round (kind : Fin 4)
  | nround (kind : Fin 4)
deriving DecidableEq, Repr

structure RelativeMove where
  /-- The moved point becomes reference point 0. -/
  setsReference : Bool
  /-- The distance is kept at least the minimum distance. -/
  keepsMinimum : Bool
  rounds : Bool
  /-- The kind of distance, which makes no difference. -/
  kind : Fin 4
deriving DecidableEq, Repr

def RelativeMove.ofBits (n : Nat) : RelativeMove where
  setsReference := n.testBit 4
  keepsMinimum := n.testBit 3
  rounds := n.testBit 2
  kind := Fin.ofNat 4 n

inductive Instruction where
  /-- Sets both vectors to an axis. -/
  | svtca (axis : Axis)
  /-- Sets the projection vector to an axis. -/
  | spvtca (axis : Axis)
  /-- Sets the freedom vector to an axis. -/
  | sfvtca (axis : Axis)
  /-- Sets the projection vector to a line, or perpendicular to it. -/
  | spvtl (perpendicular : Bool)
  /-- Sets the freedom vector to a line, or perpendicular to it. -/
  | sfvtl (perpendicular : Bool)
  /-- Sets the projection vector from the stack. -/
  | spvfs
  /-- Sets the freedom vector from the stack. -/
  | sfvfs
  /-- Pushes the projection vector. -/
  | gpv
  /-- Pushes the freedom vector. -/
  | gfv
  /-- Sets the freedom vector to the projection vector. -/
  | sfvtpv
  /-- Moves a point to the intersection of two lines. -/
  | isect
  /-- Sets a reference point. -/
  | srp (k : Fin 3)
  /-- Sets a zone pointer. -/
  | szp (k : Fin 3)
  /-- Sets all zone pointers. -/
  | szps
  /-- Sets the loop counter. -/
  | sloop
  /-- Sets the round mode. -/
  | setRound (mode : RoundMode)
  /-- Sets super rounding on the square or the diagonal grid. -/
  | sround (diagonal : Bool)
  /-- Sets a scalar of the graphics state. -/
  | setScalar (s : Scalar)
  /-- Switches automatic sign flipping. -/
  | autoFlip (on : Bool)
  /-- The start of the other branch of a test. -/
  | elseBranch
  /-- A test of the top of the stack. -/
  | ifTest
  /-- The end of a test. -/
  | endIf
  /-- Jumps. -/
  | jmpr
  /-- Jumps if the condition is as given. -/
  | jumpIf (condition : Bool)
  /-- Copies the top. -/
  | dup
  /-- Removes the top. -/
  | pop
  /-- Removes everything. -/
  | clear
  /-- Exchanges the two topmost values. -/
  | swap
  /-- Pushes the number of values. -/
  | depth
  /-- Copies a value to the top. -/
  | cindex
  /-- Moves a value to the top. -/
  | mindex
  /-- Moves the third value to the top. -/
  | roll
  /-- Removes the top, which is for a debugger. -/
  | debug
  /-- Removes the top, an angle weight. -/
  | sangw
  /-- Removes the top, an angle. -/
  | aa
  /-- Removes the top, a scan conversion setting. -/
  | scanctrl
  /-- Removes the top, a scan conversion kind. -/
  | scantype
  /-- Aligns two points. -/
  | alignpts
  /-- Marks a point untouched. -/
  | utp
  /-- Calls a function several times. -/
  | loopcall
  /-- Calls a function. -/
  | call
  /-- Defines a function. -/
  | fdef
  /-- Defines an instruction. -/
  | idef
  /-- Ends a definition. -/
  | endf
  /-- Touches a point, after rounding if `rounds`. -/
  | mdap (rounds : Bool)
  /-- Moves a point to a control value. -/
  | miap (rounds : Bool)
  /-- Interpolates the untouched points along an axis. -/
  | iup (axis : Axis)
  /-- Shifts points by the displacement of a reference point, the first or the second. -/
  | shp (first : Bool)
  /-- Shifts a contour. -/
  | shc (first : Bool)
  /-- Shifts a zone. -/
  | shz (first : Bool)
  /-- Shifts points by an amount. -/
  | shpix
  /-- Interpolates points between two reference points. -/
  | ip
  /-- Moves a point to a distance from the stack. -/
  | msirp (setsReference : Bool)
  /-- Aligns points to a reference point. -/
  | alignrp
  /-- Pushes bytes, of which the next byte gives the number. -/
  | npushb
  /-- Pushes words, of which the next byte gives the number. -/
  | npushw
  /-- Pushes one to eight bytes. -/
  | pushb (extra : Fin 8)
  /-- Pushes one to eight words. -/
  | pushw (extra : Fin 8)
  /-- Writes to the storage area. -/
  | ws
  /-- Reads from the storage area. -/
  | rs
  /-- Writes a control value in pixels. -/
  | wcvtp
  /-- Writes a control value in font units. -/
  | wcvtf
  /-- Reads a control value. -/
  | rcvt
  /-- Pushes the projection of a point, before hinting if `unhinted`. -/
  | gc (unhinted : Bool)
  /-- Moves a point to a projection from the stack. -/
  | scfs
  /-- Measures a distance, in the current outline if `current`. -/
  | md (current : Bool)
  /-- Pushes the pixels per em. -/
  | mppem
  /-- Pushes the point size, for which the pixels per em stand. -/
  | mps
  /-- Replaces two values by one. -/
  | binary (op : BinaryOp)
  /-- Replaces one value. -/
  | unary (op : UnaryOp)
  /-- Moves points at certain sizes. -/
  | deltap (range : Fin 3)
  /-- Changes control values at certain sizes. -/
  | deltac (range : Fin 3)
  /-- Flips points between on and off the curve. -/
  | flippt
  /-- Puts a range of points on or off the curve. -/
  | fliprg (on : Bool)
  /-- Sets the dual projection vector to a line, or perpendicular to it. -/
  | sdpvtl (perpendicular : Bool)
  /-- Pushes properties of the rasterizer. -/
  | getinfo
  /-- Switches the execution of glyph programs. -/
  | instctrl
  /-- Pushes the variation coordinates. -/
  | getvar
  /-- Pushes 17 in a font with variations. -/
  | getdata
  /-- Moves a point to its unhinted distance from a reference point. -/
  | mdrp (m : RelativeMove)
  /-- Moves a point to a control value distance from a reference point. -/
  | mirp (m : RelativeMove)
  /-- An opcode without a meaning of its own, which a font may define. -/
  | undefined (byte : UInt8)
deriving DecidableEq, Repr

namespace Instruction

/-- The instructions with opcodes below 0x93, in order. -/
def lowOpcodes : List Instruction :=
  [
    -- 0x00
    .svtca .y, .svtca .x, .spvtca .y, .spvtca .x, .sfvtca .y, .sfvtca .x, .spvtl false, .spvtl true,
    .sfvtl false, .sfvtl true, .spvfs, .sfvfs, .gpv, .gfv, .sfvtpv, .isect,
    -- 0x10
    .srp 0, .srp 1, .srp 2, .szp 0, .szp 1, .szp 2, .szps, .sloop,
    .setRound .grid, .setRound .halfGrid, .setScalar .minDistance, .elseBranch,
    .jmpr, .setScalar .cutIn, .setScalar .singleWidthCutIn, .setScalar .singleWidth,
    -- 0x20
    .dup, .pop, .clear, .swap, .depth, .cindex, .mindex, .alignpts,
    .undefined 0x28, .utp, .loopcall, .call, .fdef, .endf, .mdap false, .mdap true,
    -- 0x30
    .iup .y, .iup .x, .shp false, .shp true, .shc false, .shc true, .shz false, .shz true,
    .shpix, .ip, .msirp false, .msirp true,
    .alignrp, .setRound .doubleGrid, .miap false, .miap true,
    -- 0x40
    .npushb, .npushw, .ws, .rs, .wcvtp, .rcvt, .gc false, .gc true,
    .scfs, .md true, .md false, .mppem, .mps, .autoFlip true, .autoFlip false, .debug,
    -- 0x50
    .binary .lt, .binary .lteq, .binary .gt, .binary .gteq,
    .binary .eq, .binary .neq, .unary .odd, .unary .even,
    .ifTest, .endIf, .binary .and, .binary .or,
    .unary .not, .deltap 0, .setScalar .deltaBase, .setScalar .deltaShift,
    -- 0x60
    .binary .add, .binary .sub, .binary .div, .binary .mul,
    .unary .abs, .unary .neg, .unary .floor, .unary .ceiling,
    .unary (.round 0), .unary (.round 1), .unary (.round 2), .unary (.round 3),
    .unary (.nround 0), .unary (.nround 1), .unary (.nround 2), .unary (.nround 3),
    -- 0x70
    .wcvtf, .deltap 1, .deltap 2, .deltac 0, .deltac 1, .deltac 2, .sround false, .sround true,
    .jumpIf true, .jumpIf false, .setRound .off, .undefined 0x7b,
    .setRound .upToGrid, .setRound .downToGrid, .sangw, .aa,
    -- 0x80
    .flippt, .fliprg true, .fliprg false, .undefined 0x83,
    .undefined 0x84, .scanctrl, .sdpvtl false, .sdpvtl true,
    .getinfo, .idef, .roll, .binary .max, .binary .min, .scantype, .instctrl, .undefined 0x8f,
    -- 0x90
    .undefined 0x90, .getvar, .getdata]

/-- The instructions with opcodes from 0x93 on, in order. -/
def highOpcodes : List Instruction :=
  (List.ofFn fun n : Fin 29 => undefined (0x93 + n.val.toUInt8))
  ++ (List.ofFn fun n : Fin 8 => pushb n)
  ++ (List.ofFn fun n : Fin 8 => pushw n)
  ++ (List.ofFn fun n : Fin 32 => mdrp (.ofBits n))
  ++ (List.ofFn fun n : Fin 32 => mirp (.ofBits n))

/-- The instructions in the order of their opcodes. -/
def table : Array Instruction := (lowOpcodes ++ highOpcodes).toArray

@[irreducible] def ofByte (b : UInt8) : Instruction := table.getD b.toNat (.undefined b)

end Instruction

/-- The layout of the operands that follow a push opcode. -/
structure PushForm where
  /-- The number of operands, or nothing if the next byte gives it. -/
  count? : Option Nat
  /-- The operands are words, not bytes. -/
  wide : Bool
deriving DecidableEq, Repr

namespace Instruction

def pushForm? : Instruction → Option PushForm
  | .npushb => some ⟨none, false⟩
  | .npushw => some ⟨none, true⟩
  | .pushb extra => some ⟨some (extra.val + 1), false⟩
  | .pushw extra => some ⟨some (extra.val + 1), true⟩
  | _ => none

def isPush (i : Instruction) : Bool := i.pushForm?.isSome

end Instruction

end GridFit
