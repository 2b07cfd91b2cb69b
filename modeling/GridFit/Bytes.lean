/-!
# Byte strings

Programs and font tables are byte strings. Numbers in them are big-endian.
-/

namespace GridFit

abbrev Bytes := Array UInt8

namespace Bytes

/-- The 16-bit number with high byte `hi` and low byte `lo`. -/
def word (hi lo : UInt8) : UInt16 := hi.toUInt16 <<< 8 ||| lo.toUInt16

theorem toNat_word (hi lo : UInt8) : (word hi lo).toNat = 256 * hi.toNat + lo.toNat := by
  have hhi := hi.toNat_lt
  have hlo := lo.toNat_lt
  have hshift : (hi.toUInt16 <<< 8).toNat = hi.toNat <<< 8 := by
    rw [UInt16.toNat_shiftLeft, UInt8.toNat_toUInt16, Nat.mod_eq_of_lt]
    · rfl
    · show hi.toNat <<< 8 < 2 ^ 16
      rw [Nat.shiftLeft_eq]
      omega
  rw [word, UInt16.toNat_or, hshift, UInt8.toNat_toUInt16, ← Nat.shiftLeft_add_eq_or_of_lt hlo,
    Nat.shiftLeft_eq]
  omega

def zeroExtend (b : UInt8) : Int32 := Int32.ofNat b.toNat

def signExtend (w : UInt16) : Int32 := w.toInt16.toInt32

theorem toInt_signExtend (w : UInt16) : (signExtend w).toInt = (w.toNat : Int).bmod 0x10000 := by
  rw [signExtend, Int16.toInt_toInt32]
  exact BitVec.toInt_eq_toNat_bmod _

/-- The 16-bit numbers that consecutive pairs of bytes spell. A last odd byte is dropped. -/
def toWords : List UInt8 → List UInt16
  | hi :: lo :: rest => word hi lo :: toWords rest
  | _ => []

end Bytes

end GridFit
