import GridFit.Table
import GridFit.Zone

/-!
# Working memory

Hinting a glyph needs a stack, overlays of the control values and of the storage area, and a copy of
the twilight zone. Their memory belongs to the caller and can be used again for the next glyph.
-/

namespace GridFit

/-- The sizes of the working memory that a configuration needs. -/
structure ScratchSizes where
  stack : Nat
  controlValues : Nat
  storage : Nat
  twilight : Nat
deriving DecidableEq, Repr, Inhabited

/-- The working memory of a hinting run. -/
structure Scratch where
  stack : Array Int32 := #[]
  controlValues : Array Int32 := #[]
  controlValuesWritten : Array UInt64 := #[]
  storage : Array Int32 := #[]
  storageWritten : Array UInt64 := #[]
  twilightScaled : Array Point := #[]
  twilightPoints : Array Point := #[]
  twilightFlags : Array PointFlags := #[]
deriving DecidableEq, Repr, Inhabited

namespace Scratch

def ofSizes (n : ScratchSizes) : Scratch where
  stack := Array.replicate n.stack 0
  controlValues := Array.replicate n.controlValues 0
  controlValuesWritten := Array.replicate (bitmapWords n.controlValues) 0
  storage := Array.replicate n.storage 0
  storageWritten := Array.replicate (bitmapWords n.storage) 0
  twilightScaled := Array.replicate n.twilight {}
  twilightPoints := Array.replicate n.twilight {}
  twilightFlags := Array.replicate n.twilight {}

/-- The memory is large enough. -/
structure Fits (sc : Scratch) (n : ScratchSizes) : Prop where
  stack : n.stack ≤ sc.stack.size
  controlValues : n.controlValues ≤ sc.controlValues.size
  controlValuesWritten : bitmapWords n.controlValues ≤ sc.controlValuesWritten.size
  storage : n.storage ≤ sc.storage.size
  storageWritten : bitmapWords n.storage ≤ sc.storageWritten.size
  twilightScaled : n.twilight ≤ sc.twilightScaled.size
  twilightPoints : n.twilight ≤ sc.twilightPoints.size
  twilightFlags : n.twilight ≤ sc.twilightFlags.size

theorem fits_iff (sc : Scratch) (n : ScratchSizes) :
    sc.Fits n ↔ n.stack ≤ sc.stack.size ∧ n.controlValues ≤ sc.controlValues.size ∧
      bitmapWords n.controlValues ≤ sc.controlValuesWritten.size ∧ n.storage ≤ sc.storage.size ∧
      bitmapWords n.storage ≤ sc.storageWritten.size ∧ n.twilight ≤ sc.twilightScaled.size ∧
      n.twilight ≤ sc.twilightPoints.size ∧ n.twilight ≤ sc.twilightFlags.size :=
  ⟨fun ⟨a, b, c, d, e, f, g, h⟩ => ⟨a, b, c, d, e, f, g, h⟩,
    fun ⟨a, b, c, d, e, f, g, h⟩ => ⟨a, b, c, d, e, f, g, h⟩⟩

instance (sc : Scratch) (n : ScratchSizes) : Decidable (sc.Fits n) :=
  decidable_of_iff _ (fits_iff sc n).symm

/-- `whole` with its first elements replaced by `part`. -/
def overwrite {α : Type} (whole part : Array α) : Array α :=
  part ++ whole.extract part.size whole.size

/-- The first `n` cells of `memory`, after `values` have been copied there. -/
def seed {α : Type} (memory values : Array α) (n : Nat) : Array α :=
  overwrite (memory.extract 0 n) values

end Scratch

end GridFit
