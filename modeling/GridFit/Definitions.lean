import GridFit.Fault

/-!
# Function and instruction definitions

A definition is a stretch of a program. Definitions are kept under their keys in a table with a
fixed number of slots, which can be written only while the font and control value programs run.
-/

namespace GridFit

/-- The body of a function or an instruction: the bytes of `program` from `start` to just past the
end marker at `stop`. -/
structure Definition where
  program : Program
  start : Nat
  stop : Nat
  key : Int32
deriving DecidableEq, Repr, Inhabited

/-- A table with a fixed number of slots for definitions. -/
structure DefinitionTable where
  slots : Array (Option Definition)
  writable : Bool
deriving DecidableEq, Repr, Inhabited

namespace DefinitionTable

def empty (n : Nat) (writable : Bool) : DefinitionTable := ⟨Array.replicate n none, writable⟩

def reset (t : DefinitionTable) : DefinitionTable :=
  { t with slots := t.slots.map fun _ => none }

def holds (key : Int32) (slot : Option Definition) : Bool := slot.any (·.key == key)

def direct? (t : DefinitionTable) (key : Int32) : Option (Option Definition) :=
  if 0 ≤ key then t.slots[key.toNatClampNeg]? else none

/-- The slot for a definition of `key`: the one that holds it already, else the one whose number it
is, else the first empty one. -/
def slotFor (t : DefinitionTable) (key : Int32) : Except Fault Nat :=
  if t.writable then
    match t.slots.findIdx? (holds key) with
    | some i => .ok i
    | none =>
      if t.direct? key = some none then .ok key.toNatClampNeg
      else
        match t.slots.findIdx? Option.isNone with
        | some i => .ok i
        | none => .error .tooManyDefinitions
  else .error .definitionInGlyphProgram

def store (t : DefinitionTable) (i : Nat) (d : Definition) : DefinitionTable :=
  { t with slots := t.slots.setIfInBounds i (some d) }

/-- The definition of `key`. The slot whose number is `key` is tried first. -/
def get? (t : DefinitionTable) (key : Int32) : Option Definition :=
  match t.direct? key with
  | some (some d) => if d.key = key then some d else scan
  | _ => scan
where
  scan : Option Definition := (t.slots.find? (holds key)).join

end DefinitionTable

end GridFit
