/-!
# Hexadecimal digits

Numbers in base 16 with a fixed number of digits, the most significant one first.
-/

namespace GridFit.Hexadecimal

def digits (count n : Nat) : List Char :=
  (List.range count).reverse.map fun i => Nat.digitChar (n >>> (4 * i) % 16)

def text (count n : Nat) : String := String.ofList (digits count n)

@[simp] theorem length_digits (count n : Nat) : (digits count n).length = count := by
  simp [digits]

end GridFit.Hexadecimal
